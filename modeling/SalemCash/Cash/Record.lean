import Mathlib.Data.List.AList
import Mathlib.Data.UInt
import Mathlib.Tactic.Abel

/-!
# Records of the UTXO cache

The value types of `cash.h`: outpoints, outputs, the UTXO record `Cash`, the cache entry with
its two flag bits, and the cache map `CCashMap`.

* `Cash.IsSpent`, `Cash.Clear`, `cashEmpty`: a record is spent when its output is null, and
  `Clear` turns any record into the empty one that `AccessCash` hands out on a miss.
* `Env`: what `cash.cpp` uses from headers outside this model (`CScript::IsUnspendable`, the
  `memusage` sizes, `MAX_OUTPUTS_PER_BLOCK`).
* `CCashMap` is an association list with distinct keys; its entry list is the iteration order
  of the `unordered_map`. `lookup_replace` completes the library's lookup lemmas.
* `cashUsage`: the sum of the records' dynamic usage over a map, in `size_t` arithmetic, as
  `SelfTest` recomputes it; `cashUsage_insert`, `cashUsage_erase`, `cashUsage_replace` say how
  each map update changes it.
-/

namespace SalemCash

/-- A 256-bit hash (`uint256`); the null hash is `0`. -/
abbrev Uint256 := BitVec 256

/-- A script (`CScript`) is a byte vector. -/
abbrev CScript := List UInt8

/-- `COutPoint`: a transaction id and a 32-bit output index. -/
structure COutPoint where
  hash : Uint256
  n : UInt32
deriving DecidableEq, Repr

/-- `CTxOut`: an amount and a script. The amount is a `CAmount`, an `int64_t`, kept as an
integer; where the cache adds amounts (`GetValueIn`), each result is checked against the
`int64_t` range by `int64Op`. -/
structure CTxOut where
  nValue : Int
  scriptPubKey : CScript
deriving DecidableEq, Repr

/-- `INT64_MIN` of `int64_t`, the type of `CAmount`. -/
def INT64_MIN : Int := -2 ^ 63

/-- `INT64_MAX` of `int64_t`. -/
def INT64_MAX : Int := 2 ^ 63 - 1

/-- The value of a `CAmount` operation whose exact result is `r`: `r` when an `int64_t` holds it,
and `none` on signed overflow, which is undefined behaviour. -/
def int64Op (r : Int) : Option Int :=
  if INT64_MIN ≤ r ∧ r ≤ INT64_MAX then some r else none

/-- Modelled from the spec: `CTxOut::IsNull` (in `primitives/transaction.h`, not part of the
sources) holds when the amount is the sentinel `-1`. -/
def CTxOut.IsNull (out : CTxOut) : Bool := out.nValue == -1

/-- Modelled from the spec: `CTxOut::SetNull` sets the sentinel amount and clears the script. -/
def CTxOut.SetNull (_ : CTxOut) : CTxOut := ⟨-1, []⟩

/-- `Cash`: an output with the base-reward bit (`fCashBase : 1`) and the height
(`nHeight : 31`) of the transaction that made it. -/
structure Cash where
  out : CTxOut
  fCashBase : Bool
  nHeight : BitVec 31
deriving DecidableEq, Repr

/-- `Cash(outIn, nHeightIn, fCashBaseIn)`: the `int` height goes into the 31-bit field. -/
def Cash.mk' (outIn : CTxOut) (nHeightIn : Int) (fCashBaseIn : Bool) : Cash :=
  ⟨outIn, fCashBaseIn, BitVec.ofInt 31 nHeightIn⟩

/-- `Cash()`, also the shared `cashEmpty` of `cash.cpp`. -/
def cashEmpty : Cash := ⟨⟨-1, []⟩, false, 0⟩

/-- `Cash::IsSpent`. -/
def Cash.IsSpent (c : Cash) : Bool := c.out.IsNull

/-- `Cash::Clear`. -/
def Cash.Clear (c : Cash) : Cash := { out := c.out.SetNull, fCashBase := false, nHeight := 0 }

/-- What `GetCash` reports for a record: the record when it is unspent. -/
def Cash.ifUnspent (c : Cash) : Option Cash := if c.IsSpent then none else some c

@[simp] theorem Cash.Clear_eq (c : Cash) : c.Clear = cashEmpty := rfl

@[simp] theorem cashEmpty_IsSpent : cashEmpty.IsSpent = true := rfl

@[simp] theorem Cash.ifUnspent_of_IsSpent {c : Cash} (h : c.IsSpent = true) :
    c.ifUnspent = none := by simp [Cash.ifUnspent, h]

@[simp] theorem Cash.ifUnspent_of_not_IsSpent {c : Cash} (h : c.IsSpent = false) :
    c.ifUnspent = some c := by simp [Cash.ifUnspent, h]

theorem Cash.ifUnspent_eq_some {c c' : Cash} : c.ifUnspent = some c' ↔ c.IsSpent = false ∧ c = c' := by
  unfold Cash.ifUnspent; split <;> simp_all

/-- `CTxIn`, as far as the cache reads it: the outpoint it spends. -/
structure CTxIn where
  prevout : COutPoint
deriving DecidableEq, Repr

/-- `CTransaction`, as far as the cache reads it: its hash (`GetHash()`, fixed at construction),
its inputs and outputs, and whether it is a base-reward transaction (`IsCashBase()`, decided
from the inputs in `primitives/transaction.h`, which is not part of the sources). -/
structure CTransaction where
  hash : Uint256
  vin : List CTxIn
  vout : List CTxOut
  IsCashBase : Bool
deriving DecidableEq, Repr

/-- `CCashCacheEntry`: a record with the two bits of `flags` that the code sets and tests,
`DIRTY` (`1 << 0`) and `FRESH` (`1 << 1`). -/
structure CCashCacheEntry where
  cash : Cash
  dirty : Bool
  fresh : Bool
deriving DecidableEq, Repr

/-- `CCashMap`: outpoint to entry, with distinct keys. -/
abbrev CCashMap := AList fun _ : COutPoint => CCashCacheEntry

/-- What `cash.cpp` uses from headers outside this model: `CScript::IsUnspendable`
(`script/script.h`), `memusage::DynamicUsage` of a script and of the map (`memusage.h`), and
`MAX_OUTPUTS_PER_BLOCK`, computed from `consensus/consensus.h` as the `unsigned int` block
weight over the weight of an empty output, so below `2^32`. A cleared script owns no memory
(`CScript::clear` shrinks it to fit). -/
structure Env where
  IsUnspendable : CScript → Bool
  DynamicUsage : CScript → UInt64
  DynamicUsage_nil : DynamicUsage [] = 0
  MapUsage : CCashMap → UInt64
  MAX_OUTPUTS_PER_BLOCK : UInt32

/-- An environment for examples: a script owns as many bytes as it holds, it is unspendable when
it starts with `OP_RETURN` (`0x6a`), the map itself is not counted, and a block holds at most
four outputs. -/
def demoEnv : Env where
  IsUnspendable s := s.head? == some 0x6a
  DynamicUsage s := s.length.toUInt64
  DynamicUsage_nil := rfl
  MapUsage _ := 0
  MAX_OUTPUTS_PER_BLOCK := 4

variable (env : Env)

/-- `Cash::DynamicMemoryUsage`. -/
def Cash.DynamicMemoryUsage (c : Cash) : UInt64 := env.DynamicUsage c.out.scriptPubKey

@[simp] theorem cashEmpty_DynamicMemoryUsage : cashEmpty.DynamicMemoryUsage env = 0 :=
  env.DynamicUsage_nil

/-- The records' usage summed over a map, as `SelfTest` does it. -/
def cashUsage (m : CCashMap) : UInt64 :=
  (m.entries.map fun e => e.2.cash.DynamicMemoryUsage env).sum

/-! ## Lookups and sums over association lists -/

section Lists

variable {α : Type} [DecidableEq α] {β : Type} (f : β → UInt64)

theorem sum_map_kerase {a : α} {b : β} :
    ∀ {l : List (Σ _ : α, β)}, l.dlookup a = some b →
      (l.map fun e => f e.2).sum = f b + ((l.kerase a).map fun e => f e.2).sum
  | [], h => by simp at h
  | ⟨a', b'⟩ :: l, h => by
    by_cases ha : a = a'
    · subst ha
      simp only [List.dlookup_cons_eq, Option.some.injEq] at h
      simp [h]
    · rw [List.dlookup_cons_ne _ _ ha] at h
      rw [List.kerase_cons_ne ha, List.map_cons, List.map_cons, List.sum_cons,
        List.sum_cons, sum_map_kerase h, add_left_comm]

theorem kreplace_cons_eq (a : α) (b b' : β) (l : List (Σ _ : α, β)) :
    (⟨a, b⟩ :: l).kreplace a b' = ⟨a, b'⟩ :: l := by
  rw [List.kreplace, List.lookmap_cons_some _ (b := ⟨a, b'⟩) l (by simp)]

theorem kreplace_cons_ne {a k : α} (b' v : β) (l : List (Σ _ : α, β)) (h : a ≠ k) :
    (⟨k, v⟩ :: l).kreplace a b' = ⟨k, v⟩ :: l.kreplace a b' := by
  rw [List.kreplace, List.lookmap_cons_none _ l (by simp [h])]

theorem sum_map_kreplace {a : α} {b b' : β} :
    ∀ {l : List (Σ _ : α, β)}, l.dlookup a = some b →
      ((l.kreplace a b').map fun e => f e.2).sum + f b = (l.map fun e => f e.2).sum + f b'
  | [], h => by simp at h
  | ⟨a', b''⟩ :: l, h => by
    by_cases ha : a = a'
    · subst ha
      simp only [List.dlookup_cons_eq, Option.some.injEq] at h
      subst h
      simp only [kreplace_cons_eq, List.map_cons, List.sum_cons]
      abel
    · rw [List.dlookup_cons_ne _ _ ha] at h
      simp only [kreplace_cons_ne _ _ _ ha, List.map_cons, List.sum_cons]
      rw [add_assoc, sum_map_kreplace h, add_assoc]

theorem dlookup_kreplace {a a' : α} {b' : β} :
    ∀ {l : List (Σ _ : α, β)}, (l.kreplace a b').dlookup a' =
      if a' = a then (l.dlookup a).map fun _ => b' else l.dlookup a'
  | [] => by simp [List.kreplace]
  | ⟨k, v⟩ :: l => by
    by_cases hk : a = k
    · subst hk
      rw [kreplace_cons_eq]
      by_cases h : a' = a
      · subst h; simp [List.dlookup_cons_eq]
      · simp [h, List.dlookup_cons_ne _ ⟨a, _⟩ h]
    · rw [kreplace_cons_ne _ _ _ hk]
      by_cases h : a' = k
      · subst h; simp [List.dlookup_cons_eq, Ne.symm hk]
      · rw [List.dlookup_cons_ne _ ⟨k, _⟩ h, List.dlookup_cons_ne _ ⟨k, _⟩ h, dlookup_kreplace,
          List.dlookup_cons_ne _ ⟨k, _⟩ hk]

theorem kreplace_self {a : α} {b : β} :
    ∀ {l : List (Σ _ : α, β)}, l.dlookup a = some b → l.kreplace a b = l
  | [], h => by simp at h
  | ⟨k, v⟩ :: l, h => by
    by_cases hk : a = k
    · subst hk
      simp only [List.dlookup_cons_eq, Option.some.injEq] at h
      rw [kreplace_cons_eq, h]
    · rw [List.dlookup_cons_ne _ _ hk] at h
      rw [kreplace_cons_ne _ _ _ hk, kreplace_self h]

end Lists

theorem lookup_replace {m : CCashMap} {o o' : COutPoint} {e : CCashCacheEntry} :
    (m.replace o e).lookup o' = if o' = o then (m.lookup o).map fun _ => e else m.lookup o' :=
  dlookup_kreplace

@[simp] theorem lookup_replace_self {m : CCashMap} {o : COutPoint} {e e' : CCashCacheEntry}
    (h : m.lookup o = some e') : (m.replace o e).lookup o = some e := by
  simp [lookup_replace, h]

@[simp] theorem lookup_replace_ne {m : CCashMap} {o o' : COutPoint} {e : CCashCacheEntry}
    (h : o' ≠ o) : (m.replace o e).lookup o' = m.lookup o' := by
  simp [lookup_replace, h]

/-! ## How map updates change the usage sum -/

@[simp] theorem cashUsage_empty : cashUsage env ∅ = 0 := rfl

theorem cashUsage_insert (m : CCashMap) (o : COutPoint) (e : CCashCacheEntry) :
    cashUsage env (m.insert o e) = e.cash.DynamicMemoryUsage env + cashUsage env (m.erase o) :=
  List.sum_cons

theorem cashUsage_erase {m : CCashMap} {o : COutPoint} {e : CCashCacheEntry}
    (h : m.lookup o = some e) :
    cashUsage env m = e.cash.DynamicMemoryUsage env + cashUsage env (m.erase o) :=
  sum_map_kerase (fun c : CCashCacheEntry => c.cash.DynamicMemoryUsage env) h

theorem cashUsage_replace {m : CCashMap} {o : COutPoint} {e e' : CCashCacheEntry}
    (h : m.lookup o = some e) :
    cashUsage env (m.replace o e') + e.cash.DynamicMemoryUsage env =
      cashUsage env m + e'.cash.DynamicMemoryUsage env :=
  sum_map_kreplace (fun c : CCashCacheEntry => c.cash.DynamicMemoryUsage env) h

theorem erase_of_lookup_none {m : CCashMap} {o : COutPoint} (h : m.lookup o = none) :
    m.erase o = m :=
  AList.ext (List.kerase_of_not_mem_keys (AList.lookup_eq_none.mp h))

/-- Replacing an entry by itself changes nothing. -/
theorem replace_of_lookup {m : CCashMap} {o : COutPoint} {e : CCashCacheEntry}
    (h : m.lookup o = some e) : m.replace o e = m :=
  AList.ext (kreplace_self h)

/-- Replacing the entry just inserted is inserting the replacement. -/
theorem replace_insert_self (m : CCashMap) (o : COutPoint) (e0 e : CCashCacheEntry) :
    (m.insert o e0).replace o e = m.insert o e :=
  AList.ext (kreplace_cons_eq o e0 e _)

/-- Inserting an entry at a new key and erasing it again changes nothing. -/
theorem erase_insert_of_lookup_none {m : CCashMap} {o : COutPoint} {e : CCashCacheEntry}
    (h : m.lookup o = none) : (m.insert o e).erase o = m := by
  apply AList.ext
  show List.kerase o (m.insert o e).entries = m.entries
  rw [AList.insert_entries_of_neg (AList.lookup_eq_none.mp h)]
  exact List.kerase_cons_eq rfl

end SalemCash
