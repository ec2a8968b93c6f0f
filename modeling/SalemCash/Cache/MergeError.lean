import SalemCash.Cache.Layer

/-!
# When `BatchWrite` throws

`BatchWrite` has one error path: a child entry marked `DIRTY|FRESH` at an outpoint where the
layer holds an unspent record throws `std::logic_error`. Since a loop iteration changes the
layer only at its own outpoint, and the child map has distinct keys, whether the merge throws
is decided by the layer as it was before the merge:

* `freshMisapplied`: the condition under which one iteration throws;
* `BatchWriteEntry_toBool`, `BatchWriteEntry_lookup_ne`, `BatchWriteEntry_error`: one iteration
  throws exactly under it, with that message, and otherwise changes only its own outpoint;
* **`BatchWrite_throws`**: `BatchWrite` returns exactly when no entry of the child map is
  misapplied against the layer, and every error it raises is that `logic_error`.
-/

namespace SalemCash

open CCashViewCache

/-- The condition of the `throw` in the loop of `BatchWrite`: the child entry `e` at `o` is
`DIRTY` and `FRESH`, and the layer holds an unspent record at `o`. -/
def freshMisapplied (c : CCashViewCache) (o : COutPoint) (e : CCashCacheEntry) : Bool :=
  e.dirty && e.fresh &&
    match c.cacheCash.lookup o with
    | some us => !us.cash.IsSpent
    | none => false

theorem freshMisapplied_congr {c c' : CCashViewCache} {o : COutPoint} (e : CCashCacheEntry)
    (h : c'.cacheCash.lookup o = c.cacheCash.lookup o) :
    freshMisapplied c' o e = freshMisapplied c o e := by
  simp only [freshMisapplied, h]

variable (env : Env)

/-! ## One iteration -/

theorem BatchWriteEntry_toBool (c : CCashViewCache) (o : COutPoint) (e : CCashCacheEntry) :
    (c.BatchWriteEntry env o e).toBool = !freshMisapplied c o e := by
  unfold CCashViewCache.BatchWriteEntry freshMisapplied
  cases e.dirty
  · rfl
  cases c.cacheCash.lookup o with
  | none => simp only [Bool.not_true, Bool.false_eq_true, if_false]; split <;> simp [Except.toBool]
  | some us =>
    simp only [Bool.not_true, Bool.false_eq_true, if_false, Bool.true_and]
    split
    · next h => simp [Except.toBool, h]
    · next h =>
      simp only [Bool.not_eq_true] at h
      split <;> simp [Except.toBool, h]

theorem BatchWriteEntry_error {c : CCashViewCache} {o : COutPoint} {e : CCashCacheEntry}
    {err : Abort CCashViewCache} (h : c.BatchWriteEntry env o e = .error err) :
    err = .logicError
      "FRESH flag misapplied to cache entry for base transaction with spendable outputs" c := by
  unfold CCashViewCache.BatchWriteEntry at h
  split at h
  · cases h
  split at h
  · split at h <;> cases h
  · split at h
    · cases h; rfl
    · split at h <;> cases h

theorem BatchWriteEntry_lookup_ne {c c1 : CCashViewCache} {o o' : COutPoint}
    {e : CCashCacheEntry} (h : c.BatchWriteEntry env o e = .ok c1) (ho : o' ≠ o) :
    c1.cacheCash.lookup o' = c.cacheCash.lookup o' := by
  unfold CCashViewCache.BatchWriteEntry at h
  split at h
  · cases h; rfl
  split at h
  · split at h <;> cases h
    · rfl
    · exact AList.lookup_insert_ne ho
  · split at h
    · cases h
    · split at h <;> cases h
      · exact AList.lookup_erase_ne ho
      · exact lookup_replace_ne ho

/-! ## The loop -/

/-- The loop of `BatchWrite` over entries with distinct keys returns exactly when none of them is
misapplied against the layer it starts from. -/
theorem batchWriteLoop_toBool :
    ∀ {l : List (Σ _ : COutPoint, CCashCacheEntry)} {c : CCashViewCache}, l.NodupKeys →
      (batchWriteLoop env c l).toBool = !l.any fun x => freshMisapplied c x.1 x.2
  | [], _, _ => rfl
  | ⟨o, e⟩ :: rest, c, hnd => by
    rw [List.nodupKeys_cons] at hnd
    have he := BatchWriteEntry_toBool env c o e
    simp only [batchWriteLoop, List.any_cons]
    cases h1 : c.BatchWriteEntry env o e with
    | error err =>
      rw [h1] at he
      simp only [Except.toBool, Bool.false_eq, Bool.not_eq_false'] at he
      simp [Except.bind, Except.toBool, he]
    | ok c1 =>
      rw [h1] at he
      simp only [Except.toBool, Bool.true_eq, Bool.not_eq_true'] at he
      have hrest : (rest.any fun x => freshMisapplied c1 x.1 x.2) =
          rest.any fun x => freshMisapplied c x.1 x.2 := by
        rw [List.any_eq, List.any_eq, decide_eq_decide]
        refine exists_congr fun x => and_congr_right fun hx => ?_
        have hk : x.1 ∈ rest.keys := List.mem_keys_of_mem hx
        have hne : x.1 ≠ o := fun h' => hnd.1 (h' ▸ hk)
        rw [freshMisapplied_congr x.2 (BatchWriteEntry_lookup_ne env h1 hne)]
      rw [he, Bool.false_or, ← hrest]
      exact batchWriteLoop_toBool hnd.2

theorem batchWriteLoop_error :
    ∀ {l : List (Σ _ : COutPoint, CCashCacheEntry)} {c : CCashViewCache}
      {err : Abort CCashViewCache}, batchWriteLoop env c l = .error err →
      ∃ c', err = .logicError
        "FRESH flag misapplied to cache entry for base transaction with spendable outputs" c'
  | [], _, _, h => by cases h
  | ⟨o, e⟩ :: rest, c, err, h => by
    cases h1 : c.BatchWriteEntry env o e with
    | error err' =>
      simp only [batchWriteLoop, h1, Except.bind, Except.error.injEq] at h
      exact ⟨c, h ▸ BatchWriteEntry_error env h1⟩
    | ok c1 =>
      simp only [batchWriteLoop, h1, Except.bind] at h
      exact batchWriteLoop_error h

/-- **When `BatchWrite` throws.** For every layer, child map and hash, `BatchWrite` returns
exactly when no `DIRTY|FRESH` entry of the child map sits where the layer holds an unspent
record, and every error it raises is the `logic_error` "FRESH flag misapplied to cache entry for
base transaction with spendable outputs". -/
theorem BatchWrite_throws (c : CCashViewCache) (m : CCashMap) (hashBlockIn : Uint256) :
    (c.BatchWrite env m hashBlockIn).toBool =
        !m.entries.any (fun x => freshMisapplied c x.1 x.2) ∧
      ∀ err, c.BatchWrite env m hashBlockIn = .error err →
        ∃ c', err = .logicError
          "FRESH flag misapplied to cache entry for base transaction with spendable outputs" c' := by
  unfold CCashViewCache.BatchWrite
  rw [← batchWriteLoop_toBool env m.nodupKeys]
  refine ⟨by cases batchWriteLoop env c m.entries <;> rfl, fun err h => ?_⟩
  cases hl : batchWriteLoop env c m.entries with
  | error err' =>
    rw [hl] at h
    cases h
    exact batchWriteLoop_error env hl
  | ok c' => rw [hl] at h; cases h

end SalemCash
