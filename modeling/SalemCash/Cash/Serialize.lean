import SalemCash.Cash.Record

/-!
# Serialization of a record

`Cash::Serialize` writes a record as its header code `nHeight * 2 + fCashBase` in VARINT form,
followed by its output in `CTxOutCompressor` form; `Cash::Unserialize` reads the code back and
splits it with `code >> 1` and `code & 1`. Neither stream format is part of the sources: each is
a `Codec`, a writer and a reader that reads back what the writer wrote. As `Serialize` is a
template over the stream, a stream is a list of tokens of any type (bytes being one).

The header code is computed in `int`. The bit-fields `nHeight : 31` and `fCashBase : 1` promote
to `int`, which holds every value of either, so `nHeight * 2` is an `int` multiplication, and it
overflows, which is undefined behaviour, once `nHeight` reaches `2^30`.

* `intOp`, `Cash.headerCode`: the header code as the C++ evaluates it, `none` on signed
  overflow; `headerCode_of_lt`, `headerCode_of_le`: it is `2 * nHeight + fCashBase` below
  height `2^30`, and overflows from there;
* `Cash.ofCode`: the record `Unserialize` builds from a code; `ofCode_headerCode` and
  `headerCode_ofCode`: below the boundary, building from a code and computing the code are
  inverse;
* `Cash.Serialize`, `Cash.Unserialize`, and their step lemmas `Serialize_of_lt`,
  `Serialize_of_le`, `Unserialize_eq_some`;
* **`Unserialize_Serialize`**: below height `2^30` every unspent record is written, and read
  back from what is written followed by any stream;
* **`Serialize_Unserialize`**: a record read with a code below `2^31` is written again with that
  code;
* **`Serialize_height_overflow`**: at height `2^30` the header code overflows, and the code
  `2^31` is read as a record that is not written again.
-/

namespace SalemCash

/-! ## Stream formats -/

/-- A format for values of `α` on a stream of `τ`, as `::Serialize` and `::Unserialize` use it:
`write` gives the tokens of a value, and `read` takes a value off the front of a stream and
returns the rest, or fails (`std::ios_base::failure`). A format reads back what it writes,
whatever follows it. -/
structure Codec (τ α : Type) where
  write : α → List τ
  read : List τ → Option (α × List τ)
  read_write : ∀ a rest, read (write a ++ rest) = some (a, rest)

/-- Formats exist for every pair of value types: on a stream whose tokens each hold a value of
one of them, a value is written as one token. -/
def Codec.inl {α β : Type} : Codec (α ⊕ β) α where
  write a := [.inl a]
  read
    | .inl a :: rest => some (a, rest)
    | _ => none
  read_write _ _ := rfl

/-- The second half of `Codec.inl`. -/
def Codec.inr {α β : Type} : Codec (α ⊕ β) β where
  write b := [.inr b]
  read
    | .inr b :: rest => some (b, rest)
    | _ => none
  read_write _ _ := rfl

/-! ## The header code in `int` -/

/-- `INT_MIN` of a 32-bit `int`. -/
def INT_MIN : Int := -2 ^ 31

/-- `INT_MAX` of a 32-bit `int`. -/
def INT_MAX : Int := 2 ^ 31 - 1

/-- The value of an `int` operation whose exact result is `r`: `r` when an `int` holds it, and
`none` on signed overflow, which is undefined behaviour. -/
def intOp (r : Int) : Option Int :=
  if INT_MIN ≤ r ∧ r ≤ INT_MAX then some r else none

/-- The conversion of an `int` to `uint32_t`: its value modulo `2^32`. -/
def uint32OfInt (r : Int) : UInt32 :=
  (r % 2 ^ 32).toNat.toUInt32

/-- `nHeight * 2 + fCashBase`, the header code `Serialize` writes: both bit-fields promote to
`int`, the product and the sum are `int` operations, and the sum converts to `uint32_t code`. -/
def Cash.headerCode (c : Cash) : Option UInt32 := do
  let product ← intOp (c.nHeight.toNat * 2)
  let sum ← intOp (product + c.fCashBase.toNat)
  pure (uint32OfInt sum)

theorem intOp_of_le {r : Int} (h0 : INT_MIN ≤ r) (h1 : r ≤ INT_MAX) : intOp r = some r :=
  if_pos ⟨h0, h1⟩

theorem intOp_of_gt {r : Int} (h : INT_MAX < r) : intOp r = none :=
  if_neg fun hr => absurd hr.2 (Int.not_le.mpr h)

/-- Below height `2^30` the header code is computed without overflow, and is
`2 * nHeight + fCashBase`. -/
theorem headerCode_of_lt {c : Cash} (h : c.nHeight.toNat < 2 ^ 30) :
    c.headerCode = some (2 * c.nHeight.toNat + c.fCashBase.toNat).toUInt32 := by
  have hb := Bool.toNat_le c.fCashBase
  simp only [Cash.headerCode, intOp_of_le (r := c.nHeight.toNat * 2)
    (by simp only [INT_MIN]; omega) (by simp only [INT_MAX]; omega), Option.bind_eq_bind,
    Option.some_bind, intOp_of_le (r := c.nHeight.toNat * 2 + c.fCashBase.toNat)
    (by simp only [INT_MIN]; omega) (by simp only [INT_MAX]; omega)]
  exact congrArg (some ∘ Nat.toUInt32) (by omega)

/-- From height `2^30` on, `nHeight * 2` overflows `int`. -/
theorem headerCode_of_le {c : Cash} (h : 2 ^ 30 ≤ c.nHeight.toNat) : c.headerCode = none := by
  simp only [Cash.headerCode, intOp_of_gt (r := c.nHeight.toNat * 2)
    (by simp only [INT_MAX]; omega), Option.bind_eq_bind, Option.none_bind]

/-! ## The record read from a code -/

/-- The record `Unserialize` builds from the code `code` and the output `out`: the bit-fields
take `nHeight = code >> 1` and `fCashBase = code & 1`. -/
def Cash.ofCode (out : CTxOut) (code : UInt32) : Cash :=
  ⟨out, code &&& 1 == 1, BitVec.ofNat 31 (code >>> 1).toNat⟩

theorem ofCode_nHeight (out : CTxOut) (code : UInt32) :
    (Cash.ofCode out code).nHeight.toNat = code.toNat / 2 := by
  have hs : (code >>> 1).toNat = code.toNat / 2 := by
    show (code.toBitVec >>> (UInt32.mod 1 32).toBitVec).toNat = _
    rw [BitVec.ushiftRight_eq', BitVec.toNat_ushiftRight]
    rfl
  have hc := code.toNat_lt_size
  simp only [Cash.ofCode, BitVec.toNat_ofNat, hs]
  exact Nat.mod_eq_of_lt (by simp only [UInt32.size] at hc; omega)

theorem ofCode_fCashBase (out : CTxOut) (code : UInt32) :
    (Cash.ofCode out code).fCashBase = decide (code.toNat % 2 = 1) := by
  have h : (code &&& 1).toNat = code.toNat % 2 := by
    rw [UInt32.and_toNat]; exact Nat.and_one_is_mod _
  simp only [Cash.ofCode, beq_eq_decide]
  exact decide_eq_decide.mpr
    ⟨fun e => by rw [← h, e]; rfl, fun e => UInt32.toNat.inj (by rw [h, e]; rfl)⟩

/-- Below height `2^30`, the record built from a record's header code and output is the record. -/
theorem ofCode_headerCode {c : Cash} (h : c.nHeight.toNat < 2 ^ 30) :
    Cash.ofCode c.out (2 * c.nHeight.toNat + c.fCashBase.toNat).toUInt32 = c := by
  have hb := Bool.toNat_le c.fCashBase
  have hv : (2 * c.nHeight.toNat + c.fCashBase.toNat).toUInt32.toNat =
      2 * c.nHeight.toNat + c.fCashBase.toNat :=
    UInt32.toNat_ofNat_of_lt (by simp only [UInt32.size]; omega)
  have hn := ofCode_nHeight c.out (2 * c.nHeight.toNat + c.fCashBase.toNat).toUInt32
  have hf := ofCode_fCashBase c.out (2 * c.nHeight.toNat + c.fCashBase.toNat).toUInt32
  rw [hv] at hn hf
  show Cash.mk c.out _ _ = Cash.mk c.out c.fCashBase c.nHeight
  congr 1
  · refine hf.trans ?_
    rw [show (2 * c.nHeight.toNat + c.fCashBase.toNat) % 2 = c.fCashBase.toNat by omega]
    cases c.fCashBase <;> rfl
  · exact BitVec.eq_of_toNat_eq (hn.trans (by omega))

/-- Every code below `2^31` is the header code of the record built from it. -/
theorem headerCode_ofCode (out : CTxOut) {code : UInt32} (h : code.toNat < 2 ^ 31) :
    (Cash.ofCode out code).headerCode = some code := by
  have hb : (Cash.ofCode out code).fCashBase.toNat = code.toNat % 2 := by
    rw [ofCode_fCashBase]; by_cases h2 : code.toNat % 2 = 1 <;> simp [h2]; omega
  rw [headerCode_of_lt (by rw [ofCode_nHeight]; omega), ofCode_nHeight, hb]
  exact congrArg some (UInt32.toNat.inj (by
    rw [UInt32.toNat_ofNat_of_lt (by simp only [UInt32.size]; omega)]; omega))

/-! ## `Serialize` and `Unserialize` -/

/-- How `Serialize` stops without writing: the failed `assert(!IsSpent())`, or signed overflow
in the header code. -/
inductive SerializeFault
  | assertion (expr : String)
  | signedOverflow
deriving DecidableEq, Repr

variable {τ : Type} (varint : Codec τ UInt32) (compressor : Codec τ CTxOut)

/-- `Cash::Serialize`: asserts that the record is unspent, then writes the header code in the
VARINT format and the output in the `CTxOutCompressor` format. -/
def Cash.Serialize (c : Cash) : Except SerializeFault (List τ) :=
  if c.IsSpent then .error (.assertion "!IsSpent()")
  else match c.headerCode with
    | none => .error .signedOverflow
    | some code => .ok (varint.write code ++ compressor.write c.out)

/-- `Cash::Unserialize`: reads the header code, sets `nHeight` and `fCashBase` from it, and
reads the output; `none` when the stream fails. -/
def Cash.Unserialize (s : List τ) : Option (Cash × List τ) := do
  let (code, s) ← varint.read s
  let (out, s) ← compressor.read s
  pure (Cash.ofCode out code, s)

theorem Serialize_of_lt {c : Cash} (hs : c.IsSpent = false) (h : c.nHeight.toNat < 2 ^ 30) :
    c.Serialize varint compressor =
      .ok (varint.write (2 * c.nHeight.toNat + c.fCashBase.toNat).toUInt32 ++
        compressor.write c.out) := by
  simp only [Cash.Serialize, hs, headerCode_of_lt h, Bool.false_eq_true, if_false]

theorem Serialize_of_le {c : Cash} (hs : c.IsSpent = false) (h : 2 ^ 30 ≤ c.nHeight.toNat) :
    c.Serialize varint compressor = .error .signedOverflow := by
  simp only [Cash.Serialize, hs, headerCode_of_le h, Bool.false_eq_true, if_false]

/-- What `Unserialize` reads: a code, then an output, and the record built from them. -/
theorem Unserialize_eq_some {s rest : List τ} {r : Cash} :
    Cash.Unserialize varint compressor s = some (r, rest) ↔
      ∃ code s1, varint.read s = some (code, s1) ∧
        ∃ out, compressor.read s1 = some (out, rest) ∧ Cash.ofCode out code = r := by
  simp only [Cash.Unserialize, Option.bind_eq_bind, Option.bind_eq_some, Prod.exists,
    Option.pure_def, Option.some.injEq, Prod.mk.injEq, exists_eq_right_right]

theorem Unserialize_write (code : UInt32) (out : CTxOut) (rest : List τ) :
    Cash.Unserialize varint compressor (varint.write code ++ compressor.write out ++ rest) =
      some (Cash.ofCode out code, rest) :=
  (Unserialize_eq_some varint compressor).mpr
    ⟨code, _, by rw [List.append_assoc, varint.read_write], out, compressor.read_write out rest,
      rfl⟩

/-- **The round trip.** For every stream format of the code and the output that reads back what
it writes, every unspent record below height `2^30` is written, and `Unserialize` reads it back,
with the same output, base-reward bit and height, from what `Serialize` wrote followed by any
stream. -/
theorem Unserialize_Serialize {c : Cash} (hs : c.IsSpent = false)
    (h : c.nHeight.toNat < 2 ^ 30) (rest : List τ) :
    ∃ written, c.Serialize varint compressor = .ok written ∧
      Cash.Unserialize varint compressor (written ++ rest) = some (c, rest) :=
  ⟨_, Serialize_of_lt varint compressor hs h, by
    rw [Unserialize_write, ofCode_headerCode h]⟩

theorem Unserialize_Serialize_at_height_5 :
    (⟨⟨7, [1, 2]⟩, true, 5⟩ : Cash).IsSpent = false ∧
      (⟨⟨7, [1, 2]⟩, true, 5⟩ : Cash).nHeight.toNat < 2 ^ 30 ∧
      ∃ written, Cash.Serialize Codec.inl Codec.inr (⟨⟨7, [1, 2]⟩, true, 5⟩ : Cash) =
          .ok written ∧
        Cash.Unserialize Codec.inl Codec.inr (written ++ []) = some (⟨⟨7, [1, 2]⟩, true, 5⟩, []) :=
  ⟨rfl, by decide, Unserialize_Serialize Codec.inl Codec.inr (c := ⟨⟨7, [1, 2]⟩, true, 5⟩) rfl (by decide) []⟩

/-- **A code below `2^31` is written again.** If `Unserialize` reads an unspent record `r` from
a stream that begins with a code below `2^31`, `Serialize` writes `r` with that same code in
front of its output. -/
theorem Serialize_Unserialize {s s1 rest : List τ} {code : UInt32} {r : Cash}
    (hcode : varint.read s = some (code, s1))
    (h : Cash.Unserialize varint compressor s = some (r, rest))
    (hlt : code.toNat < 2 ^ 31) (hs : r.IsSpent = false) :
    r.Serialize varint compressor = .ok (varint.write code ++ compressor.write r.out) := by
  obtain ⟨code', s1', h1, out, -, rfl⟩ := (Unserialize_eq_some varint compressor).mp h
  obtain rfl : code' = code := by rw [hcode] at h1; cases h1; rfl
  simp only [Cash.Serialize, hs, headerCode_ofCode out hlt, Bool.false_eq_true, if_false]

theorem Serialize_Unserialize_code_11 :
    Codec.inl.read ([.inl 11, .inr ⟨7, [1, 2]⟩] : List (UInt32 ⊕ CTxOut)) =
        some (11, [.inr ⟨7, [1, 2]⟩]) ∧
      Cash.Unserialize Codec.inl Codec.inr ([.inl 11, .inr ⟨7, [1, 2]⟩] : List (UInt32 ⊕ CTxOut)) =
        some (Cash.ofCode ⟨7, [1, 2]⟩ 11, []) ∧
      (11 : UInt32).toNat < 2 ^ 31 ∧ (Cash.ofCode ⟨7, [1, 2]⟩ 11).IsSpent = false ∧
      (Cash.ofCode ⟨7, [1, 2]⟩ 11).Serialize Codec.inl Codec.inr =
        .ok (Codec.inl.write 11 ++ Codec.inr.write (Cash.ofCode ⟨7, [1, 2]⟩ 11).out) :=
  ⟨rfl, rfl, by decide, rfl, Serialize_Unserialize Codec.inl Codec.inr (s := [.inl 11, .inr ⟨7, [1, 2]⟩])
    (r := Cash.ofCode ⟨7, [1, 2]⟩ 11) rfl rfl (by decide) rfl⟩

/-- **The header code overflows at height `2^30`.** For the unspent record with an output of
value `0` at height `2^30`, `nHeight * 2` is `2^31`, one past `INT_MAX`, and `Serialize` reaches
signed overflow; the code `2^31`, which `Unserialize` reads as that record, is thus not written
again. -/
theorem Serialize_height_overflow (rest : List τ) :
    (⟨⟨0, []⟩, false, BitVec.ofNat 31 (2 ^ 30)⟩ : Cash).IsSpent = false ∧
      INT_MAX < (2 ^ 30 : Int) * 2 ∧
      Cash.Serialize varint compressor ⟨⟨0, []⟩, false, BitVec.ofNat 31 (2 ^ 30)⟩ =
        .error .signedOverflow ∧
      Cash.Unserialize varint compressor
          (varint.write (2 ^ 31 : Nat).toUInt32 ++ compressor.write ⟨0, []⟩ ++ rest) =
        some (⟨⟨0, []⟩, false, BitVec.ofNat 31 (2 ^ 30)⟩, rest) :=
  ⟨rfl, by decide, Serialize_of_le varint compressor rfl (by decide),
    Unserialize_write varint compressor _ _ rest⟩

end SalemCash
