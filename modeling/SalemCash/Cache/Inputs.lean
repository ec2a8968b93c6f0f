import SalemCash.Cache.Spend

/-!
# The inputs of a transaction

`GetValueIn` sums the values of the records a transaction spends, and `HaveInputs` asks whether
they are all there; both read them one input at a time through the top layer of a stack, with an
`unsigned int` index that wraps after `2^32` inputs. Over a lawful base, with the invariant on
every layer, both are functions of the top view, and neither changes what any layer shows:

* `valueIn`: the value `GetValueIn` counts for an outpoint, read off a view; `SumsFit`: every
  running sum of a list lies in the range of `CAmount`;
* **`GetValueIn_spec`**: `GetValueIn` is `0` for a base-reward transaction; for any other with
  fewer than `2^32` inputs it is the sum of `valueIn` over the inputs when every running sum fits
  in `CAmount`, and the C++ overflows otherwise; with more inputs it never returns;
* `haveInputsFrom_repeat`: a pass of `HaveInputs` that finds every input leaves them all in the
  top cache, and the next pass finds them there and changes nothing, so the wrapped loop never
  exits;
* **`HaveInputs_spec`**: `HaveInputs` holds of a base-reward transaction; of any other it says
  whether the view shows a record at each of the first `2^32` inputs, and with more inputs than
  that, all of them shown, it never returns.
-/

namespace SalemCash

open CCashViewCache

variable {σ : Type} (env : Env) {B : BaseView σ}

/-- The value `GetValueIn` counts for `o`: the `nValue` of the record the view shows, and that of
the null output, `-1`, where it shows none. -/
def valueIn (v : COutPoint → Option Cash) (o : COutPoint) : Int :=
  ((v o).getD cashEmpty).out.nValue

/-- A record's `nValue` is read off what it shows: a spent record's output is the null one. -/
theorem nValue_of_ifUnspent {r : Cash} {x : Option Cash} (h : r.ifUnspent = x) :
    r.out.nValue = (x.getD cashEmpty).out.nValue := by
  cases hs : r.IsSpent
  · rw [Cash.ifUnspent_of_not_IsSpent hs] at h
    subst h
    rfl
  · rw [Cash.ifUnspent_of_IsSpent hs] at h
    subst h
    simpa [Cash.IsSpent, CTxOut.IsNull, cashEmpty] using hs

/-- Every running sum of `vs` from `a`, `a` itself included, lies in the range of `CAmount`. -/
def SumsFit (a : Int) (vs : List Int) : Prop :=
  ∀ k ≤ vs.length, INT64_MIN ≤ a + (vs.take k).sum ∧ a + (vs.take k).sum ≤ INT64_MAX

instance (a : Int) (vs : List Int) : Decidable (SumsFit a vs) :=
  inferInstanceAs (Decidable (∀ k ≤ vs.length, _))

theorem SumsFit_cons {a v : Int} {vs : List Int} :
    SumsFit a (v :: vs) ↔ (INT64_MIN ≤ a ∧ a ≤ INT64_MAX) ∧ SumsFit (a + v) vs := by
  constructor
  · intro h
    refine ⟨by simpa using h 0 (Nat.zero_le _), fun k hk => ?_⟩
    simpa [add_assoc] using h (k + 1) (by simpa using hk)
  · rintro ⟨h0, h⟩ (_ | k) hk
    · simpa using h0
    · simpa [add_assoc] using h k (by simpa using hk)

/-! ## `GetValueIn` -/

section
variable (hB : B.Lawful)
include hB

/-- The loop of `GetValueIn` from a running sum `a` in range: the sum of `valueIn` over the
inputs when every running sum fits, and `none` at an overflow; the stack keeps what it shows. -/
theorem valueInFrom_spec :
    ∀ (ins : List CTxIn) (a : Int) {c : CCashViewCache} {cs : List CCashViewCache} {s : σ},
      INT64_MIN ≤ a ∧ a ≤ INT64_MAX → StackInv (c :: cs) (B.view s) →
      (Stack.valueInFrom env B ins a (c :: cs) s).map (·.1) =
          (if SumsFit a (ins.map fun i => valueIn (topView (c :: cs) (B.view s)) i.prevout)
            then some (a + (ins.map fun i => valueIn (topView (c :: cs) (B.view s)) i.prevout).sum)
            else none) ∧
        ∀ r, Stack.valueInFrom env B ins a (c :: cs) s = some r → Keeps B (c :: cs, s) r.2
  | [], a, _, _, _, ha, h => by
    have hfit : SumsFit a [] := fun k _ => by simpa using ha
    exact ⟨by simp [Stack.valueInFrom, hfit], fun r hr => by cases hr; exact Keeps.refl h⟩
  | i :: ins, a, c, cs, s, ha, h => by
    obtain ⟨hfst, hk⟩ := AccessCash_spec env hB h i.prevout
    obtain ⟨c', cs', s', hst⟩ : ∃ c' cs' s',
        (Stack.AccessCash env B (c :: cs) s i.prevout).2 = (c' :: cs', s') := ⟨_, _, _, rfl⟩
    rw [hst] at hk
    have hv : (Stack.AccessCash env B (c :: cs) s i.prevout).1.out.nValue =
        valueIn (topView (c :: cs) (B.view s)) i.prevout := nValue_of_ifUnspent hfst
    have htop := topView_eq_of_views_eq hk.views_eq
    simp only [Stack.valueInFrom, hv, hst, List.map_cons, SumsFit_cons, ha, true_and]
    by_cases hr : INT64_MIN ≤ a + valueIn (topView (c :: cs) (B.view s)) i.prevout ∧
        a + valueIn (topView (c :: cs) (B.view s)) i.prevout ≤ INT64_MAX
    · obtain ⟨ih, hk'⟩ := valueInFrom_spec ins _ hr hk.inv
      rw [htop] at ih
      simp only [int64Op, if_pos hr, Option.some_bind]
      refine ⟨by rw [ih, List.sum_cons, add_assoc], fun r hr' => hk.trans (hk' r hr')⟩
    · have hfit : ¬ SumsFit (a + valueIn (topView (c :: cs) (B.view s)) i.prevout)
          (ins.map fun i => valueIn (topView (c :: cs) (B.view s)) i.prevout) :=
        fun hf => hr (by simpa using hf 0 (Nat.zero_le _))
      simp only [int64Op, if_neg hr, Option.none_bind, if_neg hfit]
      exact ⟨rfl, fun r hr' => by cases hr'⟩

/-- **`GetValueIn` sums the view.** On a stack with the invariant over a lawful base,
`GetValueIn` is `0` for a base-reward transaction. For any other with fewer than `2^32` inputs
it is the sum over the inputs of the `nValue` the top view shows at each input's outpoint, `-1`
where it shows none, when every running sum fits in `CAmount`, and otherwise the C++ overflows;
with `2^32` inputs or more it never returns. When it returns, the stack keeps what it shows. -/
theorem GetValueIn_spec {c : CCashViewCache} {cs : List CCashViewCache} {s : σ}
    (h : StackInv (c :: cs) (B.view s)) (tx : CTransaction) :
    (Stack.GetValueIn env B (c :: cs) s tx).map (·.1) =
        (if tx.IsCashBase then some 0
          else if 2 ^ 32 ≤ tx.vin.length then none
          else if SumsFit 0 (tx.vin.map fun i => valueIn (topView (c :: cs) (B.view s)) i.prevout)
          then some (tx.vin.map fun i => valueIn (topView (c :: cs) (B.view s)) i.prevout).sum
          else none) ∧
      ∀ r, Stack.GetValueIn env B (c :: cs) s tx = some r → Keeps B (c :: cs, s) r.2 := by
  unfold Stack.GetValueIn
  cases tx.IsCashBase
  · by_cases hl : 2 ^ 32 ≤ tx.vin.length
    · simp only [hl, if_true, Bool.false_eq_true, if_false]
      exact ⟨rfl, fun r hr => by cases hr⟩
    · simp only [hl, if_false, Bool.false_eq_true]
      simpa using valueInFrom_spec env hB tx.vin 0 (by decide) h
  · exact ⟨rfl, fun r hr => by cases hr; exact Keeps.refl h⟩

end

theorem GetValueIn_spec_demo :
    let tx : CTransaction := ⟨1, [⟨⟨0, 0⟩⟩, ⟨⟨0, 1⟩⟩], [], false⟩
    testBase.Lawful ∧ StackInv [demoTop, demoMid] (testBase.view demoBase) ∧
      (Stack.GetValueIn demoEnv testBase [demoTop, demoMid] demoBase tx).map (·.1) = some 6 ∧
      (Stack.GetValueIn demoEnv testBase [demoTop, demoMid] demoBase tx).map (·.1) =
        (if tx.IsCashBase then some 0
          else if 2 ^ 32 ≤ tx.vin.length then none
          else if SumsFit 0
            (tx.vin.map fun i => valueIn (topView [demoTop, demoMid] (testBase.view demoBase)) i.prevout)
          then some (tx.vin.map fun i =>
            valueIn (topView [demoTop, demoMid] (testBase.view demoBase)) i.prevout).sum
          else none) ∧
      ∀ r, Stack.GetValueIn demoEnv testBase [demoTop, demoMid] demoBase tx = some r →
        Keeps testBase ([demoTop, demoMid], demoBase) r.2 := by
  intro tx
  exact ⟨testBase_lawful, demoOps_inv, rfl, GetValueIn_spec demoEnv testBase_lawful demoOps_inv tx⟩

/-! ## `HaveInputs` -/

/-- What the top layer holds decides `HaveCashInCache`: an unspent record. -/
theorem HaveCashInCache_eq (c : CCashViewCache) (o : COutPoint) :
    c.HaveCashInCache o = ((c.cacheCash.lookup o).bind (·.cash.ifUnspent)).isSome := by
  unfold CCashViewCache.HaveCashInCache
  cases c.cacheCash.lookup o with
  | none => rfl
  | some e => cases hs : e.cash.IsSpent <;> simp [hs]

/-- A record the top layer holds unspent answers `HaveCash`, and the stack is left as it is. -/
theorem HaveCash_of_HaveCashInCache {c : CCashViewCache} {cs : List CCashViewCache} {s : σ}
    {o : COutPoint} (h : c.HaveCashInCache o = true) :
    Stack.HaveCash env B (c :: cs) s o = (true, c :: cs, s) := by
  rw [HaveCashInCache_eq] at h
  cases hl : c.cacheCash.lookup o with
  | none => simp [hl] at h
  | some e =>
    rw [hl] at h
    simp only [Stack.HaveCash, Stack.GetCash, CCashViewCache.GetCash,
      FetchCash_of_lookup_some env hl, Option.some_bind]
    exact Prod.ext h rfl

/-- `HaveCash` on the top layer keeps every unspent record the layer holds, and a record it
finds is held there afterwards. -/
theorem HaveCash_caches (c : CCashViewCache) (cs : List CCashViewCache) (s : σ) (o : COutPoint) :
    ∃ c1 cs1 s1, (Stack.HaveCash env B (c :: cs) s o).2 = (c1 :: cs1, s1) ∧
      ((Stack.HaveCash env B (c :: cs) s o).1 = true → c1.HaveCashInCache o = true) ∧
      ∀ o', c.HaveCashInCache o' = true → c1.HaveCashInCache o' = true := by
  refine ⟨_, _, _, rfl, fun h => ?_, fun o' ho => ?_⟩
  · simpa only [Stack.HaveCash, Stack.GetCash, CCashViewCache.GetCash, HaveCashInCache_eq,
      FetchCash_fst] using h
  · rw [HaveCashInCache_eq] at ho ⊢
    cases hl : c.cacheCash.lookup o' with
    | none => simp [hl] at ho
    | some e =>
      simp only [Stack.HaveCash, Stack.GetCash, CCashViewCache.GetCash,
        (Grows.FetchCash env (Stack.GetCash env B cs s) (cs, s) c o).keeps o' e hl]
      rwa [hl] at ho

/-- A pass of `HaveInputs` keeps every unspent record the top layer holds and, when it finds
every input, leaves each of them held there. -/
theorem haveInputsFrom_caches :
    ∀ (ins : List CTxIn) (c : CCashViewCache) (cs : List CCashViewCache) (s : σ),
      ∃ c' cs' s', (Stack.haveInputsFrom env B ins (c :: cs) s).2 = (c' :: cs', s') ∧
        ((Stack.haveInputsFrom env B ins (c :: cs) s).1 = true →
          ∀ i ∈ ins, c'.HaveCashInCache i.prevout = true) ∧
        ∀ o', c.HaveCashInCache o' = true → c'.HaveCashInCache o' = true
  | [], c, cs, s => ⟨c, cs, s, rfl, (fun _ _ h => nomatch h), fun _ h => h⟩
  | i :: ins, c, cs, s => by
    obtain ⟨c1, cs1, s1, h1, hin1, hkeep1⟩ := HaveCash_caches env (B := B) c cs s i.prevout
    simp only [Stack.haveInputsFrom]
    cases hb : (Stack.HaveCash env B (c :: cs) s i.prevout).1
    · exact ⟨c1, cs1, s1, by simp [h1], fun h => by simp at h, hkeep1⟩
    · obtain ⟨c', cs', s', h2, hin2, hkeep2⟩ := haveInputsFrom_caches ins c1 cs1 s1
      refine ⟨c', cs', s', by simpa [h1] using h2, fun ht j hj => ?_,
        fun o' ho => hkeep2 o' (hkeep1 o' ho)⟩
      rcases List.mem_cons.mp hj with rfl | hj
      · exact hkeep2 _ (hin1 hb)
      · exact hin2 (by simpa [h1] using ht) j hj

theorem haveInputsFrom_cached {c : CCashViewCache} {cs : List CCashViewCache} {s : σ} :
    ∀ ins : List CTxIn, (∀ i ∈ ins, c.HaveCashInCache i.prevout = true) →
      Stack.haveInputsFrom env B ins (c :: cs) s = (true, c :: cs, s)
  | [], _ => rfl
  | i :: ins, h => by
    simp only [Stack.haveInputsFrom, HaveCash_of_HaveCashInCache env (h i (List.mem_cons_self _ _)),
      if_true]
    exact haveInputsFrom_cached ins fun j hj => h j (List.mem_cons_of_mem _ hj)

/-- **A full pass repeats.** Over any base, a pass of `HaveInputs` that finds every input leaves
each of them unspent in the top cache, so the next pass, from the stack it leaves, finds them all
again and leaves that stack as it is. With `2^32` inputs or more the wrapped `unsigned int` index
starts such passes over without end. -/
theorem haveInputsFrom_repeat (ins : List CTxIn) (c : CCashViewCache) (cs : List CCashViewCache)
    (s : σ) (h : (Stack.haveInputsFrom env B ins (c :: cs) s).1 = true) :
    Stack.haveInputsFrom env B ins (Stack.haveInputsFrom env B ins (c :: cs) s).2.1
        (Stack.haveInputsFrom env B ins (c :: cs) s).2.2 =
      (true, (Stack.haveInputsFrom env B ins (c :: cs) s).2) := by
  obtain ⟨c', cs', s', h2, hin, -⟩ := haveInputsFrom_caches env ins c cs s
  rw [h2]
  exact haveInputsFrom_cached env ins (hin h)

section
variable (hB : B.Lawful)
include hB

theorem HaveCash_top {c : CCashViewCache} {cs : List CCashViewCache} {s : σ}
    (h : StackInv (c :: cs) (B.view s)) (o : COutPoint) :
    (Stack.HaveCash env B (c :: cs) s o).1 = (topView (c :: cs) (B.view s) o).isSome :=
  congrArg Option.isSome (GetCash_top env hB h o)

/-- A pass of `HaveInputs`: whether the view shows a record at every input; the stack keeps
what it shows, also when the pass stops early. -/
theorem haveInputsFrom_spec :
    ∀ (ins : List CTxIn) {c : CCashViewCache} {cs : List CCashViewCache} {s : σ},
      StackInv (c :: cs) (B.view s) →
      (Stack.haveInputsFrom env B ins (c :: cs) s).1 =
          ins.all (fun i => (topView (c :: cs) (B.view s) i.prevout).isSome) ∧
        Keeps B (c :: cs, s) (Stack.haveInputsFrom env B ins (c :: cs) s).2
  | [], _, _, _, h => ⟨rfl, Keeps.refl h⟩
  | i :: ins, c, cs, s, h => by
    have hk := HaveCash_keeps env hB h i.prevout
    obtain ⟨c', cs', s', hst⟩ : ∃ c' cs' s',
        (Stack.HaveCash env B (c :: cs) s i.prevout).2 = (c' :: cs', s') := ⟨_, _, _, rfl⟩
    rw [hst] at hk
    simp only [Stack.haveInputsFrom, List.all_cons, hst]
    rw [← HaveCash_top env hB h i.prevout]
    cases (Stack.HaveCash env B (c :: cs) s i.prevout).1
    · exact ⟨rfl, hk⟩
    · obtain ⟨ih, hk'⟩ := haveInputsFrom_spec ins hk.inv
      rw [topView_eq_of_views_eq hk.views_eq] at ih
      exact ⟨ih, hk.trans hk'⟩

/-- **`HaveInputs` asks the view.** On a stack with the invariant over a lawful base,
`HaveInputs` holds of a base-reward transaction. Of any other it is false when the top view
misses a record at one of the first `2^32` inputs; when the view shows all of those, it is true
with fewer than `2^32` inputs and never returns with more. When it returns, the stack keeps what
it shows. -/
theorem HaveInputs_spec {c : CCashViewCache} {cs : List CCashViewCache} {s : σ}
    (h : StackInv (c :: cs) (B.view s)) (tx : CTransaction) :
    (Stack.HaveInputs env B (c :: cs) s tx).map (·.1) =
        (if tx.IsCashBase then some true
          else if (tx.vin.take (2 ^ 32)).all fun i => (topView (c :: cs) (B.view s) i.prevout).isSome
          then (if 2 ^ 32 ≤ tx.vin.length then none else some true)
          else some false) ∧
      ∀ r, Stack.HaveInputs env B (c :: cs) s tx = some r → Keeps B (c :: cs, s) r.2 := by
  unfold Stack.HaveInputs
  cases tx.IsCashBase
  · obtain ⟨hp, hk⟩ := haveInputsFrom_spec env hB (tx.vin.take (2 ^ 32)) h
    rw [← hp]
    generalize Stack.haveInputsFrom env B (tx.vin.take (2 ^ 32)) (c :: cs) s = r at hk ⊢
    obtain ⟨_ | _, st⟩ := r
    · exact ⟨rfl, fun r hr => by cases hr; exact hk⟩
    · by_cases hl : 2 ^ 32 ≤ tx.vin.length
      · simp only [hl, decide_True, Bool.and_self, if_true]
        exact ⟨rfl, fun r hr => by cases hr⟩
      · simp only [hl, decide_False, Bool.and_false, Bool.false_eq_true, if_false, Option.map_some',
          if_true]
        exact ⟨trivial, fun r hr => by cases hr; exact hk⟩
  · exact ⟨rfl, fun r hr => by cases hr; exact Keeps.refl h⟩

end

theorem HaveInputs_spec_demo :
    let tx : CTransaction := ⟨1, [⟨⟨0, 1⟩⟩, ⟨⟨0, 0⟩⟩], [], false⟩
    testBase.Lawful ∧ StackInv [demoTop, demoMid] (testBase.view demoBase) ∧
      (Stack.HaveInputs demoEnv testBase [demoTop, demoMid] demoBase tx).map (·.1) = some false ∧
      (Stack.HaveInputs demoEnv testBase [demoTop, demoMid] demoBase tx).map (·.1) =
        (if tx.IsCashBase then some true
          else if (tx.vin.take (2 ^ 32)).all fun i =>
            (topView [demoTop, demoMid] (testBase.view demoBase) i.prevout).isSome
          then (if 2 ^ 32 ≤ tx.vin.length then none else some true)
          else some false) ∧
      ∀ r, Stack.HaveInputs demoEnv testBase [demoTop, demoMid] demoBase tx = some r →
        Keeps testBase ([demoTop, demoMid], demoBase) r.2 := by
  intro tx
  exact ⟨testBase_lawful, demoOps_inv, rfl, HaveInputs_spec demoEnv testBase_lawful demoOps_inv tx⟩

end SalemCash
