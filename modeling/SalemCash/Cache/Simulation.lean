import SalemCash.Cache.Refinement

/-!
# The full-cache check of the simulation test

Once every thousand iterations and at its end, `cash_cache_simulation_test` walks its expected
map `result` and checks the top cache against each entry: `HaveCash` agrees with the record
`AccessCash` then returns, that record is the expected one under the test's `operator==`, and
a record found is then in the top cache itself (`HaveCashInCache`). The reads fetch records into
the caches, so each check runs on the stack the checks before it left.

* `Cash.operatorEq_eq`: the test's `operator==` compares what two records show;
* `Stack.AccessCash_HaveCashInCache`: after `AccessCash`, `HaveCashInCache` on the top cache
  says whether the record returned is unspent;
* `checkEntry_spec`, `checkAll_spec`: on a stack with the invariant, the walk passes exactly when
  every expected record shows what the top view shows, and it leaves a stack that shows the same;
* **`checkAll_run`**: after any run, the walk over the reference model's own records passes.
-/

namespace SalemCash

open CCashViewCache

/-- The test's `operator==` on records: two spent records are equal, others field by field. -/
def Cash.operatorEq (a b : Cash) : Bool :=
  (a.IsSpent && b.IsSpent) ||
    (a.fCashBase == b.fCashBase && a.nHeight == b.nHeight && a.out == b.out)

theorem Cash.fields_beq (a b : Cash) :
    (a.fCashBase == b.fCashBase && a.nHeight == b.nHeight && a.out == b.out) = (a == b) := by
  obtain ⟨out, f, n⟩ := a
  obtain ⟨out', f', n'⟩ := b
  rw [Bool.eq_iff_iff]
  simp only [Bool.and_eq_true, beq_iff_eq, Cash.mk.injEq]
  tauto

theorem Cash.isSome_ifUnspent (c : Cash) : c.ifUnspent.isSome = !c.IsSpent := by
  cases h : c.IsSpent <;> simp [h]

/-- Two records are `operator==` exactly when they show the same: a spent and an unspent record
differ in `out`, so neither is equal to the other. -/
theorem Cash.operatorEq_eq (a b : Cash) : a.operatorEq b = (a.ifUnspent == b.ifUnspent) := by
  have hne : a.IsSpent ≠ b.IsSpent → a ≠ b := mt (congrArg Cash.IsSpent)
  rw [Cash.operatorEq, Cash.fields_beq]
  cases ha : a.IsSpent <;> cases hb : b.IsSpent <;> simp_all

namespace Stack

variable {σ : Type} (env : Env) (B : BaseView σ)

/-- `HaveCashInCache` on the top cache. -/
def HaveCashInCache : List CCashViewCache → COutPoint → Bool
  | [], _ => false
  | c :: _, o => c.HaveCashInCache o

/-- The checks of `cash_cache_simulation_test` at one entry `(o, expected)` of `result`, on the
top cache: `have == !cash.IsSpent()` for `have = HaveCash(o)` and `cash = AccessCash(o)`,
`cash == expected`, and `HaveCashInCache(o)` when `cash` is unspent. It returns whether all three
pass, and the stack the reads leave. -/
def checkEntry (layers : List CCashViewCache) (s : σ) (o : COutPoint) (expected : Cash) :
    Bool × List CCashViewCache × σ :=
  let h := HaveCash env B layers s o
  let a := AccessCash env B h.2.1 h.2.2 o
  ((h.1 == !a.1.IsSpent) && a.1.operatorEq expected &&
      (a.1.IsSpent || HaveCashInCache a.2.1 o), a.2)

/-- The walk over `result`, each entry checked on the stack the one before it left. -/
def checkAll : List CCashViewCache → σ → List (COutPoint × Cash) → Bool × List CCashViewCache × σ
  | layers, s, [] => (true, layers, s)
  | layers, s, (o, expected) :: rest =>
    let r := checkEntry env B layers s o expected
    let r' := checkAll r.2.1 r.2.2 rest
    (r.1 && r'.1, r'.2)

/-- The record `AccessCash` returns is in the top cache afterwards exactly when it is unspent:
`FetchCash` leaves the entry it returns in the map. -/
theorem AccessCash_HaveCashInCache :
    ∀ (layers : List CCashViewCache) (s : σ) (o : COutPoint),
      HaveCashInCache (AccessCash env B layers s o).2.1 o = !(AccessCash env B layers s o).1.IsSpent
  | [], _, _ => rfl
  | c :: cs, s, o => by
    simp only [AccessCash, HaveCashInCache, CCashViewCache.AccessCash,
      CCashViewCache.HaveCashInCache, ← FetchCash_fst]
    cases (c.FetchCash env (GetCash env B cs s) (cs, s) o).1 <;> rfl

end Stack

variable {σ : Type} {B : BaseView σ} (env : Env)

/-- **One check.** On a stack with the invariant over a lawful base, the check at `o` passes
exactly when the expected record shows what the top view shows there, and the reads leave a
stack that shows the same, keeps the invariant, and still has a top cache. -/
theorem checkEntry_spec (hB : B.Lawful) {c : CCashViewCache} {cs : List CCashViewCache} {s : σ}
    (h : StackInv (c :: cs) (B.view s)) (o : COutPoint) (expected : Cash) :
    (Stack.checkEntry env B (c :: cs) s o expected).1 =
        (topView (c :: cs) (B.view s) o == expected.ifUnspent) ∧
      ∃ c' cs' s', (Stack.checkEntry env B (c :: cs) s o expected).2 = (c' :: cs', s') ∧
        Keeps B (c :: cs, s) (c' :: cs', s') := by
  obtain ⟨c1, cs1, s1, h1⟩ :
      ∃ c1 cs1 s1, (Stack.HaveCash env B (c :: cs) s o).2 = (c1 :: cs1, s1) := ⟨_, _, _, rfl⟩
  have hk1 := HaveCash_keeps env hB h o
  rw [h1] at hk1
  have hinv1 : StackInv (c1 :: cs1) (B.view s1) := hk1.inv
  obtain ⟨ha, hk2⟩ := AccessCash_spec env hB hinv1 o
  obtain ⟨c2, cs2, s2, h2⟩ :
      ∃ c2 cs2 s2, (Stack.AccessCash env B (c1 :: cs1) s1 o).2 = (c2 :: cs2, s2) := ⟨_, _, _, rfl⟩
  rw [h2] at hk2
  have hv : topView (c1 :: cs1) (B.view s1) o = topView (c :: cs) (B.view s) o := by
    rw [topView_eq_of_views_eq hk1.views_eq]
  have hhave : (Stack.HaveCash env B (c :: cs) s o).1 = (topView (c :: cs) (B.view s) o).isSome :=
    congrArg Option.isSome (GetCash_top env hB h o)
  refine ⟨?_, c2, cs2, s2, by simp only [Stack.checkEntry, h1, h2], hk1.trans hk2⟩
  simp only [Stack.checkEntry, h1, hhave, Stack.AccessCash_HaveCashInCache, Cash.operatorEq_eq,
    ← hv, ← ha, Cash.isSome_ifUnspent, beq_self_eq_true, Bool.true_and, Bool.or_not_self,
    Bool.and_true]

/-- **The walk.** On a stack with the invariant over a lawful base, the walk over `result`
passes exactly when every expected record shows what the top view shows, and it leaves a stack
that shows the same, keeps the invariant, and still has a top cache. -/
theorem checkAll_spec (hB : B.Lawful) :
    ∀ (result : List (COutPoint × Cash)) {c : CCashViewCache} {cs : List CCashViewCache} {s : σ},
      StackInv (c :: cs) (B.view s) →
      (Stack.checkAll env B (c :: cs) s result).1 =
          result.all (fun x => topView (c :: cs) (B.view s) x.1 == x.2.ifUnspent) ∧
        ∃ c' cs' s', (Stack.checkAll env B (c :: cs) s result).2 = (c' :: cs', s') ∧
          Keeps B (c :: cs, s) (c' :: cs', s')
  | [], _, _, _, h => ⟨rfl, _, _, _, rfl, Keeps.refl h⟩
  | (o, expected) :: rest, c, cs, s, h => by
    obtain ⟨he, c1, cs1, s1, h1, hk1⟩ := checkEntry_spec env hB h o expected
    obtain ⟨hr, c2, cs2, s2, h2, hk2⟩ := checkAll_spec hB rest hk1.inv
    have hv : topView (c1 :: cs1) (B.view s1) = topView (c :: cs) (B.view s) :=
      topView_eq_of_views_eq hk1.views_eq
    refine ⟨?_, c2, cs2, s2, by simp only [Stack.checkAll, h1, h2], hk1.trans hk2⟩
    simp only [Stack.checkAll, h1, he, hr, hv, List.all_cons]

/-- **The simulation test's full-cache check passes after every run.** Over a lawful base, after
any run of allowed operations whose `assert`s hold that leaves a top cache, the walk over any
outpoints, each expected to hold the record of the reference model's top map (`cashEmpty` where
it holds none, as `result` holds a cleared record), passes. -/
theorem checkAll_run (hB : B.Lawful) (s : σ) (ops : List Op)
    (hall : AllowedRun env B ([], s) ops) (hu : ∀ op ∈ ops, op.AssertHolds) :
    ∃ st, run env B ([], s) ops = .ok st ∧ ∀ c cs, st.1 = c :: cs → ∀ outpoints : List COutPoint,
      (Stack.checkAll env B st.1 st.2 (outpoints.map fun o =>
        (o, ((refRun env [B.view s] ops).headD (fun _ => none) o).getD cashEmpty))).1 = true := by
  obtain ⟨⟨layers, s'⟩, hr, hv, hinv⟩ := run_refines env hB ops (by trivial) hall hu
  refine ⟨_, hr, fun c cs hl outpoints => ?_⟩
  subst hl
  have htop :
      (refRun env [B.view s] ops).headD (fun _ => none) = topView (c :: cs) (B.view s') := by
    rw [← show views (c :: cs) (B.view s') = refRun env [B.view s] ops from hv, views_eq_cons]
    rfl
  have hu' := (BaseView.view_unspent B s').topView (c :: cs)
  rw [(checkAll_spec env hB _ hinv).1, htop, List.all_eq_true]
  intro x hx
  obtain ⟨o, -, rfl⟩ := List.mem_map.mp hx
  cases hto : topView (c :: cs) (B.view s') o with
  | none => simp
  | some r => simp [hu' o r hto]

theorem checkAll_run_spend_below :
    let s₀ : CCashViewTest := ⟨0, AList.singleton ⟨0, 0⟩ ⟨⟨5, []⟩, false, 1⟩, []⟩
    let ops : List Op :=
      [.push, .addCash ⟨0, 1⟩ ⟨⟨7, []⟩, false, 2⟩ true, .push, .spendCash ⟨0, 0⟩]
    testBase.Lawful ∧ AllowedRun demoEnv testBase ([], s₀) ops ∧ (∀ op ∈ ops, op.AssertHolds) ∧
      ∃ st, run demoEnv testBase ([], s₀) ops = .ok st ∧ ∀ c cs, st.1 = c :: cs →
        ∀ outpoints : List COutPoint,
          (Stack.checkAll demoEnv testBase st.1 st.2 (outpoints.map fun o =>
            (o, ((refRun demoEnv [testBase.view s₀] ops).headD (fun _ => none) o).getD
              cashEmpty))).1 = true := by
  intro s₀ ops
  have hall : AllowedRun demoEnv testBase ([], s₀) ops :=
    ⟨trivial, fun _ _ => ⟨Bool.noConfusion,
      fun _ _ => ⟨trivial, fun _ _ => ⟨trivial, fun _ _ => trivial⟩⟩⟩⟩
  have hu : ∀ op ∈ ops, op.AssertHolds := by
    simp only [ops, List.forall_mem_cons, List.not_mem_nil, false_imp_iff, implies_true]
    exact ⟨trivial, rfl, trivial, trivial, trivial⟩
  exact ⟨testBase_lawful, hall, hu, checkAll_run demoEnv testBase_lawful s₀ ops hall hu⟩

end SalemCash
