import SalemCash.Cache.Refinement

/-!
# Adding a transaction's outputs

`AddCash(cache, tx, nHeight, check)` adds every output of `tx` to the top layer, output `i` at
the outpoint `(txid, i)` whose index is a 32-bit `COutPoint::n`. Its overwrite flag is `HaveCash`
of the outpoint with `check`, and `IsCashBase()` without.

* `outputsView`: what the top view shows once the outputs from index `i` are added;
* `outputsView_at`, `outputsView_other`: that view at each output's outpoint, and elsewhere;
* `addOutputs_spec`: the loop of the helper refines `outputsView`;
* **`AddTx_spec`**: with no null output and at most `2^32` outputs, on a stack with the invariant
  over a lawful base, the helper returns, keeps the invariant and every lower view, and shows the
  record of each spendable output at its outpoint;
* **`AddTx_null_output`**: a null output stops the helper at the `assert` of `AddCash`.
-/

namespace SalemCash

open CCashViewCache

/-- Distinct output indices below `2^32` give distinct outpoints. -/
theorem outpoint_ne {h : Uint256} {a b : Nat} (ha : a < 2 ^ 32) (hb : b < 2 ^ 32) (hab : a ≠ b) :
    (⟨h, a.toUInt32⟩ : COutPoint) ≠ ⟨h, b.toUInt32⟩ := fun he => hab <| by
  have := congrArg (fun o : COutPoint => o.n.toNat) he
  simpa [UInt32.toNat_ofNat_of_lt ha, UInt32.toNat_ofNat_of_lt hb] using this

/-! ## The view the outputs give -/

section View

variable (env : Env) (tx : CTransaction) (nHeight : Int)

/-- Modelled from the spec: the view once the outputs `outs` of `tx` are added from index `i`,
the record of each spendable output at its outpoint. -/
def outputsView : Nat → List CTxOut → (COutPoint → Option Cash) → COutPoint → Option Cash
  | _, [], v => v
  | i, out :: outs, v => outputsView (i + 1) outs
    (if env.IsUnspendable out.scriptPubKey then v
      else Function.update v ⟨tx.hash, i.toUInt32⟩ (some (Cash.mk' out nHeight tx.IsCashBase)))

theorem outputsView_other :
    ∀ (outs : List CTxOut) (i : Nat) (v : COutPoint → Option Cash) (o : COutPoint),
      (∀ k < outs.length, o ≠ ⟨tx.hash, (i + k).toUInt32⟩) →
      outputsView env tx nHeight i outs v o = v o
  | [], _, _, _, _ => rfl
  | out :: outs, i, v, o, ho => by
    rw [outputsView, outputsView_other outs (i + 1) _ o fun k hk => by
      simpa [Nat.add_right_comm, Nat.add_assoc] using ho (k + 1) (Nat.succ_lt_succ hk)]
    split
    · rfl
    · exact Function.update_noteq (by simpa using ho 0 (Nat.zero_lt_succ _)) _ _

theorem outputsView_at :
    ∀ (outs : List CTxOut) (i : Nat) (v : COutPoint → Option Cash) (k : Nat)
      (hk : k < outs.length), i + outs.length ≤ 2 ^ 32 →
      outputsView env tx nHeight i outs v ⟨tx.hash, (i + k).toUInt32⟩ =
        if env.IsUnspendable outs[k].scriptPubKey then v ⟨tx.hash, (i + k).toUInt32⟩
        else some (Cash.mk' outs[k] nHeight tx.IsCashBase)
  | out :: outs, i, v, 0, _, hlen => by
    simp only [List.length_cons] at hlen
    rw [outputsView, outputsView_other env tx nHeight outs (i + 1) _ _ fun k _ =>
      outpoint_ne (by omega) (by omega) (by omega)]
    simp only [Nat.add_zero, List.getElem_cons_zero]
    split <;> simp
  | out :: outs, i, v, k + 1, hk, hlen => by
    simp only [List.length_cons] at hlen hk
    have hne : (⟨tx.hash, (i + 1 + k).toUInt32⟩ : COutPoint) ≠ ⟨tx.hash, i.toUInt32⟩ :=
      outpoint_ne (by omega) (by omega) (by omega)
    rw [outputsView, show i + (k + 1) = i + 1 + k by omega,
      outputsView_at outs (i + 1) _ k (by omega) (by omega), List.getElem_cons_succ]
    have hv : (if env.IsUnspendable out.scriptPubKey then v else Function.update v
        ⟨tx.hash, i.toUInt32⟩ (some (Cash.mk' out nHeight tx.IsCashBase)))
        ⟨tx.hash, (i + 1 + k).toUInt32⟩ = v ⟨tx.hash, (i + 1 + k).toUInt32⟩ := by
      split <;> simp [Function.update_noteq hne]
    rw [hv]

end View

/-! ## The helper on a stack -/

variable {σ : Type} (env : Env) (tx : CTransaction) (nHeight : Int) {B : BaseView σ}

/-- The overwrite flag the helper computes and the stack it leaves: with `check` it is
`HaveCash`, and it is `false` only where the top view shows nothing. -/
theorem overwrite_spec (hB : B.Lawful) {c : CCashViewCache} {cs : List CCashViewCache} {s : σ}
    (h : StackInv (c :: cs) (B.view s)) (check : Bool) (o : COutPoint)
    (hpre : check = false → tx.IsCashBase = false → topView (c :: cs) (B.view s) o = none) :
    ∃ po c1 cs1 s1,
      (if check then Stack.HaveCash env B (c :: cs) s o else (tx.IsCashBase, c :: cs, s)) =
        (po, c1 :: cs1, s1) ∧
      Keeps B (c :: cs, s) (c1 :: cs1, s1) ∧ (po = false → topView (c :: cs) (B.view s) o = none) := by
  cases check with
  | false => exact ⟨_, c, cs, s, rfl, Keeps.refl h, hpre rfl⟩
  | true =>
    refine ⟨_, _, _, _, rfl, (GetCash_spec env hB o h).2, fun hpo => ?_⟩
    rw [← GetCash_top env hB h o]
    exact Option.not_isSome_iff_eq_none.mp (by simpa using hpo)

/-- The loop of the helper from index `i` refines `outputsView`. -/
theorem addOutputs_spec (hB : B.Lawful) (check : Bool) :
    ∀ (outs : List CTxOut) (i : Nat) {c : CCashViewCache} {cs : List CCashViewCache} {s : σ},
      StackInv (c :: cs) (B.view s) → (∀ out ∈ outs, out.IsNull = false) →
      i + outs.length ≤ 2 ^ 32 →
      (check = false → tx.IsCashBase = false →
        ∀ k < outs.length, topView (c :: cs) (B.view s) ⟨tx.hash, (i + k).toUInt32⟩ = none) →
      ∃ c' cs' s', Stack.addOutputs env B tx nHeight check i outs (c :: cs) s = .ok (c' :: cs', s') ∧
        StackInv (c' :: cs') (B.view s') ∧ views cs' (B.view s') = views cs (B.view s) ∧
        topView (c' :: cs') (B.view s') =
          outputsView env tx nHeight i outs (topView (c :: cs) (B.view s))
  | [], _, c, cs, s, h, _, _, _ => ⟨c, cs, s, rfl, h, rfl, rfl⟩
  | out :: outs, i, c, cs, s, h, hnull, hlen, hpre => by
    simp only [List.length_cons] at hlen
    obtain ⟨po, c1, cs1, s1, hw, hk, hpo⟩ := overwrite_spec env tx hB h check ⟨tx.hash, i.toUInt32⟩
      fun hc hb => by simpa using hpre hc hb 0 (Nat.zero_lt_succ _)
    have ht1 : topView (c1 :: cs1) (B.view s1) = topView (c :: cs) (B.view s) :=
      topView_eq_of_views_eq hk.views_eq
    obtain ⟨c2, hadd, hinv2, hv2⟩ := hk.inv.1.AddCash env
      (show (Cash.mk' out nHeight tx.IsCashBase).IsSpent = false from
        hnull out (List.mem_cons_self _ _))
      fun hp => (congrFun ht1 _).trans (hpo hp)
    have hV1 : topView (c2 :: cs1) (B.view s1) =
        if env.IsUnspendable out.scriptPubKey then topView (c :: cs) (B.view s)
        else Function.update (topView (c :: cs) (B.view s)) ⟨tx.hash, i.toUInt32⟩
          (some (Cash.mk' out nHeight tx.IsCashBase)) := by
      rw [← ht1]
      exact hv2
    obtain ⟨c', cs', s', hrun, hinv', hviews', htop'⟩ := addOutputs_spec hB check outs (i + 1)
      ⟨hinv2, hk.inv.2⟩ (fun o ho => hnull o (List.mem_cons_of_mem _ ho)) (by omega)
      fun hc hb k hk' => by
        have hne : (⟨tx.hash, (i + 1 + k).toUInt32⟩ : COutPoint) ≠ ⟨tx.hash, i.toUInt32⟩ :=
          outpoint_ne (by omega) (by omega) (by omega)
        rw [hV1]
        have := hpre hc hb (k + 1) (Nat.succ_lt_succ hk')
        rw [show i + (k + 1) = i + 1 + k by omega] at this
        split <;> simp [Function.update_noteq hne, this]
    refine ⟨c', cs', s', ?_, hinv', hviews'.trans (List.cons.inj hk.views_eq).2, ?_⟩
    · simp only [Stack.addOutputs, hw, Stack.AddCash, hadd, Except.bind]
      exact hrun
    · rw [htop', hV1]
      rfl

/-- **The `AddCash(tx)` helper.** On a stack with the invariant over a lawful base, for a
transaction with no null output and at most `2^32` outputs, and with `check`, or for a base
reward, or where the view shows nothing at any `(txid, i)` beforehand: the helper returns (no
`logic_error`), keeps the invariant and every lower view, shows at each `(txid, i)` the record
`Cash(tx.vout[i], nHeight, IsCashBase())` when its script is spendable and what it showed before
otherwise, and changes nothing at any other outpoint. -/
theorem AddTx_spec (hB : B.Lawful) {c : CCashViewCache} {cs : List CCashViewCache} {s : σ}
    (h : StackInv (c :: cs) (B.view s)) (check : Bool)
    (hnull : ∀ out ∈ tx.vout, out.IsNull = false) (hlen : tx.vout.length ≤ 2 ^ 32)
    (hpre : check = false → tx.IsCashBase = false →
      ∀ i < tx.vout.length, topView (c :: cs) (B.view s) ⟨tx.hash, i.toUInt32⟩ = none) :
    ∃ c' cs' s', Stack.AddTx env B (c :: cs) s tx nHeight check = .ok (c' :: cs', s') ∧
      StackInv (c' :: cs') (B.view s') ∧ views cs' (B.view s') = views cs (B.view s) ∧
      (∀ i (hi : i < tx.vout.length), topView (c' :: cs') (B.view s') ⟨tx.hash, i.toUInt32⟩ =
        if env.IsUnspendable tx.vout[i].scriptPubKey then
          topView (c :: cs) (B.view s) ⟨tx.hash, i.toUInt32⟩
        else some (Cash.mk' tx.vout[i] nHeight tx.IsCashBase)) ∧
      ∀ o, (∀ i < tx.vout.length, o ≠ ⟨tx.hash, i.toUInt32⟩) →
        topView (c' :: cs') (B.view s') o = topView (c :: cs) (B.view s) o := by
  obtain ⟨c', cs', s', hrun, hinv, hviews, htop⟩ := addOutputs_spec env tx nHeight hB check tx.vout 0
    h hnull (by omega) fun hc hb k hk => by simpa using hpre hc hb k hk
  refine ⟨c', cs', s', hrun, hinv, hviews, fun i hi => ?_, fun o ho => ?_⟩
  · simpa [htop] using outputsView_at env tx nHeight tx.vout 0 _ i hi (by omega)
  · rw [htop]
    exact outputsView_other env tx nHeight tx.vout 0 _ o fun k hk => by simpa using ho k hk

theorem AddTx_spec_overwrites_demo :
    let tx : CTransaction := ⟨0, [], [⟨5, []⟩, ⟨6, []⟩], false⟩
    testBase.Lawful ∧ StackInv [demoTop, demoMid] (testBase.view demoBase) ∧
      (topView [demoTop, demoMid] (testBase.view demoBase) ⟨0, 1⟩).isSome = true ∧
      (∀ out ∈ tx.vout, out.IsNull = false) ∧ tx.vout.length ≤ 2 ^ 32 ∧
      (true = false → tx.IsCashBase = false → ∀ i < tx.vout.length,
        topView [demoTop, demoMid] (testBase.view demoBase) ⟨tx.hash, i.toUInt32⟩ = none) ∧
      ∃ c' cs' s', Stack.AddTx demoEnv testBase [demoTop, demoMid] demoBase tx 3 true =
          .ok (c' :: cs', s') ∧
        StackInv (c' :: cs') (testBase.view s') ∧
        views cs' (testBase.view s') = views [demoMid] (testBase.view demoBase) ∧
        (∀ i (hi : i < tx.vout.length),
          topView (c' :: cs') (testBase.view s') ⟨tx.hash, i.toUInt32⟩ =
            if demoEnv.IsUnspendable tx.vout[i].scriptPubKey then
              topView [demoTop, demoMid] (testBase.view demoBase) ⟨tx.hash, i.toUInt32⟩
            else some (Cash.mk' tx.vout[i] 3 tx.IsCashBase)) ∧
        ∀ o, (∀ i < tx.vout.length, o ≠ ⟨tx.hash, i.toUInt32⟩) →
          topView (c' :: cs') (testBase.view s') o =
            topView [demoTop, demoMid] (testBase.view demoBase) o := by
  intro tx
  have hnull : ∀ out ∈ tx.vout, out.IsNull = false := by decide
  exact ⟨testBase_lawful, demoOps_inv, rfl, hnull, by decide, fun h => absurd h Bool.noConfusion,
    AddTx_spec demoEnv tx 3 testBase_lawful demoOps_inv true hnull (by decide)
      fun h => absurd h Bool.noConfusion⟩

/-- A transaction with a null output stops the helper at the `assert(!cash.IsSpent())` of
`AddCash`, on a new layer over an empty test base. -/
theorem AddTx_null_output :
    StackInv [CCashViewCache.new] (testBase.view ⟨0, ∅, []⟩) ∧
      Stack.AddTx demoEnv testBase [CCashViewCache.new] ⟨0, ∅, []⟩ ⟨0, [], [⟨-1, []⟩], false⟩ 0
        true = .error (.assertion "!cash.IsSpent()") :=
  ⟨⟨FlagInv_new, trivial⟩, rfl⟩

end SalemCash
