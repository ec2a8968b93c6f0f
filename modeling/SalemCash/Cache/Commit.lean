import SalemCash.Cache.Spend

/-!
# Undo and commit

Two uses of a stack that its users rely on, each over a lawful base and a stack with the
invariant:

* **`SpendCash_undo`**: spending an outpoint the top view shows and adding the record that
  `SpendCash` moved out back with `possible_overwrite`, as undoing a block does, returns and
  leaves every view as it was;
* `AddCash_SpendCash_layer`, **`AddCash_SpendCash`**: adding a record where the top layer holds
  no entry and spending it again leaves the stack exactly as it was without
  `possible_overwrite`, so what the layers below show comes back, and a `DIRTY` tombstone with it;
* `popAll_commits`, **`flushAll_commits`**: popping every layer, each after its `Flush`,
  returns, and leaves the base showing what the top layer showed.
-/

namespace SalemCash

open CCashViewCache

variable {σ : Type} (env : Env) {B : BaseView σ}

/-! ## Undo of a spend -/

/-- **Undoing a spend.** On a stack with the invariant over a lawful base, where the top view
shows the record `r` at `o` and `r`'s script is spendable: `SpendCash(o)` moves out `r`, and
`AddCash(o, r, true)` on the stack it leaves returns, keeps the invariant, and leaves every view
as it was before the spend. -/
theorem SpendCash_undo (hB : B.Lawful) {c : CCashViewCache} {cs : List CCashViewCache} {s : σ}
    (h : StackInv (c :: cs) (B.view s)) {o : COutPoint} {r : Cash}
    (hr : topView (c :: cs) (B.view s) o = some r)
    (hsp : env.IsUnspendable r.out.scriptPubKey = false) :
    (Stack.SpendCash env B (c :: cs) s o).2.1 = some r ∧
      ∃ st', Stack.AddCash env (Stack.SpendCash env B (c :: cs) s o).2.2.1
          (Stack.SpendCash env B (c :: cs) s o).2.2.2 o r true = .ok st' ∧
        views st'.1 (B.view st'.2) = views (c :: cs) (B.view s) ∧
        StackInv st'.1 (B.view st'.2) := by
  obtain ⟨hv1, hi1⟩ := SpendCash_refines env hB (o := o) h
  obtain ⟨st', hadd, hv2, hi2⟩ := AddCash_refines env (o := o) hi1
    ((B.view_unspent s).topView (c :: cs) o r hr) (show true = false → _ from fun h => by cases h)
  refine ⟨(SpendCash_of_some env hB h hr).2, st', hadd, ?_, hi2⟩
  rw [hv2, hv1, views_cons_cons]
  simp only [refStep, hsp, Bool.false_eq_true, if_false, Function.update_idem]
  rw [(Function.update_eq_self_iff (f := topView (c :: cs) (B.view s)) (a := o)).mpr hr.symm]

theorem SpendCash_undo_new :
    testBase.Lawful ∧
      StackInv [CCashViewCache.new]
        (testBase.view ⟨0, AList.singleton ⟨0, 0⟩ ⟨⟨5, []⟩, false, 1⟩, []⟩) ∧
      topView [CCashViewCache.new]
        (testBase.view ⟨0, AList.singleton ⟨0, 0⟩ ⟨⟨5, []⟩, false, 1⟩, []⟩) ⟨0, 0⟩ =
          some ⟨⟨5, []⟩, false, 1⟩ ∧
      demoEnv.IsUnspendable [] = false ∧
      (Stack.SpendCash demoEnv testBase [CCashViewCache.new]
          ⟨0, AList.singleton ⟨0, 0⟩ ⟨⟨5, []⟩, false, 1⟩, []⟩ ⟨0, 0⟩).2.1 =
        some ⟨⟨5, []⟩, false, 1⟩ ∧
      ∃ st', Stack.AddCash demoEnv (Stack.SpendCash demoEnv testBase [CCashViewCache.new]
            ⟨0, AList.singleton ⟨0, 0⟩ ⟨⟨5, []⟩, false, 1⟩, []⟩ ⟨0, 0⟩).2.2.1
          (Stack.SpendCash demoEnv testBase [CCashViewCache.new]
            ⟨0, AList.singleton ⟨0, 0⟩ ⟨⟨5, []⟩, false, 1⟩, []⟩ ⟨0, 0⟩).2.2.2
          ⟨0, 0⟩ ⟨⟨5, []⟩, false, 1⟩ true = .ok st' ∧
        views st'.1 (testBase.view st'.2) = views [CCashViewCache.new]
          (testBase.view ⟨0, AList.singleton ⟨0, 0⟩ ⟨⟨5, []⟩, false, 1⟩, []⟩) ∧
        StackInv st'.1 (testBase.view st'.2) :=
  have h : StackInv [CCashViewCache.new]
      (testBase.view ⟨0, AList.singleton ⟨0, 0⟩ ⟨⟨5, []⟩, false, 1⟩, []⟩) := ⟨FlagInv_new, trivial⟩
  have hr : topView [CCashViewCache.new]
      (testBase.view ⟨0, AList.singleton ⟨0, 0⟩ ⟨⟨5, []⟩, false, 1⟩, []⟩) ⟨0, 0⟩ =
        some ⟨⟨5, []⟩, false, 1⟩ := rfl
  ⟨testBase_lawful, h, hr, rfl, SpendCash_undo demoEnv testBase_lawful h hr rfl⟩

/-! ## Adding, then spending -/

/-- `AddCash` of a record at an outpoint where the layer holds no entry, then `SpendCash` there:
the entry `AddCash` makes is `FRESH` exactly without `possible_overwrite`, so the spend erases
it and leaves the layer as it was, or else turns it into a `DIRTY` tombstone. -/
theorem AddCash_SpendCash_layer {P : Type} {c : CCashViewCache} {o : COutPoint} {cash : Cash}
    (hl : c.cacheCash.lookup o = none) (hs : cash.IsSpent = false)
    (hsp : env.IsUnspendable cash.out.scriptPubKey = false) (po : Bool)
    (get : COutPoint → Option Cash × P) (p : P) :
    ∃ c', c.AddCash env o cash po = .ok c' ∧
      c'.SpendCash env get p o = (true, some cash,
        if po then { c with cacheCash := c.cacheCash.insert o ⟨cashEmpty, true, false⟩ } else c,
        p) := by
  have he : c.emplaceAt env o =
      (defaultEntry, c.cacheCash.insert o defaultEntry, c.cachedCashUsage) := by
    simp [emplaceAt, hl]
  refine ⟨{ c with
      cacheCash := c.cacheCash.insert o ⟨cash, true, !po⟩
      cachedCashUsage := c.cachedCashUsage + cash.DynamicMemoryUsage env }, ?_, ?_⟩
  · cases po <;> simp [CCashViewCache.AddCash, hs, hsp, he, defaultEntry, replace_insert_self]
  · rw [CCashViewCache.SpendCash, FetchCash_of_lookup_some env (AList.lookup_insert _)]
    cases po
    · simp only [Bool.not_false, if_true, erase_insert_of_lookup_none hl, add_sub_cancel_right]
      rfl
    · simp [replace_insert_self]

/-- **Adding, then spending.** On any stack over any base, where the top layer holds no entry at
`o`: `AddCash(o, cash, possible_overwrite)` of an unspent record with a spendable script
returns, and `SpendCash(o)` then moves `cash` out without reading below the top layer. Without
`possible_overwrite` the stack is afterwards exactly as it was, so the top view shows again what
the layers below show at `o`, a record the added one replaced included; with it, a `DIRTY`
tombstone stays and the top view shows nothing there. -/
theorem AddCash_SpendCash {c : CCashViewCache} {cs : List CCashViewCache} {s : σ}
    {o : COutPoint} {cash : Cash} (hl : c.cacheCash.lookup o = none) (hs : cash.IsSpent = false)
    (hsp : env.IsUnspendable cash.out.scriptPubKey = false) (po : Bool) :
    ∃ c', Stack.AddCash env (c :: cs) s o cash po = .ok (c' :: cs, s) ∧
      Stack.SpendCash env B (c' :: cs) s o = (true, some cash,
        (if po then { c with cacheCash := c.cacheCash.insert o ⟨cashEmpty, true, false⟩ }
          else c) :: cs, s) ∧
      topView (Stack.SpendCash env B (c' :: cs) s o).2.2.1 (B.view s) o =
        if po then none else topView cs (B.view s) o := by
  obtain ⟨c', hadd, hspend⟩ :=
    AddCash_SpendCash_layer env hl hs hsp po (Stack.GetCash env B cs s) (cs, s)
  have hst : Stack.SpendCash env B (c' :: cs) s o = (true, some cash,
      (if po then { c with cacheCash := c.cacheCash.insert o ⟨cashEmpty, true, false⟩ }
        else c) :: cs, s) := by
    simp only [Stack.SpendCash, hspend]
  refine ⟨c', by simp only [Stack.AddCash, hadd], hst, ?_⟩
  rw [hst]
  cases po
  · exact layerView_of_lookup_none hl
  · simp [topView, layerView]

theorem AddCash_SpendCash_resurrects :
    (CCashViewCache.new.cacheCash.lookup ⟨0, 0⟩ = none ∧
      (⟨⟨7, []⟩, true, 2⟩ : Cash).IsSpent = false ∧ demoEnv.IsUnspendable [] = false) ∧
    ∃ c', Stack.AddCash demoEnv [CCashViewCache.new]
        (⟨0, AList.singleton ⟨0, 0⟩ ⟨⟨5, []⟩, false, 1⟩, []⟩ : CCashViewTest) ⟨0, 0⟩
        ⟨⟨7, []⟩, true, 2⟩ false =
        .ok ([c'], ⟨0, AList.singleton ⟨0, 0⟩ ⟨⟨5, []⟩, false, 1⟩, []⟩) ∧
      Stack.SpendCash demoEnv testBase [c'] ⟨0, AList.singleton ⟨0, 0⟩ ⟨⟨5, []⟩, false, 1⟩, []⟩
          ⟨0, 0⟩ = (true, some ⟨⟨7, []⟩, true, 2⟩,
        [if false then { CCashViewCache.new with
            cacheCash := CCashViewCache.new.cacheCash.insert ⟨0, 0⟩ ⟨cashEmpty, true, false⟩ }
          else CCashViewCache.new], ⟨0, AList.singleton ⟨0, 0⟩ ⟨⟨5, []⟩, false, 1⟩, []⟩) ∧
      topView (Stack.SpendCash demoEnv testBase [c']
          ⟨0, AList.singleton ⟨0, 0⟩ ⟨⟨5, []⟩, false, 1⟩, []⟩ ⟨0, 0⟩).2.2.1
          (testBase.view ⟨0, AList.singleton ⟨0, 0⟩ ⟨⟨5, []⟩, false, 1⟩, []⟩) ⟨0, 0⟩ =
        if false then none
        else topView [] (testBase.view ⟨0, AList.singleton ⟨0, 0⟩ ⟨⟨5, []⟩, false, 1⟩, []⟩)
          ⟨0, 0⟩ :=
  ⟨⟨rfl, rfl, rfl⟩, AddCash_SpendCash demoEnv (B := testBase) (by rfl) (by rfl) (by rfl) false⟩

/-! ## Committing a stack -/

theorem views_length : ∀ (cs : List CCashViewCache) (v : COutPoint → Option Cash),
    (views cs v).length = cs.length + 1
  | [], _ => rfl
  | _ :: cs, v => congrArg (· + 1) (views_length cs v)

/-- Popping `n` layers, each after its `Flush`, from a stack of `n` layers: the run returns and
the base shows what the top layer showed. -/
theorem popAll_commits (hB : B.Lawful) :
    ∀ (n : Nat) {cs : List CCashViewCache} {s : σ}, cs.length = n → StackInv cs (B.view s) →
      ∃ s', run env B (cs, s) (List.replicate n (.pop true)) = .ok ([], s') ∧
        B.view s' = topView cs (B.view s)
  | 0, [], s, _, _ => ⟨s, rfl, rfl⟩
  | n + 1, c :: cs, s, hn, h => by
    obtain ⟨st1, h1, hv1, hi1⟩ :=
      step_refines env hB h (show Allowed B (c :: cs, s) (.pop true) from trivial) trivial
    have hv : views st1.1 (B.view st1.2) =
        topView (c :: cs) (B.view s) :: (views cs (B.view s)).tail := by
      rw [hv1, views_cons_cons]; rfl
    have hlen : st1.1.length = n := by
      have := congrArg List.length hv
      rw [views_length, List.length_cons, List.length_tail, views_length] at this
      simp only [List.length_cons] at hn
      omega
    obtain ⟨s', hr, hb⟩ := popAll_commits hB n hlen hi1
    refine ⟨s', ?_, hb.trans (topView_of_views_eq hv)⟩
    show (step env B (c :: cs, s) (.pop true)).bind _ = _
    rw [h1]
    exact hr

/-- **Flushing every layer commits the stack.** On a stack with the invariant over a lawful base,
popping every layer, each after its `Flush`, returns (no `logic_error`), and the base then shows
exactly what the top layer showed before. -/
theorem flushAll_commits (hB : B.Lawful) {cs : List CCashViewCache} {s : σ}
    (h : StackInv cs (B.view s)) :
    ∃ s', run env B (cs, s) (List.replicate cs.length (.pop true)) = .ok ([], s') ∧
      B.view s' = topView cs (B.view s) :=
  popAll_commits env hB cs.length rfl h

theorem flushAll_commits_demo :
    testBase.Lawful ∧ StackInv [demoTop, demoMid] (testBase.view demoBase) ∧
      topView [demoTop, demoMid] (testBase.view demoBase) ⟨0, 0⟩ = none ∧
      topView [demoTop, demoMid] (testBase.view demoBase) ⟨0, 1⟩ = some ⟨⟨7, []⟩, false, 2⟩ ∧
      ∃ s', run demoEnv testBase ([demoTop, demoMid], demoBase)
          (List.replicate [demoTop, demoMid].length (.pop true)) = .ok ([], s') ∧
        testBase.view s' = topView [demoTop, demoMid] (testBase.view demoBase) :=
  ⟨testBase_lawful, demoOps_inv, rfl, rfl, flushAll_commits demoEnv testBase_lawful demoOps_inv⟩

end SalemCash
