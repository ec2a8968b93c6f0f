import SalemCash.Cache.Refinement

/-!
# Spending an outpoint

What `SpendCash` on the top layer of a stack with the flag invariant returns, and what a second
`SpendCash` of the same outpoint does.

* `Grows`: a layer that at most gained read-through entries;
* **`SpendCash_moveout`**: `SpendCash` returns `true` exactly when `FetchCash` finds an entry,
  and moves out its record: the one the top view showed, or where it showed nothing a spent one
  (a tombstone, or a spent record pulled from the base); on `false` it moves out nothing and
  leaves the layer as it was; afterwards the top view shows nothing at the outpoint and no other
  view has changed;
* **`SpendCash_true_on_tombstone`**: a reachable stack whose top view shows nothing at an
  outpoint, where `SpendCash` still returns `true`;
* **`SpendCash_idempotent`**: a second `SpendCash` leaves the top layer as the first left it and
  every view as it was, and the layers below at most gain read-through entries.
-/

namespace SalemCash

open CCashViewCache

/-! ## One layer -/

section Layer

variable (env : Env) {P : Type} {get : COutPoint → Option Cash × P} {p : P}
  {pv : COutPoint → Option Cash} {c : CCashViewCache} {o : COutPoint}

theorem SpendCash_ret (get : COutPoint → Option Cash × P) (p : P) (c : CCashViewCache)
    (o : COutPoint) :
    (c.SpendCash env get p o).1 = (c.FetchCash env get p o).1.isSome ∧
      (c.SpendCash env get p o).2.1 = (c.FetchCash env get p o).1.map (·.cash) := by
  unfold CCashViewCache.SpendCash
  generalize c.FetchCash env get p o = r
  obtain ⟨_ | e, c1, p1⟩ := r
  · exact ⟨rfl, rfl⟩
  · dsimp only; split <;> exact ⟨rfl, rfl⟩

/-- `SpendCash` returns `true` exactly when `FetchCash` finds an entry: one the layer holds, or a
record its parent returns; when it returns `false` the layer is as it was. -/
theorem SpendCash_found (get : COutPoint → Option Cash × P) (p : P) (c : CCashViewCache)
    (o : COutPoint) :
    (c.SpendCash env get p o).1 = ((c.cacheCash.lookup o).isSome || (get o).1.isSome) ∧
      ((c.SpendCash env get p o).1 = false → (c.SpendCash env get p o).2.2.1 = c) := by
  rw [(SpendCash_ret env get p c o).1]
  unfold CCashViewCache.SpendCash
  cases hl : c.cacheCash.lookup o with
  | some e =>
    rw [FetchCash_of_lookup_some env hl]
    exact ⟨rfl, fun h => by cases h⟩
  | none =>
    rw [FetchCash_of_lookup_none env hl]
    cases (get o).1 with
    | none => exact ⟨rfl, fun _ => rfl⟩
    | some x => exact ⟨rfl, fun h => by cases h⟩

/-- Under a faithful parent, `SpendCash` returns `true` exactly when it moves a record out, and
the record it moves out is, when unspent, what the layer showed. -/
theorem SpendCash_moved (hr : Reply pv o (get o).1) :
    (c.SpendCash env get p o).1 = (c.SpendCash env get p o).2.1.isSome ∧
      (c.SpendCash env get p o).2.1.bind Cash.ifUnspent = layerView c pv o := by
  obtain ⟨h1, h2⟩ := SpendCash_ret env get p c o
  rw [h1, h2, ← GetCash_fst env (c := c) (p := p) hr, CCashViewCache.GetCash]
  cases (c.FetchCash env get p o).1 <;> exact ⟨rfl, rfl⟩

/-- After `SpendCash` a layer holds nothing at `o`, or a `DIRTY` tombstone that is not `FRESH`. -/
theorem SpendCash_lookup (get : COutPoint → Option Cash × P) (p : P) (c : CCashViewCache)
    (o : COutPoint) :
    (c.SpendCash env get p o).2.2.1.cacheCash.lookup o = none ∨
      (c.SpendCash env get p o).2.2.1.cacheCash.lookup o = some ⟨cashEmpty, true, false⟩ := by
  have hfst := FetchCash_fst env get c p o
  unfold CCashViewCache.SpendCash
  generalize c.FetchCash env get p o = r at hfst
  obtain ⟨_ | e, c1, p1⟩ := r
  · exact .inl hfst.symm
  · dsimp only at hfst ⊢
    split
    · exact .inl (AList.lookup_erase o _)
    · next hf =>
      rw [lookup_replace_self hfst.symm]
      obtain ⟨cash, dirty, fresh⟩ := e
      simp_all

/-- A second `SpendCash`: where a layer shows nothing at `o` and holds nothing there but a
tombstone that is not `FRESH`, `SpendCash` leaves the layer as it was. -/
theorem SpendCash_fixed (hv : layerView c pv o = none) (hr : Reply pv o (get o).1)
    (hl : c.cacheCash.lookup o = none ∨ c.cacheCash.lookup o = some ⟨cashEmpty, true, false⟩) :
    (c.SpendCash env get p o).2.2.1 = c := by
  unfold CCashViewCache.SpendCash
  rcases hl with hl | hl
  · have hpv : pv o = none := (layerView_of_lookup_none hl).symm.trans hv
    rw [FetchCash_of_lookup_none env hl]
    cases hg : (get o).1 with
    | none => rfl
    | some x =>
      have hx : x.IsSpent = true := by
        cases hs : x.IsSpent
        · simp [Reply, hg, hpv, hs] at hr
        · rfl
      simp [CCashViewCache.fetchInto, fetchedEntry, hx, erase_insert_of_lookup_none hl]
  · rw [FetchCash_of_lookup_some env hl]
    simp [replace_of_lookup hl]

/-- `c'` keeps the hash and every entry of `c`, and its other entries are read-through copies,
not `DIRTY`. -/
structure Grows (c c' : CCashViewCache) : Prop where
  hashBlock_eq : c'.hashBlock = c.hashBlock
  keeps : ∀ o e, c.cacheCash.lookup o = some e → c'.cacheCash.lookup o = some e
  fetched : ∀ o e, c'.cacheCash.lookup o = some e → c.cacheCash.lookup o = none → e.dirty = false

theorem Grows.refl (c : CCashViewCache) : Grows c c :=
  ⟨rfl, fun _ _ h => h, fun _ _ h h' => by simp [h'] at h⟩

theorem Grows.FetchCash (get : COutPoint → Option Cash × P) (p : P) (c : CCashViewCache)
    (o : COutPoint) : Grows c (c.FetchCash env get p o).2.1 := by
  unfold CCashViewCache.FetchCash
  split
  · exact Grows.refl c
  · next hl =>
    dsimp only
    generalize (get o).1 = r
    cases r with
    | none => exact Grows.refl c
    | some x =>
      refine ⟨rfl, fun o' e h => ?_, fun o' e h h' => ?_⟩
      · have ho : o' ≠ o := by rintro rfl; simp [hl] at h
        simpa [CCashViewCache.fetchInto, AList.lookup_insert_ne ho] using h
      · by_cases ho : o' = o
        · subst ho
          simp only [CCashViewCache.fetchInto, AList.lookup_insert, Option.some.injEq] at h
          rw [← h]
          rfl
        · simp [CCashViewCache.fetchInto, AList.lookup_insert_ne ho, h'] at h

end Layer

/-! ## On a stack -/

variable {σ : Type} (env : Env) {B : BaseView σ}

theorem GetCash_grows :
    ∀ (cs : List CCashViewCache) (s : σ) (o : COutPoint),
      List.Forall₂ Grows cs (Stack.GetCash env B cs s o).2.1
  | [], _, _ => .nil
  | c :: cs, s, o => .cons (Grows.FetchCash env _ _ c o) <|
    FetchCash_parent env (Q := fun st : List CCashViewCache × σ => List.Forall₂ Grows cs st.1)
      _ _ (List.forall₂_same.mpr fun x _ => Grows.refl x) (GetCash_grows cs s o)

/-- `SpendCash` on a layer: the top view shows nothing at `o`, and no other view changes. -/
theorem SpendCash_views (hB : B.Lawful) {c : CCashViewCache} {cs : List CCashViewCache} {s : σ}
    (h : StackInv (c :: cs) (B.view s)) (o : COutPoint) :
    views (Stack.SpendCash env B (c :: cs) s o).2.2.1
        (B.view (Stack.SpendCash env B (c :: cs) s o).2.2.2) =
      Function.update (topView (c :: cs) (B.view s)) o none :: views cs (B.view s) := by
  rw [(SpendCash_refines env hB h).1, views_cons_cons c cs, views_eq_cons cs]
  rfl

/-- On a stack: `SpendCash` returns `true` exactly when it moves a record out, and the record it
moves out is, when unspent, what the top view showed. -/
theorem SpendCash_moved_top (hB : B.Lawful) {c : CCashViewCache} {cs : List CCashViewCache}
    {s : σ} (h : StackInv (c :: cs) (B.view s)) (o : COutPoint) :
    (Stack.SpendCash env B (c :: cs) s o).1 = (Stack.SpendCash env B (c :: cs) s o).2.1.isSome ∧
      (Stack.SpendCash env B (c :: cs) s o).2.1.bind Cash.ifUnspent =
        topView (c :: cs) (B.view s) o :=
  SpendCash_moved env (c := c) (p := (cs, s)) (GetCash_spec env hB o h.2).1

/-- Where the top view shows an unspent record, `SpendCash` returns `true` and moves it out. -/
theorem SpendCash_of_some (hB : B.Lawful) {c : CCashViewCache} {cs : List CCashViewCache}
    {s : σ} (h : StackInv (c :: cs) (B.view s)) {o : COutPoint} {r : Cash}
    (hr : topView (c :: cs) (B.view s) o = some r) :
    (Stack.SpendCash env B (c :: cs) s o).1 = true ∧
      (Stack.SpendCash env B (c :: cs) s o).2.1 = some r := by
  obtain ⟨hret, hmove⟩ := SpendCash_moved_top env hB h o
  obtain ⟨x, hx, hxr⟩ := Option.bind_eq_some.mp (hmove.trans hr)
  obtain ⟨-, rfl⟩ := Cash.ifUnspent_eq_some.mp hxr
  exact ⟨by rw [hret, hx]; rfl, hx⟩

/-- **What `SpendCash` returns.** On a stack with the invariant over a lawful base, `SpendCash`
returns `true` exactly when `FetchCash` finds an entry, one the top layer holds or a record the
stack below returns, and then moves out its record. Where the top view shows an unspent record
`r`, that is `r`; where it shows nothing, the record moved out is spent (a tombstone, or a spent
record pulled from the base). When it returns `false` it moves out nothing and leaves the top
layer as it was. Afterwards the top view shows nothing at the outpoint, and no other outpoint or
layer shows anything new. -/
theorem SpendCash_moveout (hB : B.Lawful) {c : CCashViewCache} {cs : List CCashViewCache}
    {s : σ} (h : StackInv (c :: cs) (B.view s)) (o : COutPoint) :
    (∀ r, topView (c :: cs) (B.view s) o = some r →
      (Stack.SpendCash env B (c :: cs) s o).1 = true ∧
        (Stack.SpendCash env B (c :: cs) s o).2.1 = some r) ∧
    (Stack.SpendCash env B (c :: cs) s o).1 =
      ((c.cacheCash.lookup o).isSome || (Stack.GetCash env B cs s o).1.isSome) ∧
    (Stack.SpendCash env B (c :: cs) s o).1 = (Stack.SpendCash env B (c :: cs) s o).2.1.isSome ∧
    (topView (c :: cs) (B.view s) o = none →
      ∀ x, (Stack.SpendCash env B (c :: cs) s o).2.1 = some x → x.IsSpent = true) ∧
    ((Stack.SpendCash env B (c :: cs) s o).1 = false →
      (Stack.SpendCash env B (c :: cs) s o).2.2.1.head? = some c) ∧
    views (Stack.SpendCash env B (c :: cs) s o).2.2.1
        (B.view (Stack.SpendCash env B (c :: cs) s o).2.2.2) =
      Function.update (topView (c :: cs) (B.view s)) o none :: views cs (B.view s) := by
  obtain ⟨hret, hmove⟩ := SpendCash_moved_top env hB h o
  obtain ⟨hfound, hsame⟩ := SpendCash_found env (Stack.GetCash env B cs s) (cs, s) c o
  refine ⟨fun r hr => SpendCash_of_some env hB h hr, hfound, hret, fun hn x hx => ?_,
    fun hf => congrArg some (hsame hf), SpendCash_views env hB h o⟩
  rw [hx, Option.some_bind] at hmove
  cases hs : x.IsSpent
  · rw [Cash.ifUnspent_of_not_IsSpent hs] at hmove
    exact absurd (hmove.trans hn) (Option.some_ne_none x)
  · rfl

theorem SpendCash_moveout_tombstone :
    testBase.Lawful ∧ StackInv [demoTop, demoMid] (testBase.view demoBase) ∧
      topView [demoTop, demoMid] (testBase.view demoBase) ⟨0, 0⟩ = none ∧
      (Stack.SpendCash demoEnv testBase [demoTop, demoMid] demoBase ⟨0, 0⟩).1 = true ∧
      (∀ r, topView [demoTop, demoMid] (testBase.view demoBase) ⟨0, 0⟩ = some r →
        (Stack.SpendCash demoEnv testBase [demoTop, demoMid] demoBase ⟨0, 0⟩).1 = true ∧
          (Stack.SpendCash demoEnv testBase [demoTop, demoMid] demoBase ⟨0, 0⟩).2.1 = some r) ∧
      (Stack.SpendCash demoEnv testBase [demoTop, demoMid] demoBase ⟨0, 0⟩).1 =
        ((demoTop.cacheCash.lookup ⟨0, 0⟩).isSome ||
          (Stack.GetCash demoEnv testBase [demoMid] demoBase ⟨0, 0⟩).1.isSome) ∧
      (Stack.SpendCash demoEnv testBase [demoTop, demoMid] demoBase ⟨0, 0⟩).1 =
        (Stack.SpendCash demoEnv testBase [demoTop, demoMid] demoBase ⟨0, 0⟩).2.1.isSome ∧
      (topView [demoTop, demoMid] (testBase.view demoBase) ⟨0, 0⟩ = none →
        ∀ x, (Stack.SpendCash demoEnv testBase [demoTop, demoMid] demoBase ⟨0, 0⟩).2.1 = some x →
          x.IsSpent = true) ∧
      ((Stack.SpendCash demoEnv testBase [demoTop, demoMid] demoBase ⟨0, 0⟩).1 = false →
        (Stack.SpendCash demoEnv testBase [demoTop, demoMid] demoBase ⟨0, 0⟩).2.2.1.head? =
          some demoTop) ∧
      views (Stack.SpendCash demoEnv testBase [demoTop, demoMid] demoBase ⟨0, 0⟩).2.2.1
          (testBase.view (Stack.SpendCash demoEnv testBase [demoTop, demoMid] demoBase
            ⟨0, 0⟩).2.2.2) =
        Function.update (topView [demoTop, demoMid] (testBase.view demoBase)) ⟨0, 0⟩ none ::
          views [demoMid] (testBase.view demoBase) :=
  ⟨testBase_lawful, demoOps_inv, rfl, rfl,
    SpendCash_moveout demoEnv testBase_lawful demoOps_inv ⟨0, 0⟩⟩

/-- A reachable stack whose top view shows nothing at an outpoint, where `SpendCash` still
returns `true`: the top layer holds a tombstone there. -/
theorem SpendCash_true_on_tombstone :
    ∃ st, Reachable demoEnv testBase st ∧ topView st.1 (testBase.view st.2) ⟨0, 0⟩ = none ∧
      (Stack.SpendCash demoEnv testBase st.1 st.2 ⟨0, 0⟩).1 = true := by
  refine ⟨_, .next (.next (.init (⟨0, AList.singleton ⟨0, 0⟩ ⟨⟨5, []⟩, false, 1⟩, []⟩ : CCashViewTest))
    (show Allowed testBase _ .push from trivial) rfl)
    (show Allowed testBase _ (.spendCash ⟨0, 0⟩) from trivial) rfl, ?_, ?_⟩ <;> rfl

/-- **`SpendCash` is idempotent.** On a stack with the invariant over a lawful base, a run that
spends an outpoint twice leaves the top layer (its entries, flags, usage and hash) as the run
that spends it once, and every view the same; each layer below at most gains read-through
entries. -/
theorem SpendCash_idempotent (hB : B.Lawful) {st : List CCashViewCache × σ}
    (h : StackInv st.1 (B.view st.2)) (o : COutPoint) :
    ∃ st1 st2, run env B st [.spendCash o] = .ok st1 ∧
      run env B st [.spendCash o, .spendCash o] = .ok st2 ∧
      st2.1.head? = st1.1.head? ∧ views st2.1 (B.view st2.2) = views st1.1 (B.view st1.2) ∧
      List.Forall₂ Grows st1.1.tail st2.1.tail := by
  refine ⟨_, _, rfl, rfl, ?_⟩
  obtain ⟨_ | ⟨c, cs⟩, s⟩ := st
  · exact ⟨rfl, rfl, .nil⟩
  have hv1 := SpendCash_views env hB h o
  have h1 := (SpendCash_refines env hB (o := o) h).2
  obtain ⟨c1, cs1, s1, hst⟩ : ∃ c1 cs1 s1,
      (Stack.SpendCash env B (c :: cs) s o).2.2 = (c1 :: cs1, s1) := ⟨_, _, _, rfl⟩
  have hc1 : c1 = (c.SpendCash env (Stack.GetCash env B cs s) (cs, s) o).2.2.1 :=
    (List.cons.inj (Prod.ext_iff.mp hst).1).1.symm
  simp only [hst] at hv1 h1 ⊢
  have hn : topView (c1 :: cs1) (B.view s1) o = none := by
    have := congrFun (topView_of_views_eq hv1) o
    rwa [Function.update_same] at this
  obtain ⟨hr, -⟩ := GetCash_spec env hB o h1.2
  refine ⟨?_, ?_, ?_⟩
  · show some (c1.SpendCash env _ (cs1, s1) o).2.2.1 = some c1
    rw [SpendCash_fixed env hn hr (hc1 ▸ SpendCash_lookup env _ _ c o)]
  · rw [SpendCash_views env hB h1,
      (Function.update_eq_self_iff (f := topView (c1 :: cs1) (B.view s1)) (a := o)).mpr hn.symm]
    rfl
  · exact SpendCash_parent env
      (Q := fun st : List CCashViewCache × σ => List.Forall₂ Grows cs1 st.1) _ _ c1 o
      (List.forall₂_same.mpr fun x _ => Grows.refl x) (GetCash_grows env cs1 s1 o)

theorem SpendCash_idempotent_new :
    testBase.Lawful ∧
      StackInv [CCashViewCache.new] (testBase.view ⟨0, AList.singleton ⟨0, 0⟩ ⟨⟨5, []⟩, false, 1⟩, []⟩) ∧
      ∃ st1 st2, run demoEnv testBase
          ([CCashViewCache.new], ⟨0, AList.singleton ⟨0, 0⟩ ⟨⟨5, []⟩, false, 1⟩, []⟩)
          [.spendCash ⟨0, 0⟩] = .ok st1 ∧
        run demoEnv testBase
          ([CCashViewCache.new], ⟨0, AList.singleton ⟨0, 0⟩ ⟨⟨5, []⟩, false, 1⟩, []⟩)
          [.spendCash ⟨0, 0⟩, .spendCash ⟨0, 0⟩] = .ok st2 ∧
        st2.1.head? = st1.1.head? ∧ views st2.1 (testBase.view st2.2) = views st1.1 (testBase.view st1.2) ∧
        List.Forall₂ Grows st1.1.tail st2.1.tail :=
  have h : StackInv [CCashViewCache.new]
      (testBase.view ⟨0, AList.singleton ⟨0, 0⟩ ⟨⟨5, []⟩, false, 1⟩, []⟩) := ⟨FlagInv_new, trivial⟩
  ⟨testBase_lawful, h, SpendCash_idempotent demoEnv testBase_lawful h ⟨0, 0⟩⟩

end SalemCash
