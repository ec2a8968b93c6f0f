import SalemCash.Cache.Read

/-!
# A stack refines one map per layer

The reference model of a stack is a list of plain maps, one per layer, top first, and the base's
last: a new layer copies the top map, `AddCash` and `SpendCash` set or clear one outpoint of the
top map, and flushing a layer copies its map into its parent's. `views` maps a stack to such a
list, and every step of a stack moves its views as the reference model moves the maps.

* `Flush_refines`: flushing a layer copies what it shows into its parent and changes nothing
  else, the layer's `DIRTY` entries being an overlay of exactly the difference;
* `step_refines`, `run_refines`: the views follow the reference model step by step;
* `Reachable.of_run`: a run of allowed operations that returns reaches a reachable stack;
* **`FlagInv_reachable`**: in every reachable stack every entry of every layer keeps the flag
  invariant against its parent's view, and no `Flush` throws;
* **`GetCash_refines`**: after any run, `GetCash` on any layer reports the reference map of that
  layer.
-/

namespace SalemCash

open CCashViewCache

/-! ## The reference model -/

/-- Modelled from the spec: flushing the top map copies it into the map below. -/
def refFlushTop : List (COutPoint → Option Cash) → List (COutPoint → Option Cash)
  | v :: _ :: vs => v :: v :: vs
  | vs => vs

/-- Modelled from the spec: `g` applied to the maps from depth `j` down, when a layer is there. -/
def refAtDepth (g : List (COutPoint → Option Cash) → List (COutPoint → Option Cash)) :
    Nat → List (COutPoint → Option Cash) → List (COutPoint → Option Cash)
  | 0, v :: w :: vs => g (v :: w :: vs)
  | j + 1, v :: w :: vs => v :: refAtDepth g j (w :: vs)
  | _, vs => vs

/-- Modelled from the spec: one operation on the maps. `AddCash` sets the top map at `o` unless
the script is unspendable, `SpendCash` clears it there, a flush copies a map into its parent's, a
push copies the top map, and a pop drops it, after copying it down when it flushes first. -/
def refStep (env : Env) (V : List (COutPoint → Option Cash)) : Op → List (COutPoint → Option Cash)
  | .addCash o cash _ =>
    match V with
    | v :: w :: vs =>
      (if env.IsUnspendable cash.out.scriptPubKey then v else Function.update v o (some cash)) ::
        w :: vs
    | vs => vs
  | .spendCash o =>
    match V with
    | v :: w :: vs => Function.update v o none :: w :: vs
    | vs => vs
  | .flush j => refAtDepth refFlushTop j V
  | .push =>
    match V with
    | v :: vs => v :: v :: vs
    | [] => []
  | .pop false =>
    match V with
    | _ :: w :: vs => w :: vs
    | vs => vs
  | .pop true =>
    match V with
    | v :: _ :: vs => v :: vs
    | vs => vs
  | _ => V

/-- Modelled from the spec: the maps after a run of operations. -/
def refRun (env : Env) (V : List (COutPoint → Option Cash)) (ops : List Op) :
    List (COutPoint → Option Cash) :=
  ops.foldl (refStep env) V

theorem refAtDepth_head? {g : List (COutPoint → Option Cash) → List (COutPoint → Option Cash)}
    (hg : ∀ v w vs, (g (v :: w :: vs)).head? = some v) :
    ∀ (j : Nat) (V : List (COutPoint → Option Cash)), (refAtDepth g j V).head? = V.head?
  | 0, v :: w :: vs => hg v w vs
  | _ + 1, _ :: _ :: _ => rfl
  | 0, [] | 0, [_] | _ + 1, [] | _ + 1, [_] => rfl

theorem refAtDepth_id :
    ∀ (j : Nat) (V : List (COutPoint → Option Cash)), refAtDepth id j V = V
  | 0, _ :: _ :: _ => rfl
  | j + 1, v :: w :: vs => congrArg (v :: ·) (refAtDepth_id j (w :: vs))
  | 0, [] | 0, [_] | _ + 1, [] | _ + 1, [_] => rfl

/-! ## What the views of a stack are -/

variable {σ : Type}

theorem views_cons_cons (c : CCashViewCache) (cs : List CCashViewCache)
    (v : COutPoint → Option Cash) :
    views (c :: cs) v = topView (c :: cs) v :: topView cs v :: (views cs v).tail := by
  cases cs <;> rfl

theorem views_getD (d : COutPoint → Option Cash) :
    ∀ (cs : List CCashViewCache) (v : COutPoint → Option Cash) (k : Nat), k ≤ cs.length →
      (views cs v).getD k d = topView (cs.drop k) v
  | [], _, 0, _ => rfl
  | _ :: _, _, 0, _ => rfl
  | _ :: cs, v, k + 1, hk => views_getD d cs v k (Nat.le_of_succ_le_succ hk)

theorem StackInv.drop {v : COutPoint → Option Cash} :
    ∀ {cs : List CCashViewCache} (k : Nat), StackInv cs v → StackInv (cs.drop k) v
  | [], _, _ => by simp [StackInv]
  | _ :: _, 0, h => h
  | _ :: _, k + 1, h => StackInv.drop k h.2

/-- `StackInv` says, layer by layer, that each keeps the invariant against the stack below it. -/
theorem StackInv.get {v : COutPoint → Option Cash} :
    ∀ {cs : List CCashViewCache}, StackInv cs v → ∀ k (hk : k < cs.length),
      FlagInv cs[k] (topView (cs.drop (k + 1)) v)
  | _ :: _, h, 0, _ => h.1
  | _ :: _, h, k + 1, hk => StackInv.get h.2 k (Nat.lt_of_succ_lt_succ hk)

theorem layerView_empty (c : CCashViewCache) (v : COutPoint → Option Cash) :
    layerView { c with cacheCash := ∅, cachedCashUsage := 0 } v = v := rfl

theorem FlagInv_empty (c : CCashViewCache) (v : COutPoint → Option Cash) :
    FlagInv { c with cacheCash := ∅, cachedCashUsage := 0 } v := fun _ _ h => by simp at h

theorem topView_of_views_eq {cs : List CCashViewCache} {v a : COutPoint → Option Cash}
    {t : List (COutPoint → Option Cash)} (h : views cs v = a :: t) : topView cs v = a :=
  (List.cons.inj ((views_eq_cons cs v).symm.trans h)).1

variable {B : BaseView σ}

/-- A new top layer over a stack that shows what another shows. -/
theorem views_cons_of_keeps {cs cs' : List CCashViewCache} {s s' : σ}
    (h : Keeps B (cs, s) (cs', s')) (c : CCashViewCache) :
    views (c :: cs') (B.view s') = layerView c (topView cs (B.view s)) :: views cs (B.view s) := by
  show layerView c (topView cs' _) :: views cs' _ = _
  rw [h.views_eq, topView_eq_of_views_eq h.views_eq]

theorem StackInv_cons_of_keeps {c : CCashViewCache} {cs cs' : List CCashViewCache} {s s' : σ}
    (h : Keeps B (cs, s) (cs', s')) (hc : FlagInv c (topView cs (B.view s))) :
    StackInv (c :: cs') (B.view s') :=
  ⟨by rw [topView_eq_of_views_eq h.views_eq]; exact hc, h.inv⟩

/-! ## One step -/

variable (env : Env)

theorem AddCash_refines {cs : List CCashViewCache} {s : σ} {o : COutPoint} {cash : Cash}
    {po : Bool} (h : StackInv cs (B.view s)) (hcash : cash.IsSpent = false)
    (hpo : po = false → topView cs (B.view s) o = none) :
    ∃ st', Stack.AddCash env cs s o cash po = .ok st' ∧
      views st'.1 (B.view st'.2) = refStep env (views cs (B.view s)) (.addCash o cash po) ∧
      StackInv st'.1 (B.view st'.2) := by
  cases cs with
  | nil => exact ⟨([], s), rfl, rfl, trivial⟩
  | cons c cs =>
    obtain ⟨c', hc', hinv, hv⟩ := h.1.AddCash env hcash hpo
    refine ⟨(c' :: cs, s), by simp [Stack.AddCash, hc'], ?_, hinv, h.2⟩
    rw [views_cons_of_keeps (Keeps.refl h.2) c', hv, views_cons_cons]
    rw [views_eq_cons cs]
    rfl

theorem SpendCash_base {P : Type} (get : COutPoint → Option Cash × P) (p : P)
    (c : CCashViewCache) (o : COutPoint) :
    (c.SpendCash env get p o).2.2.2 = (c.FetchCash env get p o).2.2 := by
  unfold CCashViewCache.SpendCash
  generalize c.FetchCash env get p o = r
  obtain ⟨_ | e, c1, p1⟩ := r
  · rfl
  · dsimp only; split <;> rfl

/-- Below a layer, `SpendCash` leaves the base as it was or as the parent's `GetCash` left it. -/
theorem SpendCash_parent {P : Type} {Q : P → Prop} (get : COutPoint → Option Cash × P) (p : P)
    (c : CCashViewCache) (o : COutPoint) (hp : Q p) (hg : Q (get o).2) :
    Q (c.SpendCash env get p o).2.2.2 := by
  rw [SpendCash_base]
  exact FetchCash_parent env get p hp hg

theorem SpendCash_refines (hB : B.Lawful) {cs : List CCashViewCache} {s : σ} {o : COutPoint}
    (h : StackInv cs (B.view s)) :
    views (Stack.SpendCash env B cs s o).2.2.1 (B.view (Stack.SpendCash env B cs s o).2.2.2) =
        refStep env (views cs (B.view s)) (.spendCash o) ∧
      StackInv (Stack.SpendCash env B cs s o).2.2.1 (B.view (Stack.SpendCash env B cs s o).2.2.2) := by
  cases cs with
  | nil => exact ⟨rfl, trivial⟩
  | cons c cs =>
    obtain ⟨hr, hk⟩ := GetCash_spec env hB o h.2
    have hb := FetchCash_base_keeps env (c := c) h.2 hk
    rw [← SpendCash_base] at hb
    obtain ⟨hinv, hv⟩ := h.1.SpendCash env (p := (cs, s)) hr
    refine ⟨?_, StackInv_cons_of_keeps hb hinv⟩
    show views (_ :: (c.SpendCash env _ (cs, s) o).2.2.2.1) (B.view (c.SpendCash env _ (cs, s) o).2.2.2.2) = _
    rw [views_cons_of_keeps hb, hv, views_cons_cons, views_eq_cons cs]
    rfl

theorem BatchWrite_refines (hB : B.Lawful) :
    ∀ {cs : List CCashViewCache} {s : σ}, StackInv cs (B.view s) → ∀ {m : CCashMap},
      (∀ o e, m.lookup o = some e → e.dirty = true → e.fresh = true →
        topView cs (B.view s) o = none) → ∀ hash : Uint256,
      ∃ b cs' s', Stack.BatchWrite env B cs s m hash = .ok (b, cs', s') ∧
        views cs' (B.view s') = overlay m (topView cs (B.view s)) :: (views cs (B.view s)).tail ∧
        StackInv cs' (B.view s')
  | [], s, _, m, _, hash => ⟨_, [], _, rfl, by simp [views, topView, hB.view_BatchWrite], trivial⟩
  | c :: cs, s, h, m, hm, hash => by
    obtain ⟨c', hloop, hinv, -, hv⟩ := h.1.batchWriteLoop env m.nodupKeys hm
    refine ⟨true, { c' with hashBlock := hash } :: cs, s, ?_, ?_, hinv, h.2⟩
    · simp [Stack.BatchWrite, CCashViewCache.BatchWrite, hloop, Except.map]
    · exact (views_cons_of_keeps (Keeps.refl h.2) _).trans (congrArg (· :: _) hv)

/-- **Flushing is invisible from above.** `Flush` of a layer with the invariant returns, copies
what the layer shows into its parent, and changes no other view. -/
theorem Flush_refines (hB : B.Lawful) {c : CCashViewCache} {cs : List CCashViewCache} {s : σ}
    (h : StackInv (c :: cs) (B.view s)) :
    ∃ b cs' s', Stack.Flush env B (c :: cs) s = .ok (b, cs', s') ∧
      views cs' (B.view s') = refFlushTop (views (c :: cs) (B.view s)) ∧
      StackInv cs' (B.view s') := by
  obtain ⟨b, cs', s', hw, hv, hinv⟩ :=
    BatchWrite_refines env hB h.2 (fun o e he _ hf => (h.1 o e he).fresh hf) c.hashBlock
  refine ⟨b, { c with cacheCash := ∅, cachedCashUsage := 0 } :: cs', s',
    by simp [Stack.Flush, CCashViewCache.Flush, hw, Except.map], ?_, FlagInv_empty c _, hinv⟩
  show layerView _ (topView cs' _) :: views cs' _ = _
  rw [layerView_empty, topView_of_views_eq hv, hv, overlay_self h.1, views_cons_cons]
  rfl

/-- An operation on the stack below the `j` topmost layers that moves its views by `g`, keeping
the top view, moves the views of the whole stack by `refAtDepth g j`. -/
theorem atDepth_refines {f : List CCashViewCache → σ → Except (Abort Unit) (List CCashViewCache × σ)}
    {g : List (COutPoint → Option Cash) → List (COutPoint → Option Cash)}
    (hg : ∀ v w vs, (g (v :: w :: vs)).head? = some v)
    (hf : ∀ c cs s, StackInv (c :: cs) (B.view s) → ∃ cs' s', f (c :: cs) s = .ok (cs', s') ∧
      views cs' (B.view s') = g (views (c :: cs) (B.view s)) ∧ StackInv cs' (B.view s')) :
    ∀ (j : Nat) (cs : List CCashViewCache) (s : σ), StackInv cs (B.view s) →
      ∃ cs' s', atDepth f j cs s = .ok (cs', s') ∧
        views cs' (B.view s') = refAtDepth g j (views cs (B.view s)) ∧ StackInv cs' (B.view s')
  | 0, [], s, h | _ + 1, [], s, h => ⟨[], s, rfl, rfl, h⟩
  | 0, c :: cs, s, h => by
    obtain ⟨cs', s', hr, hv, hinv⟩ := hf c cs s h
    exact ⟨cs', s', hr, by rw [hv, views_cons_cons]; rfl, hinv⟩
  | j + 1, c :: cs, s, h => by
    obtain ⟨cs', s', hr, hv, hinv⟩ := atDepth_refines hg hf j cs s h.2
    have ht : topView cs' (B.view s') = topView cs (B.view s) := by
      have := congrArg List.head? hv
      rwa [refAtDepth_head? hg, views_eq_cons, views_eq_cons cs, List.head?_cons,
        List.head?_cons, Option.some.injEq] at this
    refine ⟨c :: cs', s', by simp [atDepth, hr, Except.map], ?_, ?_, hinv⟩
    · show topView (c :: cs') _ :: views cs' _ = _
      rw [hv, views_cons_cons, views_eq_cons cs]
      simp only [topView, ht]
      rfl
    · show FlagInv c (topView cs' _)
      exact ht ▸ h.1

/-- An operation that keeps what every layer shows, at any depth, keeps the views. -/
theorem atDepth_keeps {F : List CCashViewCache → σ → List CCashViewCache × σ}
    (hF : ∀ c cs s, StackInv (c :: cs) (B.view s) → Keeps B (c :: cs, s) (F (c :: cs) s))
    (j : Nat) {cs : List CCashViewCache} {s : σ} (h : StackInv cs (B.view s)) :
    ∃ st', atDepth (fun cs s => .ok (F cs s)) j cs s = .ok st' ∧
      views st'.1 (B.view st'.2) = views cs (B.view s) ∧ StackInv st'.1 (B.view st'.2) := by
  obtain ⟨cs', s', hr, hv, hinv⟩ :=
    atDepth_refines (f := fun cs s => .ok (F cs s)) (g := id) (fun _ _ _ => rfl)
    (fun c cs s h => ⟨_, _, rfl, (hF c cs s h).views_eq, (hF c cs s h).inv⟩) j cs s h
  exact ⟨(cs', s'), hr, hv.trans (refAtDepth_id j _), hinv⟩

/-- **One step refines the reference model.** On a stack with the invariant over a lawful base,
an allowed operation whose `assert` holds returns, moves the views as `refStep` moves the maps,
and keeps the invariant. -/
theorem step_refines (hB : B.Lawful) {st : List CCashViewCache × σ}
    (h : StackInv st.1 (B.view st.2)) {op : Op} (hop : Allowed B st op) (hu : op.AssertHolds) :
    ∃ st', step env B st op = .ok st' ∧
      views st'.1 (B.view st'.2) = refStep env (views st.1 (B.view st.2)) op ∧
      StackInv st'.1 (B.view st'.2) := by
  obtain ⟨cs, s⟩ := st
  cases op with
  | addCash o cash po => exact AddCash_refines env h hu hop
  | spendCash o => exact ⟨_, rfl, SpendCash_refines env hB h⟩
  | setBestBlock hash => cases cs <;> exact ⟨_, rfl, rfl, h⟩
  | getBestBlock j => exact atDepth_keeps (fun _ _ _ h => GetBestBlock_keeps h) j h
  | getCash j o => exact atDepth_keeps (fun _ _ _ h => (GetCash_spec env hB o h).2) j h
  | haveCash j o => exact atDepth_keeps (fun _ _ _ h => HaveCash_keeps env hB h o) j h
  | accessCash j o => exact atDepth_keeps (fun _ _ _ h => (AccessCash_spec env hB h o).2) j h
  | haveCashInCache _ _ => exact ⟨_, rfl, rfl, h⟩
  | accessByTxid j txid =>
    exact atDepth_keeps (fun _ _ _ h => (accessByTxidFrom_spec env hB txid _ 0 h).2) j h
  | uncache j o => exact atDepth_keeps (fun _ _ _ h => Uncache_keeps env h o) j h
  | flush j =>
    obtain ⟨cs', s', hr, hv, hinv⟩ := atDepth_refines
      (f := fun cs s => (Stack.Flush env B cs s).map (·.2)) (g := refFlushTop) (fun _ _ _ => rfl)
      (fun c cs s h => by
        obtain ⟨b, cs', s', hf, hv, hinv⟩ := Flush_refines env hB h
        exact ⟨cs', s', by simp [hf, Except.map], hv, hinv⟩) j cs s h
    exact ⟨(cs', s'), hr, hv, hinv⟩
  | push => exact ⟨_, rfl, by rw [views_cons_cons, views_eq_cons cs]; rfl, FlagInv_new, h⟩
  | pop flushFirst =>
    cases cs with
    | nil => cases flushFirst <;> exact ⟨_, rfl, rfl, trivial⟩
    | cons c cs =>
      cases flushFirst with
      | false =>
        refine ⟨_, rfl, ?_, h.2⟩
        show views cs (B.view s) = refStep env (views (c :: cs) (B.view s)) (.pop false)
        rw [views_cons_cons]
        exact views_eq_cons cs _
      | true =>
        obtain ⟨b, cs', s', hf, hv, hinv⟩ := Flush_refines env hB h
        rw [views_cons_cons] at hv
        cases cs' with
        | nil => simp [views, refFlushTop] at hv
        | cons c' cs' =>
          refine ⟨(cs', s'), by simp [step, hf, Except.map], ?_, hinv.2⟩
          show views cs' _ = _
          rw [views_cons_cons]
          exact congrArg List.tail hv

/-! ## Runs -/

/-- Runs refine the reference model: on a stack with the invariant over a lawful base, a run of
allowed operations whose `assert`s hold returns, its views are the reference model's maps after
the same operations, and the invariant holds. -/
theorem run_refines (hB : B.Lawful) :
    ∀ {st : List CCashViewCache × σ} (ops : List Op), StackInv st.1 (B.view st.2) →
      AllowedRun env B st ops → (∀ op ∈ ops, op.AssertHolds) →
      ∃ st', run env B st ops = .ok st' ∧
        views st'.1 (B.view st'.2) = refRun env (views st.1 (B.view st.2)) ops ∧
        StackInv st'.1 (B.view st'.2)
  | st, [], h, _, _ => ⟨st, rfl, rfl, h⟩
  | st, op :: ops, h, ⟨hop, hrest⟩, hu => by
    obtain ⟨st1, h1, hv1, hi1⟩ := step_refines env hB h hop (hu op (List.mem_cons_self _ _))
    obtain ⟨st2, h2, hv2, hi2⟩ :=
      run_refines hB ops hi1 (hrest st1 h1) fun op' h' => hu op' (List.mem_cons_of_mem _ h')
    refine ⟨st2, ?_, by rw [hv2, hv1]; rfl, hi2⟩
    show (step env B st op).bind _ = _
    rw [h1]
    exact h2

/-- **Every layer reads as its reference map.** Over a lawful base, start from no layers and run
any operations, each allowed and each `AddCash` given an unspent record: the run returns, and
`GetCash` on the layer at any depth `k` reports the reference model's `k`-th map, a record
exactly where that map has one. -/
theorem GetCash_refines (hB : B.Lawful) (s : σ) (ops : List Op)
    (hall : AllowedRun env B ([], s) ops) (hu : ∀ op ∈ ops, op.AssertHolds) :
    ∃ st, run env B ([], s) ops = .ok st ∧ ∀ k < st.1.length, ∀ o : COutPoint,
      (Stack.GetCash env B (st.1.drop k) st.2 o).1 =
        (refRun env [B.view s] ops).getD k (fun _ => none) o := by
  obtain ⟨st, hr, hv, hinv⟩ := run_refines env hB ops (by trivial) hall hu
  refine ⟨st, hr, fun k hk o => ?_⟩
  have hv' : views st.1 (B.view st.2) = refRun env [B.view s] ops := hv
  have hd := List.drop_eq_getElem_cons hk
  have hi : StackInv (st.1[k] :: st.1.drop (k + 1)) (B.view st.2) := hd ▸ hinv.drop k
  rw [← hv', views_getD _ _ _ _ hk.le, hd]
  exact GetCash_top env hB hi o

theorem GetCash_refines_push_add :
    testBase.Lawful ∧
      AllowedRun demoEnv testBase ([], ⟨0, ∅, []⟩)
        [.push, .addCash ⟨0, 0⟩ ⟨⟨5, []⟩, false, 1⟩ false] ∧
      (∀ op ∈ [Op.push, .addCash ⟨0, 0⟩ ⟨⟨5, []⟩, false, 1⟩ false], op.AssertHolds) ∧
      ∃ st, run demoEnv testBase ([], ⟨0, ∅, []⟩)
          [.push, .addCash ⟨0, 0⟩ ⟨⟨5, []⟩, false, 1⟩ false] = .ok st ∧
        ∀ k < st.1.length, ∀ o : COutPoint,
          (Stack.GetCash demoEnv testBase (st.1.drop k) st.2 o).1 =
            (refRun demoEnv [testBase.view ⟨0, ∅, []⟩]
              [.push, .addCash ⟨0, 0⟩ ⟨⟨5, []⟩, false, 1⟩ false]).getD k (fun _ => none) o :=
  have hall : AllowedRun demoEnv testBase ([], ⟨0, ∅, []⟩)
      [.push, .addCash ⟨0, 0⟩ ⟨⟨5, []⟩, false, 1⟩ false] := by
    simp [AllowedRun, Allowed, step, topView, layerView, testBase_view,
      CCashViewTest.mapView, CCashViewCache.new]
  have hu : ∀ op ∈ [Op.push, .addCash ⟨0, 0⟩ ⟨⟨5, []⟩, false, 1⟩ false], op.AssertHolds := by
    simp [Op.AssertHolds, Cash.IsSpent, CTxOut.IsNull]
  ⟨testBase_lawful, hall, hu, GetCash_refines demoEnv testBase_lawful _ _ hall hu⟩

/-- An allowed run that ends at the `assert` of `AddCash`: its record is spent. -/
theorem run_aborts_on_spent_record :
    AllowedRun demoEnv testBase ([], ⟨0, ∅, []⟩) [.push, .addCash ⟨0, 0⟩ cashEmpty true] ∧
      run demoEnv testBase ([], ⟨0, ∅, []⟩) [.push, .addCash ⟨0, 0⟩ cashEmpty true] =
        .error (.assertion "!cash.IsSpent()") :=
  ⟨by simp [AllowedRun, Allowed], rfl⟩

/-! ## Reachable stacks -/

/-- The stacks reachable over a base: from no layers, by allowed operations that return. -/
inductive Reachable (env : Env) (B : BaseView σ) : List CCashViewCache × σ → Prop
  | init (s : σ) : Reachable env B ([], s)
  | next {st st' : List CCashViewCache × σ} {op : Op} :
      Reachable env B st → Allowed B st op → step env B st op = .ok st' → Reachable env B st'

/-- An allowed step that returns keeps the invariant; an `AddCash` given a spent record never
returns on a layer. -/
theorem StackInv_step (hB : B.Lawful) {st st' : List CCashViewCache × σ} {op : Op}
    (h : StackInv st.1 (B.view st.2)) (hop : Allowed B st op) (hs : step env B st op = .ok st') :
    StackInv st'.1 (B.view st'.2) := by
  by_cases hu : op.AssertHolds
  · obtain ⟨st'', hs', -, hinv⟩ := step_refines env hB h hop hu
    rw [hs] at hs'
    cases hs'
    exact hinv
  · cases op with
    | addCash o cash po =>
      obtain ⟨_ | ⟨c, cs⟩, s⟩ := st
      · cases hs; trivial
      · simp only [Op.AssertHolds, Bool.not_eq_false] at hu
        simp [step, Stack.AddCash, CCashViewCache.AddCash, hu] at hs
    | _ => exact absurd trivial hu

theorem StackInv_of_Reachable (hB : B.Lawful) {st : List CCashViewCache × σ}
    (h : Reachable env B st) : StackInv st.1 (B.view st.2) := by
  induction h with
  | init => trivial
  | next _ hop hs ih => exact StackInv_step env hB ih hop hs

/-- What an allowed run reaches from a reachable stack is reachable. -/
theorem Reachable.of_run :
    ∀ {st st' : List CCashViewCache × σ} {ops : List Op}, Reachable env B st →
      AllowedRun env B st ops → run env B st ops = .ok st' → Reachable env B st'
  | _, _, [], h, _, hr => by cases hr; exact h
  | _, _, _ :: _, h, ⟨hop, hrest⟩, hr =>
    have ⟨_, hs, hr'⟩ := exceptBind_eq_ok hr
    Reachable.of_run (h.next hop hs) (hrest _ hs) hr'

theorem demoOps_reachable : Reachable demoEnv testBase ([demoTop, demoMid], demoBase) :=
  Reachable.of_run demoEnv (.init demoBase) demoOps_allowed run_demoOps

/-- **The flag invariant holds in every reachable stack.** Over a lawful base, every entry of
every layer of a reachable stack meets the three conditions of `EntryOK` against the view of
the stack below the layer, and neither `Flush` at any depth nor a pop after a `Flush`
throws. -/
theorem FlagInv_reachable (hB : B.Lawful) {st : List CCashViewCache × σ}
    (h : Reachable env B st) :
    (∀ k (hk : k < st.1.length), FlagInv st.1[k] (topView (st.1.drop (k + 1)) (B.view st.2))) ∧
      (∀ j, ∃ st', step env B st (.flush j) = .ok st') ∧
      ∃ st', step env B st (.pop true) = .ok st' := by
  have hinv := StackInv_of_Reachable env hB h
  refine ⟨hinv.get, fun j => ?_, ?_⟩
  · obtain ⟨st', hs, -⟩ := step_refines env hB hinv (show Allowed B st (.flush j) from trivial) trivial
    exact ⟨st', hs⟩
  · obtain ⟨st', hs, -⟩ := step_refines env hB hinv (show Allowed B st (.pop true) from trivial) trivial
    exact ⟨st', hs⟩

theorem FlagInv_reachable_demo :
    testBase.Lawful ∧ Reachable demoEnv testBase ([demoTop, demoMid], demoBase) ∧
      (∀ k (hk : k < [demoTop, demoMid].length),
        FlagInv [demoTop, demoMid][k]
          (topView ([demoTop, demoMid].drop (k + 1)) (testBase.view demoBase))) ∧
      (∀ j, ∃ st', step demoEnv testBase ([demoTop, demoMid], demoBase) (.flush j) = .ok st') ∧
      ∃ st', step demoEnv testBase ([demoTop, demoMid], demoBase) (.pop true) = .ok st' :=
  ⟨testBase_lawful, demoOps_reachable,
    FlagInv_reachable demoEnv testBase_lawful demoOps_reachable⟩

end SalemCash
