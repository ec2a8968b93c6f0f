import SalemCash.Cache.Flags
import SalemCash.Cache.TestBase

/-!
# Reads on a stack

A read pulls entries into every layer it passes, down to the base, yet changes no layer's view.
With a lawful base and the flag invariant on every layer (`StackInv`):

* **`GetCash_spec`**: `GetCash` on a stack reports its top view (up to a spent record from the
  base) and keeps every view and the invariant (`Keeps`); on a layer it reports exactly the
  layer's view (`GetCash_top`);
* the same for `AccessCash`, `HaveCash`, `Uncache` and `GetBestBlock`;
* `demoTop`, `demoMid`: the two layers a run of push, `AddCash`, push and `SpendCash` reaches
  over a test base, a `DIRTY` tombstone over a `FRESH` and `DIRTY` record and a clean one;
* **`AccessByTxid_first`**: `AccessByTxid` returns the record of the least output index whose
  record is unspent in the view, else `cashEmpty`.
-/

namespace SalemCash

open CCashViewCache

variable {σ : Type}

/-- Every layer keeps the flag invariant against the view of the layers below it. -/
def StackInv : List CCashViewCache → (COutPoint → Option Cash) → Prop
  | [], _ => True
  | c :: cs, v => FlagInv c (topView cs v) ∧ StackInv cs v

/-- A view shows only unspent records. -/
def Unspent (v : COutPoint → Option Cash) : Prop := ∀ o c, v o = some c → c.IsSpent = false

theorem BaseView.view_unspent (B : BaseView σ) (s : σ) : Unspent (B.view s) := fun o c h => by
  simp only [BaseView.view, Option.bind_eq_some, Cash.ifUnspent_eq_some] at h
  obtain ⟨_, -, hs, rfl⟩ := h
  exact hs

theorem Unspent.layerView {pv : COutPoint → Option Cash} (h : Unspent pv) (c : CCashViewCache) :
    Unspent (layerView c pv) := fun o x hx => by
  unfold SalemCash.layerView at hx
  split at hx
  · obtain ⟨hs, rfl⟩ := Cash.ifUnspent_eq_some.mp hx
    exact hs
  · exact h o x hx

theorem Unspent.topView {v : COutPoint → Option Cash} (h : Unspent v) :
    ∀ cs : List CCashViewCache, Unspent (topView cs v)
  | [] => h
  | c :: cs => (Unspent.topView h cs).layerView c

theorem Unspent.reply {v : COutPoint → Option Cash} (h : Unspent v) (o : COutPoint) :
    Reply v o (v o) := by
  unfold Reply
  cases hv : v o with
  | none => rfl
  | some x => simp [h o x hv]

theorem views_eq_cons (cs : List CCashViewCache) (v : COutPoint → Option Cash) :
    views cs v = topView cs v :: (views cs v).tail := by
  cases cs <;> rfl

theorem topView_eq_of_views_eq {cs cs' : List CCashViewCache} {v v' : COutPoint → Option Cash}
    (h : views cs' v' = views cs v) : topView cs' v' = topView cs v := by
  rw [views_eq_cons cs' v', views_eq_cons cs v] at h
  exact (List.cons.inj h).1

variable (B : BaseView σ)

/-- `st'` shows what `st` shows, at every layer, and keeps the invariant. -/
structure Keeps (st st' : List CCashViewCache × σ) : Prop where
  views_eq : views st'.1 (B.view st'.2) = views st.1 (B.view st.2)
  inv : StackInv st'.1 (B.view st'.2)

variable {B}

theorem Keeps.refl {st : List CCashViewCache × σ} (h : StackInv st.1 (B.view st.2)) :
    Keeps B st st := ⟨rfl, h⟩

theorem Keeps.trans {st st' st'' : List CCashViewCache × σ} (h : Keeps B st st')
    (h' : Keeps B st' st'') : Keeps B st st'' := ⟨h'.views_eq.trans h.views_eq, h'.inv⟩

/-- A layer over two stacks that show the same: the same view, the same invariant. -/
theorem Keeps.cons {c c' : CCashViewCache} {cs cs' : List CCashViewCache} {s s' : σ}
    (h : Keeps B (cs, s) (cs', s')) (hc : FlagInv c' (topView cs (B.view s)))
    (hv : layerView c' (topView cs (B.view s)) = layerView c (topView cs (B.view s))) :
    Keeps B (c :: cs, s) (c' :: cs', s') := by
  have ht := topView_eq_of_views_eq h.views_eq
  refine ⟨?_, ?_, h.inv⟩
  · show topView (c' :: cs') _ :: views cs' _ = topView (c :: cs) _ :: views cs _
    rw [h.views_eq]
    simp only [topView, ht, hv]
  · simpa [ht] using hc

/-! ## `GetCash` on a stack -/

variable (env : Env)

/-- Below a layer's `FetchCash`, the stack is as it was or as the parent's `GetCash` left it. -/
theorem FetchCash_base_keeps {c : CCashViewCache} {cs : List CCashViewCache} {s : σ}
    {o : COutPoint} (h : StackInv cs (B.view s))
    (hk : Keeps B (cs, s) (Stack.GetCash env B cs s o).2) :
    Keeps B (cs, s) (c.FetchCash env (Stack.GetCash env B cs s) (cs, s) o).2.2 :=
  FetchCash_parent env _ _ (Keeps.refl h) hk

/-- A layer's `FetchCash` over a parent that reports its view and keeps what every layer below
shows: the stack keeps what it shows. -/
theorem FetchCash_keeps {c : CCashViewCache} {cs : List CCashViewCache} {s : σ} {o : COutPoint}
    (h : StackInv (c :: cs) (B.view s))
    (hr : Reply (topView cs (B.view s)) o (Stack.GetCash env B cs s o).1)
    (hk : Keeps B (cs, s) (Stack.GetCash env B cs s o).2) :
    Keeps B (c :: cs, s) ((c.FetchCash env (Stack.GetCash env B cs s) (cs, s) o).2.1 ::
      (c.FetchCash env (Stack.GetCash env B cs s) (cs, s) o).2.2.1,
      (c.FetchCash env (Stack.GetCash env B cs s) (cs, s) o).2.2.2) :=
  have hc := h.1.FetchCash env (p := (cs, s)) hr
  Keeps.cons (FetchCash_base_keeps env h.2 hk) hc.1 hc.2

/-- **Reads keep the views.** Over a lawful base, with the invariant on every layer, `GetCash`
reports the top view (the base may add a spent record) and keeps every view and the invariant. -/
theorem GetCash_spec (hB : B.Lawful) (o : COutPoint) :
    ∀ {cs : List CCashViewCache} {s : σ}, StackInv cs (B.view s) →
      Reply (topView cs (B.view s)) o (Stack.GetCash env B cs s o).1 ∧
        Keeps B (cs, s) (Stack.GetCash env B cs s o).2
  | [], s, _ => ⟨rfl, by simp [Stack.GetCash, views, hB.view_GetCash], trivial⟩
  | c :: cs, s, h => by
    obtain ⟨hr, hk⟩ := GetCash_spec hB o h.2
    refine ⟨?_, FetchCash_keeps env h hr hk⟩
    show Reply _ o (c.GetCash env (Stack.GetCash env B cs s) (cs, s) o).1
    rw [GetCash_fst env hr]
    exact ((B.view_unspent s).topView cs |>.layerView c).reply o

/-- On a layer, `GetCash` reports exactly what the layer shows. -/
theorem GetCash_top (hB : B.Lawful) {c : CCashViewCache} {cs : List CCashViewCache} {s : σ}
    (h : StackInv (c :: cs) (B.view s)) (o : COutPoint) :
    (Stack.GetCash env B (c :: cs) s o).1 = topView (c :: cs) (B.view s) o :=
  GetCash_fst env (GetCash_spec env hB o h.2).1

theorem HaveCash_keeps (hB : B.Lawful) {cs : List CCashViewCache} {s : σ}
    (h : StackInv cs (B.view s)) (o : COutPoint) :
    Keeps B (cs, s) (Stack.HaveCash env B cs s o).2 :=
  (GetCash_spec env hB o h).2

theorem AccessCash_ifUnspent {P : Type} (get : COutPoint → Option Cash × P) (p : P)
    (c : CCashViewCache) (o : COutPoint) :
    (c.AccessCash env get p o).1.ifUnspent = (c.GetCash env get p o).1 := by
  simp only [CCashViewCache.AccessCash, CCashViewCache.GetCash]
  cases (c.FetchCash env get p o).1 <;> rfl

/-- `AccessCash` on a layer returns a record that, when unspent, is what the layer shows, and
keeps every view and the invariant. -/
theorem AccessCash_spec (hB : B.Lawful) {c : CCashViewCache} {cs : List CCashViewCache} {s : σ}
    (h : StackInv (c :: cs) (B.view s)) (o : COutPoint) :
    (Stack.AccessCash env B (c :: cs) s o).1.ifUnspent = topView (c :: cs) (B.view s) o ∧
      Keeps B (c :: cs, s) (Stack.AccessCash env B (c :: cs) s o).2 := by
  obtain ⟨hr, hk⟩ := GetCash_spec env hB o h.2
  exact ⟨(AccessCash_ifUnspent env _ _ c o).trans (GetCash_fst env hr), FetchCash_keeps env h hr hk⟩

theorem GetBestBlock_keeps :
    ∀ {cs : List CCashViewCache} {s : σ}, StackInv cs (B.view s) →
      Keeps B (cs, s) (Stack.GetBestBlock B cs s).2
  | [], _, h => Keeps.refl h
  | c :: cs, s, h => by
    simp only [Stack.GetBestBlock, CCashViewCache.GetBestBlock]
    split
    · exact Keeps.cons (GetBestBlock_keeps h.2) h.1 rfl
    · exact Keeps.cons (Keeps.refl h.2) h.1 rfl

theorem Uncache_keeps {c : CCashViewCache} {cs : List CCashViewCache} {s : σ}
    (h : StackInv (c :: cs) (B.view s)) (o : COutPoint) :
    Keeps B (c :: cs, s) (Stack.Uncache env (c :: cs) o, s) :=
  have h' := h.1.Uncache env o
  Keeps.cons (Keeps.refl h.2) h'.1 h'.2

/-! ## A reached stack -/

/-- A test base holding one unspent record, of value `5`, at `(0, 0)`, with best block `7`. -/
def demoBase : CCashViewTest := ⟨7, AList.singleton ⟨0, 0⟩ ⟨⟨5, []⟩, false, 1⟩, []⟩

/-- A run in the manner of `cash_cache_simulation_test`: push a layer, add a record of value `7`
at `(0, 1)` without `possible_overwrite`, push another layer, and spend `(0, 0)` through both. -/
def demoOps : List Op :=
  [.push, .addCash ⟨0, 1⟩ ⟨⟨7, []⟩, false, 2⟩ false, .push, .spendCash ⟨0, 0⟩]

/-- The top layer `demoOps` leaves over `demoBase`: a `DIRTY` tombstone at `(0, 0)`. -/
def demoTop : CCashViewCache := ⟨0, AList.singleton ⟨0, 0⟩ ⟨cashEmpty, true, false⟩, 0⟩

/-- The layer below it: the base's record at `(0, 0)`, pulled up clean, and the added record,
`DIRTY|FRESH`, at `(0, 1)`. -/
def demoMid : CCashViewCache :=
  ⟨0, (AList.singleton ⟨0, 1⟩ ⟨⟨⟨7, []⟩, false, 2⟩, true, true⟩).insert
    ⟨0, 0⟩ ⟨⟨⟨5, []⟩, false, 1⟩, false, false⟩, 0⟩

theorem run_demoOps :
    run demoEnv testBase ([], demoBase) demoOps = .ok ([demoTop, demoMid], demoBase) := rfl

/-- Every operation of `demoOps` is allowed: `(0, 1)` shows nothing when the record is added
there without `possible_overwrite`. -/
theorem demoOps_allowed : AllowedRun demoEnv testBase ([], demoBase) demoOps :=
  ⟨trivial, fun _ h => by
    cases h
    exact ⟨fun _ => rfl, fun _ _ => ⟨trivial, fun _ _ => ⟨trivial, fun _ _ => trivial⟩⟩⟩⟩

theorem demoOps_inv : StackInv [demoTop, demoMid] (testBase.view demoBase) :=
  ⟨FlagInv.of_entries (by decide), FlagInv.of_entries (by decide), trivial⟩

/-! ## `AccessByTxid` -/

/-- The loop of `AccessByTxid` from index `n` with `k` indices to try: the first unspent record
the view shows, else `cashEmpty`; the stack keeps what it shows. -/
theorem accessByTxidFrom_spec (hB : B.Lawful) (txid : Uint256) :
    ∀ (k n : Nat) {c : CCashViewCache} {cs : List CCashViewCache} {s : σ},
      StackInv (c :: cs) (B.view s) →
      (Stack.accessByTxidFrom env B txid k n (c :: cs) s).1 =
          ((List.range' n k).findSome? fun i =>
            topView (c :: cs) (B.view s) ⟨txid, i.toUInt32⟩).getD cashEmpty ∧
        Keeps B (c :: cs, s) (Stack.accessByTxidFrom env B txid k n (c :: cs) s).2
  | 0, _, _, _, _, h => ⟨rfl, Keeps.refl h⟩
  | k + 1, n, c, cs, s, h => by
    obtain ⟨hfst, hk⟩ := AccessCash_spec env hB h ⟨txid, n.toUInt32⟩
    obtain ⟨c', cs', s', hst⟩ : ∃ c' cs' s',
        (Stack.AccessCash env B (c :: cs) s ⟨txid, n.toUInt32⟩).2 = (c' :: cs', s') :=
      ⟨_, _, _, rfl⟩
    simp only [Stack.accessByTxidFrom, List.range'_succ, List.findSome?_cons]
    cases hs : (Stack.AccessCash env B (c :: cs) s ⟨txid, n.toUInt32⟩).1.IsSpent
    · rw [Cash.ifUnspent_of_not_IsSpent hs] at hfst
      simp only [hs, Bool.not_false, if_true, ← hfst, Option.getD_some]
      exact ⟨trivial, hk⟩
    · rw [Cash.ifUnspent_of_IsSpent hs] at hfst
      rw [hst] at hk
      obtain ⟨ih, hk'⟩ := accessByTxidFrom_spec hB txid k (n + 1) hk.inv
      simp only [hs, Bool.not_true, Bool.false_eq_true, if_false, ← hfst, hst]
      rw [ih, topView_eq_of_views_eq hk.views_eq]
      exact ⟨rfl, hk.trans hk'⟩

/-- **`AccessByTxid` returns the lowest unspent output.** On a stack with the invariant over a
lawful base, `AccessByTxid` returns the record at `(txid, i)` for the least
`i < MAX_OUTPUTS_PER_BLOCK` whose record is unspent in the view, and `cashEmpty` when there is
none. -/
theorem AccessByTxid_first (hB : B.Lawful) {c : CCashViewCache} {cs : List CCashViewCache}
    {s : σ} (h : StackInv (c :: cs) (B.view s)) (txid : Uint256) :
    (Stack.AccessByTxid env B (c :: cs) s txid).1 =
      ((List.range env.MAX_OUTPUTS_PER_BLOCK.toNat).findSome? fun i =>
        topView (c :: cs) (B.view s) ⟨txid, i.toUInt32⟩).getD cashEmpty := by
  rw [List.range_eq_range']
  exact (accessByTxidFrom_spec env hB txid _ 0 h).1

theorem AccessByTxid_first_skips_tombstone :
    testBase.Lawful ∧ StackInv [demoTop, demoMid] (testBase.view demoBase) ∧
      (Stack.AccessByTxid demoEnv testBase [demoTop, demoMid] demoBase 0).1 =
        ((List.range demoEnv.MAX_OUTPUTS_PER_BLOCK.toNat).findSome? fun i =>
          topView [demoTop, demoMid] (testBase.view demoBase) ⟨0, i.toUInt32⟩).getD cashEmpty ∧
      (Stack.AccessByTxid demoEnv testBase [demoTop, demoMid] demoBase 0).1 =
        ⟨⟨7, []⟩, false, 2⟩ :=
  ⟨testBase_lawful, demoOps_inv, AccessByTxid_first demoEnv testBase_lawful demoOps_inv 0,
    rfl⟩

end SalemCash
