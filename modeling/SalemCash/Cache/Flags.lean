import SalemCash.Cache.Stack

/-!
# The flag invariant of a layer

`FlagInv c pv` ties every entry of the layer `c` to `pv`, the view of the layer's parent:
a `FRESH` entry sits where the parent shows nothing, an entry with no flag set is an unspent copy
of what the parent shows, and a `FRESH` entry is spent exactly when it is not `DIRTY`.

For each method of a layer, with the parent's reply faithful to `pv` (`Reply`): it keeps the
invariant, and it changes what the layer shows only as the method says.

* `FlagInv.insert_map`, `FlagInv.replace_map`, `FlagInv.erase`: the invariant under one map
  update, and `layerView_insert`, `layerView_replace`, `layerView_erase`: the view under it;
* `overlay_self`: under the invariant, a layer's own `DIRTY` entries laid over its parent's
  view give the layer's view, so flushing it is invisible;
* `fetchInto`, `AddCash`, `SpendCash`, `Uncache`: effects on the view;
* **`BatchWrite_overlay`**: merging a child map into a layer that keeps the invariant does not
  throw, overlays the child's `DIRTY` entries on the view and keeps the invariant.
-/

namespace SalemCash

open CCashViewCache

/-- The three conditions an entry `e` at `o` meets against the parent view `pv`. -/
structure EntryOK (pv : COutPoint → Option Cash) (o : COutPoint) (e : CCashCacheEntry) : Prop where
  /-- A `FRESH` entry: the parent shows nothing at `o`. -/
  fresh : e.fresh = true → pv o = none
  /-- No flag set: an unspent copy of what the parent shows. -/
  clean : e.dirty = false → e.fresh = false → e.cash.IsSpent = false ∧ pv o = some e.cash
  /-- A `FRESH` entry is spent exactly when it is not `DIRTY`. -/
  freshSpent : e.fresh = true → e.cash.IsSpent = !e.dirty

instance (pv : COutPoint → Option Cash) (o : COutPoint) (e : CCashCacheEntry) :
    Decidable (EntryOK pv o e) :=
  decidable_of_iff ((e.fresh = true → pv o = none) ∧
      (e.dirty = false → e.fresh = false → e.cash.IsSpent = false ∧ pv o = some e.cash) ∧
      (e.fresh = true → e.cash.IsSpent = !e.dirty))
    ⟨fun ⟨a, b, c⟩ => ⟨a, b, c⟩, fun ⟨a, b, c⟩ => ⟨a, b, c⟩⟩

/-- Every entry of `c` meets the three conditions against the parent view `pv`. -/
def FlagInv (c : CCashViewCache) (pv : COutPoint → Option Cash) : Prop :=
  ∀ o e, c.cacheCash.lookup o = some e → EntryOK pv o e

/-- The invariant of a layer, checked over its list of entries. -/
theorem FlagInv.of_entries {c : CCashViewCache} {pv : COutPoint → Option Cash}
    (h : ∀ x ∈ c.cacheCash.entries, EntryOK pv x.1 x.2) : FlagInv c pv :=
  fun o e he => h ⟨o, e⟩ (AList.mem_lookup_iff.mp he)

/-- The parent's answer `r` to a read at `o` reports its view `pv` there, up to a spent record. -/
def Reply (pv : COutPoint → Option Cash) (o : COutPoint) (r : Option Cash) : Prop :=
  r.bind Cash.ifUnspent = pv o

variable {pv : COutPoint → Option Cash} {c : CCashViewCache} {o : COutPoint}

theorem FlagInv.insert_map {m : CCashMap} {e : CCashCacheEntry}
    (h : ∀ o' e', m.lookup o' = some e' → EntryOK pv o' e') (he : EntryOK pv o e) :
    ∀ o' e', (m.insert o e).lookup o' = some e' → EntryOK pv o' e' := by
  intro o' e' h'
  by_cases ho : o' = o
  · subst ho; simp only [AList.lookup_insert, Option.some.injEq] at h'; exact h' ▸ he
  · rw [AList.lookup_insert_ne ho] at h'; exact h o' e' h'

theorem FlagInv.replace_map {m : CCashMap} {e : CCashCacheEntry}
    (h : ∀ o' e', m.lookup o' = some e' → EntryOK pv o' e') (he : EntryOK pv o e) :
    ∀ o' e', (m.replace o e).lookup o' = some e' → EntryOK pv o' e' := by
  intro o' e' h'
  rw [lookup_replace] at h'
  split at h'
  · next ho => subst ho; obtain ⟨_, -, rfl⟩ := Option.map_eq_some'.mp h'; exact he
  · exact h o' e' h'

theorem FlagInv.erase (h : FlagInv c pv) (o : COutPoint) :
    ∀ o' e', (c.cacheCash.erase o).lookup o' = some e' → EntryOK pv o' e' := by
  intro o' e' h'
  by_cases ho : o' = o
  · subst ho; simp at h'
  · rw [AList.lookup_erase_ne ho] at h'; exact h o' e' h'

/-! ## What a layer shows -/

theorem layerView_of_lookup_some {e : CCashCacheEntry} (h : c.cacheCash.lookup o = some e) :
    layerView c pv o = e.cash.ifUnspent := by
  simp [layerView, h]

theorem layerView_of_lookup_none (h : c.cacheCash.lookup o = none) :
    layerView c pv o = pv o := by
  simp [layerView, h]

/-- A layer whose map has `e` put at `o` shows `e`'s record there and what it showed elsewhere. -/
theorem layerView_insert {c' : CCashViewCache} {e : CCashCacheEntry}
    (hm : c'.cacheCash = c.cacheCash.insert o e) :
    layerView c' pv = Function.update (layerView c pv) o e.cash.ifUnspent := by
  funext o'
  by_cases ho : o' = o
  · subst ho; simp [layerView, hm]
  · simp [layerView, hm, ho, AList.lookup_insert_ne ho]

theorem layerView_replace {c' : CCashViewCache} {e e' : CCashCacheEntry}
    (hm : c'.cacheCash = c.cacheCash.replace o e) (hl : c.cacheCash.lookup o = some e') :
    layerView c' pv = Function.update (layerView c pv) o e.cash.ifUnspent := by
  funext o'
  by_cases ho : o' = o
  · subst ho; simp [layerView, hm, hl]
  · simp [layerView, hm, ho]

/-- A layer whose map drops `o` shows the parent's view there. -/
theorem layerView_erase {c' : CCashViewCache} (hm : c'.cacheCash = c.cacheCash.erase o) :
    layerView c' pv = Function.update (layerView c pv) o (pv o) := by
  funext o'
  by_cases ho : o' = o
  · subst ho; simp [layerView, hm]
  · simp [layerView, hm, ho, AList.lookup_erase_ne ho]

/-- **Flushing is invisible.** Under the invariant, a layer's `DIRTY` entries laid over its
parent's view are exactly what the layer shows. -/
theorem overlay_self (h : FlagInv c pv) : overlay c.cacheCash pv = layerView c pv := by
  funext o
  rw [overlay_apply]
  cases he : c.cacheCash.lookup o with
  | none => simp [layerView, he]
  | some e =>
    have hok := h o e he
    rw [layerView_of_lookup_some he]
    show (if e.dirty then e.cash.ifUnspent else pv o) = e.cash.ifUnspent
    cases hd : e.dirty
    · cases hf : e.fresh
      · obtain ⟨hs, hp⟩ := hok.clean hd hf
        simp [hp, hs]
      · simp [hok.fresh hf, Cash.ifUnspent_of_IsSpent (by simpa [hd] using hok.freshSpent hf)]
    · simp

/-! ## Reads -/

variable (env : Env) {P : Type} {get : COutPoint → Option Cash × P} {p : P}

theorem FlagInv.fetchInto (h : FlagInv c pv) (hmiss : c.cacheCash.lookup o = none)
    {r : Option Cash} (hr : Reply pv o r) :
    FlagInv (c.fetchInto env o r).2 pv ∧ layerView (c.fetchInto env o r).2 pv = layerView c pv := by
  cases r with
  | none => exact ⟨h, rfl⟩
  | some tmp =>
    simp only [Reply, Option.some_bind] at hr
    refine ⟨FlagInv.insert_map h ⟨fun hf => ?_, fun _ hf => ?_, fun hf => ?_⟩, ?_⟩
    · simp only [fetchedEntry] at hf; rw [← hr, Cash.ifUnspent_of_IsSpent hf]
    · simp only [fetchedEntry] at hf ⊢; rw [← hr, Cash.ifUnspent_of_not_IsSpent hf]; exact ⟨hf, rfl⟩
    · simpa [fetchedEntry] using hf
    · rw [layerView_insert rfl]
      exact (Function.update_eq_self_iff (f := layerView c pv) (a := o)).mpr
        (hr.trans (layerView_of_lookup_none hmiss).symm)

theorem FlagInv.FetchCash (h : FlagInv c pv) (hr : Reply pv o (get o).1) :
    FlagInv (c.FetchCash env get p o).2.1 pv ∧
      layerView (c.FetchCash env get p o).2.1 pv = layerView c pv := by
  unfold CCashViewCache.FetchCash
  split
  · exact ⟨h, rfl⟩
  · exact h.fetchInto env ‹_› hr

/-- Below a layer, `FetchCash` leaves the base as it was or as the parent's `GetCash` left it:
what holds of both holds after. -/
theorem FetchCash_parent {Q : P → Prop} (get : COutPoint → Option Cash × P) (p : P) (hp : Q p)
    (hg : Q (get o).2) : Q (c.FetchCash env get p o).2.2 := by
  unfold CCashViewCache.FetchCash
  split
  exacts [hp, hg]

/-- What `GetCash` reports is what the layer shows. -/
theorem GetCash_fst (hr : Reply pv o (get o).1) :
    (c.GetCash env get p o).1 = layerView c pv o := by
  simp only [CCashViewCache.GetCash, CCashViewCache.FetchCash]
  split
  · next e he => simp [layerView_of_lookup_some he]
  · next he =>
    rw [layerView_of_lookup_none he, ← hr]
    cases (get o).1 <;> simp [CCashViewCache.fetchInto, fetchedEntry]

theorem view_of_FetchCash_none (hr : Reply pv o (get o).1)
    (hn : (c.FetchCash env get p o).1 = none) : layerView c pv o = none := by
  rw [← GetCash_fst env hr, CCashViewCache.GetCash, hn]
  rfl

/-! ## Writes -/

/-- **`AddCash` under the invariant.** Given an unspent record, and without
`possible_overwrite` only where the layer shows nothing, `AddCash` returns, keeps the invariant,
and shows the record at `o` unless its script is unspendable. -/
theorem FlagInv.AddCash (h : FlagInv c pv) {cash : Cash} {po : Bool}
    (hcash : cash.IsSpent = false) (hpo : po = false → layerView c pv o = none) :
    ∃ c', c.AddCash env o cash po = .ok c' ∧ FlagInv c' pv ∧
      layerView c' pv = if env.IsUnspendable cash.out.scriptPubKey = true then layerView c pv
        else Function.update (layerView c pv) o (some cash) := by
  unfold CCashViewCache.AddCash emplaceAt
  simp only [hcash, Bool.false_eq_true, if_false]
  by_cases hsp : env.IsUnspendable cash.out.scriptPubKey = true
  · simp only [hsp, if_true]; exact ⟨c, rfl, h, rfl⟩
  simp only [hsp, if_false]
  cases hl : c.cacheCash.lookup o with
  | some e =>
    have hok := h o e hl
    have hsp' : po = false → e.cash.IsSpent = true := fun hp => by
      have := hpo hp
      rw [layerView_of_lookup_some hl] at this
      simpa [Cash.ifUnspent] using this
    have hthrow : (!po && !e.cash.IsSpent) = false := by
      cases po
      · simp [hsp' rfl]
      · rfl
    simp only [hthrow, Bool.false_eq_true, if_false]
    refine ⟨_, rfl, FlagInv.replace_map h ⟨fun hf => ?_, fun hd _ => ?_, fun _ => hcash⟩, ?_⟩
    · cases hef : e.fresh
      · simp only [hef, Bool.false_or, Bool.and_eq_true, Bool.not_eq_true'] at hf
        have := (hok.clean hf.2 hef).1
        rw [hsp' hf.1] at this
        cases this
      · exact hok.fresh hef
    · cases hd
    · rw [layerView_replace rfl hl]
      simp [hcash]
  | none =>
    simp only [defaultEntry, cashEmpty_IsSpent, Bool.not_true, Bool.and_false, Bool.false_eq_true,
      if_false, replace_insert_self]
    refine ⟨_, rfl, FlagInv.insert_map h ⟨fun hf => ?_, fun hd _ => (by cases hd), fun _ => hcash⟩,
      ?_⟩
    · rw [← (layerView_of_lookup_none hl : layerView c pv _ = pv _)]
      exact hpo (by simpa using hf)
    · rw [layerView_insert rfl]
      simp [hcash]

theorem FlagInv.SpendCash (h : FlagInv c pv) (hr : Reply pv o (get o).1) :
    FlagInv (c.SpendCash env get p o).2.2.1 pv ∧
      layerView (c.SpendCash env get p o).2.2.1 pv = Function.update (layerView c pv) o none := by
  obtain ⟨h1, hv1⟩ := h.FetchCash env (p := p) hr
  have hfst := FetchCash_fst env get c p o
  have hnone := view_of_FetchCash_none env (c := c) (p := p) hr
  unfold CCashViewCache.SpendCash
  generalize c.FetchCash env get p o = r at h1 hv1 hfst hnone
  obtain ⟨_ | e, c1, p1⟩ := r
  · refine ⟨h1, ?_⟩
    rw [hv1]
    exact ((Function.update_eq_self_iff (f := layerView c pv) (a := o)).mpr (hnone rfl).symm).symm
  · dsimp only at h1 hv1 hfst ⊢
    have hok := h1 o e hfst.symm
    split
    · next hf => exact ⟨h1.erase o, by rw [layerView_erase rfl, hv1, hok.fresh hf]⟩
    · next hf =>
      refine ⟨FlagInv.replace_map h1 ⟨fun h' => absurd h' hf, fun hd _ => (by cases hd),
        fun h' => absurd h' hf⟩, ?_⟩
      rw [layerView_replace rfl hfst.symm, hv1]
      rfl

theorem FlagInv.Uncache (h : FlagInv c pv) (o : COutPoint) :
    FlagInv (c.Uncache env o) pv ∧ layerView (c.Uncache env o) pv = layerView c pv := by
  unfold CCashViewCache.Uncache
  split
  · next e he =>
    split
    · next hflags =>
      simp only [Bool.and_eq_true, Bool.not_eq_true'] at hflags
      obtain ⟨hs, hp⟩ := (h o e he).clean hflags.1 hflags.2
      refine ⟨h.erase o, ?_⟩
      rw [layerView_erase rfl, hp, ← Cash.ifUnspent_of_not_IsSpent hs,
        ← layerView_of_lookup_some he, Function.update_eq_self]
    · exact ⟨h, rfl⟩
  · exact ⟨h, rfl⟩

/-! ## Merging a child map -/

/-- One iteration of `BatchWrite`: with the invariant, and a `DIRTY|FRESH` child entry only where
the layer shows nothing, it returns, keeps the invariant and the hash, and shows the child's
record at `o` when the child entry is `DIRTY`. -/
theorem FlagInv.BatchWriteEntry (h : FlagInv c pv) {child : CCashCacheEntry}
    (hc : child.dirty = true → child.fresh = true → layerView c pv o = none) :
    ∃ c', c.BatchWriteEntry env o child = .ok c' ∧ FlagInv c' pv ∧ c'.hashBlock = c.hashBlock ∧
      layerView c' pv = if child.dirty then Function.update (layerView c pv) o child.cash.ifUnspent
        else layerView c pv := by
  unfold CCashViewCache.BatchWriteEntry
  cases hd : child.dirty
  · exact ⟨c, rfl, h, rfl, rfl⟩
  simp only [Bool.not_true, Bool.false_eq_true, if_false, if_true]
  cases hl : c.cacheCash.lookup o with
  | none =>
    have hv : layerView c pv o = pv o := layerView_of_lookup_none hl
    dsimp only
    split
    · next hfs =>
      simp only [Bool.and_eq_true] at hfs
      refine ⟨c, rfl, h, rfl, ?_⟩
      rw [Cash.ifUnspent_of_IsSpent hfs.2, ← hc hd hfs.1, Function.update_eq_self]
    · next hfs =>
      refine ⟨_, rfl, FlagInv.insert_map h ⟨fun hf => ?_, fun hd' _ => (by cases hd'),
        fun hf => ?_⟩, rfl, layerView_insert (e := ⟨child.cash, true, child.fresh⟩) rfl⟩
      · rw [← hv]; exact hc hd hf
      · simp only [Bool.and_eq_true, not_and, Bool.not_eq_true] at hfs
        simpa using hfs hf
  | some us =>
    have hok := h o us hl
    have hthrow : (child.fresh && !us.cash.IsSpent) = false := by
      cases hf : child.fresh
      · rfl
      · have := hc hd hf
        rw [layerView_of_lookup_some hl] at this
        simpa [Cash.ifUnspent] using this
    dsimp only
    simp only [hthrow, Bool.false_eq_true, if_false]
    split
    · next hfs =>
      simp only [Bool.and_eq_true] at hfs
      refine ⟨_, rfl, h.erase o, rfl, ?_⟩
      rw [layerView_erase rfl, hok.fresh hfs.1, Cash.ifUnspent_of_IsSpent hfs.2]
    · next hfs =>
      refine ⟨_, rfl, FlagInv.replace_map h ⟨fun hf => hok.fresh hf, fun hd' _ => (by cases hd'),
        fun hf => ?_⟩, rfl,
        layerView_replace (e := ⟨child.cash, true, us.fresh⟩) rfl hl⟩
      simp only [Bool.and_eq_true, not_and, Bool.not_eq_true] at hfs
      simpa using hfs hf

/-- The loop of `BatchWrite` over entries with distinct keys, each `DIRTY|FRESH` one where the
layer shows nothing: it returns, keeps the invariant and the hash, and overlays the entries. -/
theorem FlagInv.batchWriteLoop :
    ∀ {l : List (Σ _ : COutPoint, CCashCacheEntry)} {c : CCashViewCache}, l.NodupKeys →
      FlagInv c pv →
      (∀ o e, l.dlookup o = some e → e.dirty = true → e.fresh = true → layerView c pv o = none) →
      ∃ c', batchWriteLoop env c l = .ok c' ∧ FlagInv c' pv ∧ c'.hashBlock = c.hashBlock ∧
        layerView c' pv = overlayList l (layerView c pv)
  | [], c, _, h, _ => ⟨c, rfl, h, rfl, rfl⟩
  | ⟨o, e⟩ :: rest, c, hnd, h, hpre => by
    rw [List.nodupKeys_cons] at hnd
    obtain ⟨c1, h1, hinv1, hb1, hv1⟩ :=
      h.BatchWriteEntry env (hpre o e (List.dlookup_cons_eq _ _ _))
    have hpre1 : ∀ o' e', rest.dlookup o' = some e' → e'.dirty = true → e'.fresh = true →
        layerView c1 pv o' = none := by
      intro o' e' h' hd hf
      have hk : o' ∈ rest.keys := List.mem_keys_of_mem (List.of_mem_dlookup (Option.mem_def.mpr h'))
      have ho : o' ≠ o := fun ho => hnd.1 (ho ▸ hk)
      rw [hv1]
      have := hpre o' e' (by rw [List.dlookup_cons_ne rest (⟨o, e⟩ : Σ _ : COutPoint, _) ho]; exact h')
        hd hf
      split <;> simp [Function.update_noteq ho, this]
    obtain ⟨c', h', hinv', hb', hv'⟩ := FlagInv.batchWriteLoop hnd.2 hinv1 hpre1
    refine ⟨c', by simp [CCashViewCache.batchWriteLoop, h1, Except.bind, h'], hinv', hb'.trans hb1,
      ?_⟩
    rw [hv']
    funext o'
    by_cases ho : o' = o
    · subst ho
      have hn : rest.dlookup o' = none := List.dlookup_eq_none.mpr hnd.1
      simp only [overlayList, hn, List.dlookup_cons_eq, hv1]
      split <;> simp
    · rw [overlayList_congr (w := layerView c pv) (by rw [hv1]; split <;> simp [Function.update_noteq ho])]
      simp only [overlayList, List.dlookup_cons_ne rest (⟨o, e⟩ : Σ _ : COutPoint, _) ho]

/-- **`BatchWrite` merges as an overlay.** Into a layer that keeps the flag invariant, a child
map whose `DIRTY|FRESH` entries all sit where the layer shows nothing is merged without a
`logic_error`: `BatchWrite` returns `true` and drains the map, the layer shows the child's
`DIRTY` records (nothing for a spent one) laid over what it showed, keeps the invariant, and
takes the given hash. -/
theorem BatchWrite_overlay (h : FlagInv c pv) {m : CCashMap}
    (hm : ∀ o e, m.lookup o = some e → e.dirty = true → e.fresh = true → layerView c pv o = none)
    (hashBlockIn : Uint256) :
    ∃ c', c.BatchWrite env m hashBlockIn = .ok (true, c', ∅) ∧
      layerView c' pv = overlay m (layerView c pv) ∧ FlagInv c' pv ∧ c'.hashBlock = hashBlockIn := by
  obtain ⟨c', h', hinv', -, hv'⟩ := h.batchWriteLoop env m.nodupKeys hm
  exact ⟨{ c' with hashBlock := hashBlockIn }, by simp [CCashViewCache.BatchWrite, h', Except.map],
    hv', hinv', rfl⟩

theorem FlagInv_new : FlagInv CCashViewCache.new pv := fun o e h => by
  simp [CCashViewCache.new] at h

theorem BatchWrite_overlay_all_branches :
    let pv : COutPoint → Option Cash :=
      (AList.singleton (⟨0, 1⟩ : COutPoint) (⟨⟨7, []⟩, false, 2⟩ : Cash)).lookup
    let c : CCashViewCache := ⟨0, (AList.singleton ⟨0, 1⟩ ⟨⟨⟨7, []⟩, false, 2⟩, false, false⟩).insert
      ⟨0, 0⟩ ⟨⟨⟨5, []⟩, false, 1⟩, true, true⟩, 0⟩
    let m : CCashMap := (((AList.singleton ⟨0, 3⟩ ⟨⟨⟨4, []⟩, false, 1⟩, false, false⟩).insert
      ⟨0, 2⟩ ⟨⟨⟨3, []⟩, false, 1⟩, true, true⟩).insert ⟨0, 1⟩ ⟨⟨⟨9, []⟩, false, 3⟩, true, false⟩).insert
      ⟨0, 0⟩ ⟨cashEmpty, true, false⟩
    FlagInv c pv ∧
      (∀ o e, m.lookup o = some e → e.dirty = true → e.fresh = true → layerView c pv o = none) ∧
      ∃ c', c.BatchWrite demoEnv m 5 = .ok (true, c', ∅) ∧
        layerView c' pv = overlay m (layerView c pv) ∧ FlagInv c' pv ∧ c'.hashBlock = 5 := by
  intro pv c m
  have hc : FlagInv c pv := FlagInv.of_entries (by decide)
  have hm : ∀ o e, m.lookup o = some e → e.dirty = true → e.fresh = true →
      layerView c pv o = none := fun o e he =>
    (by decide : ∀ x ∈ m.entries, x.2.dirty = true → x.2.fresh = true → layerView c pv x.1 = none)
      ⟨o, e⟩ (AList.mem_lookup_iff.mp he)
  exact ⟨hc, hm, BatchWrite_overlay demoEnv hc hm 5⟩

end SalemCash
