import SalemCash.Cache.MergeError

/-!
# The merge, key by key

`CCashMap` is an `unordered_map` whose hasher is salted with random keys, so the loop of
`BatchWrite` visits the child's entries in an order that changes from one process to the next.
An iteration changes the layer only at its own outpoint, and reads nothing else, so the loop has
a meaning outpoint by outpoint, and the order drops out:

* `mergeEntry`, `mergeUsage`: what one iteration leaves at its outpoint and what it adds to the
  usage counter, read off the branches of `BatchWriteEntry`; `BatchWriteEntry_spec` says it does;
* `mergedEntry`, `batchWriteLoop_spec`: the loop over entries with distinct keys leaves at every
  outpoint the merge of the layer's entry with the child's there, and moves the counter by the
  sum of the iterations' changes; `BatchWrite_ok` says the same of `BatchWrite`;
* **`BatchWrite_perm`**: two layers that differ only in the order of their maps, merging child
  maps that differ only in order, throw in both or neither, and otherwise return the same
  result and layers that differ only in the order of their maps;
* **`batchWriteLoop_throw`**: a throw leaves the layer with the entries visited before the
  misapplied one merged, and no others.
-/

namespace SalemCash

open CCashViewCache

variable (env : Env)

/-- What one iteration of the loop of `BatchWrite` leaves at its outpoint, given the layer's entry
`us` there and the child's entry `child`, when it does not throw: the branches of
`BatchWriteEntry`. -/
def mergeEntry (us : Option CCashCacheEntry) (child : CCashCacheEntry) : Option CCashCacheEntry :=
  if !child.dirty then us
  else match us with
  | none => if child.fresh && child.cash.IsSpent then none else some ⟨child.cash, true, child.fresh⟩
  | some us =>
    if us.fresh && child.cash.IsSpent then none
    else some { us with cash := child.cash, dirty := true }

/-- What the same iteration adds to `cachedCashUsage`, in `size_t` arithmetic. -/
def mergeUsage (us : Option CCashCacheEntry) (child : CCashCacheEntry) : UInt64 :=
  if !child.dirty then 0
  else match us with
  | none => if child.fresh && child.cash.IsSpent then 0 else child.cash.DynamicMemoryUsage env
  | some us =>
    if us.fresh && child.cash.IsSpent then -us.cash.DynamicMemoryUsage env
    else child.cash.DynamicMemoryUsage env - us.cash.DynamicMemoryUsage env

/-- What the loop over the child's entries `l` leaves at `o` in the layer `c`: the merge of `c`'s
entry with the child's there, and `c`'s entry where the child has none. -/
def mergedEntry (c : CCashViewCache) (l : List (Σ _ : COutPoint, CCashCacheEntry))
    (o : COutPoint) : Option CCashCacheEntry :=
  match l.dlookup o with
  | some e => mergeEntry (c.cacheCash.lookup o) e
  | none => c.cacheCash.lookup o

/-- Two layers that are the same `CCashViewCache` up to the order of their maps' entries. -/
structure SameLayer (c₁ c₂ : CCashViewCache) : Prop where
  hashBlock : c₁.hashBlock = c₂.hashBlock
  entries : c₁.cacheCash.entries.Perm c₂.cacheCash.entries
  cachedCashUsage : c₁.cachedCashUsage = c₂.cachedCashUsage

theorem SameLayer.lookup {c₁ c₂ : CCashViewCache} (h : SameLayer c₁ c₂) (o : COutPoint) :
    c₁.cacheCash.lookup o = c₂.cacheCash.lookup o :=
  List.perm_dlookup o c₁.cacheCash.nodupKeys c₂.cacheCash.nodupKeys h.entries

/-! ## One iteration -/

/-- **One iteration, at its outpoint.** An iteration that does not throw keeps the best block,
leaves `mergeEntry` at its outpoint and adds `mergeUsage` to the counter; elsewhere it changes
nothing (`BatchWriteEntry_lookup_ne`). -/
theorem BatchWriteEntry_spec {c : CCashViewCache} {o : COutPoint} {e : CCashCacheEntry}
    (h : freshMisapplied c o e = false) :
    ∃ c', c.BatchWriteEntry env o e = .ok c' ∧ c'.hashBlock = c.hashBlock ∧
      c'.cachedCashUsage = c.cachedCashUsage + mergeUsage env (c.cacheCash.lookup o) e ∧
      c'.cacheCash.lookup o = mergeEntry (c.cacheCash.lookup o) e := by
  unfold CCashViewCache.BatchWriteEntry mergeUsage mergeEntry
  cases hd : e.dirty
  · exact ⟨c, rfl, rfl, (add_zero _).symm, rfl⟩
  simp only [Bool.not_true, Bool.false_eq_true, if_false]
  cases hl : c.cacheCash.lookup o with
  | none =>
    dsimp only
    split <;> rename_i hfs <;> exact ⟨_, rfl, rfl, by simp [hfs], by simp [hfs, hl]⟩
  | some us =>
    have hthrow : (e.fresh && !us.cash.IsSpent) = false := by
      simpa [freshMisapplied, hd, hl] using h
    dsimp only
    simp only [hthrow, Bool.false_eq_true, if_false]
    split
    · exact ⟨_, rfl, rfl, sub_eq_add_neg _ _, AList.lookup_erase _ _⟩
    · exact ⟨_, rfl, rfl, by rw [sub_add_eq_add_sub, add_sub_assoc], lookup_replace_self hl⟩

/-! ## The loop -/

/-- An entry of the rest of a list with distinct keys is not at the head's key. -/
theorem key_ne_of_mem {o : COutPoint} {e : CCashCacheEntry}
    {rest : List (Σ _ : COutPoint, CCashCacheEntry)} (hnd : (⟨o, e⟩ :: rest).NodupKeys)
    {x : Σ _ : COutPoint, CCashCacheEntry} (hx : x ∈ rest) : x.1 ≠ o := by
  have hk : x.1 ∈ rest.keys := List.mem_keys_of_mem hx
  exact fun h => (List.nodupKeys_cons.mp hnd).1 (h ▸ hk)

theorem any_freshMisapplied_congr {c c' : CCashViewCache}
    {l : List (Σ _ : COutPoint, CCashCacheEntry)}
    (h : ∀ x ∈ l, c'.cacheCash.lookup x.1 = c.cacheCash.lookup x.1) :
    (l.any fun x => freshMisapplied c' x.1 x.2) = l.any fun x => freshMisapplied c x.1 x.2 := by
  rw [Bool.eq_iff_iff, List.any_eq_true, List.any_eq_true]
  exact exists_congr fun x => and_congr_right fun hx => by rw [freshMisapplied_congr x.2 (h x hx)]

/-- The merge over the entries after an iteration at `o`, from the layer that iteration leaves,
is the merge over all of them from the layer before it. -/
theorem mergedEntry_cons {o : COutPoint} {e : CCashCacheEntry}
    {l : List (Σ _ : COutPoint, CCashCacheEntry)} {c c1 : CCashViewCache}
    (hnd : (⟨o, e⟩ :: l).NodupKeys) (h1 : c.BatchWriteEntry env o e = .ok c1)
    (hl1 : c1.cacheCash.lookup o = mergeEntry (c.cacheCash.lookup o) e) (o' : COutPoint) :
    mergedEntry c1 l o' = mergedEntry c (⟨o, e⟩ :: l) o' := by
  by_cases ho : o' = o
  · subst ho
    simp [mergedEntry, List.dlookup_eq_none.mpr (List.nodupKeys_cons.mp hnd).1, hl1]
  · simp [mergedEntry, List.dlookup_cons_ne l ⟨o, e⟩ ho, BatchWriteEntry_lookup_ne env h1 ho]

/-- **The loop, key by key.** Over entries with distinct keys, none of them misapplied against
the layer, the loop returns, keeps the best block, leaves `mergedEntry` at every outpoint and
adds the iterations' `mergeUsage`, each taken against the layer it started from. -/
theorem batchWriteLoop_spec :
    ∀ {l : List (Σ _ : COutPoint, CCashCacheEntry)} {c : CCashViewCache}, l.NodupKeys →
      (l.any fun x => freshMisapplied c x.1 x.2) = false →
      ∃ c', batchWriteLoop env c l = .ok c' ∧ c'.hashBlock = c.hashBlock ∧
        c'.cachedCashUsage =
          c.cachedCashUsage + (l.map fun x => mergeUsage env (c.cacheCash.lookup x.1) x.2).sum ∧
        ∀ o, c'.cacheCash.lookup o = mergedEntry c l o
  | [], c, _, _ => ⟨c, rfl, rfl, (add_zero _).symm, fun _ => rfl⟩
  | ⟨o, e⟩ :: rest, c, hnd, hany => by
    simp only [List.any_cons, Bool.or_eq_false_iff] at hany
    obtain ⟨c1, h1, hh1, hu1, hl1⟩ := BatchWriteEntry_spec env hany.1
    have hrest : ∀ x ∈ rest, c1.cacheCash.lookup x.1 = c.cacheCash.lookup x.1 :=
      fun x hx => BatchWriteEntry_lookup_ne env h1 (key_ne_of_mem hnd hx)
    obtain ⟨c2, h2, hh2, hu2, hl2⟩ := batchWriteLoop_spec (List.nodupKeys_cons.mp hnd).2
      ((any_freshMisapplied_congr hrest).trans hany.2)
    refine ⟨c2, by simp only [batchWriteLoop, h1, Except.bind, h2], hh2.trans hh1, ?_,
      fun o' => (hl2 o').trans (mergedEntry_cons env hnd h1 hl1 o')⟩
    rw [hu2, hu1, List.map_congr_left fun x hx => by rw [hrest x hx], List.map_cons,
      List.sum_cons, add_assoc]

/-! ## The iteration order -/

theorem freshMisapplied_any_perm {c₁ c₂ : CCashViewCache} (hc : SameLayer c₁ c₂)
    {l₁ l₂ : List (Σ _ : COutPoint, CCashCacheEntry)} (hl : l₁.Perm l₂) :
    (l₁.any fun x => freshMisapplied c₁ x.1 x.2) = l₂.any fun x => freshMisapplied c₂ x.1 x.2 := by
  have h : (fun x : Σ _ : COutPoint, CCashCacheEntry => freshMisapplied c₂ x.1 x.2) =
      fun x => freshMisapplied c₁ x.1 x.2 :=
    funext fun x => freshMisapplied_congr x.2 (hc.lookup x.1).symm
  rw [h, Bool.eq_iff_iff, List.any_eq_true, List.any_eq_true]
  exact exists_congr fun _ => and_congr_left' hl.mem_iff

/-- `BatchWrite` returns exactly when no entry of the child map is misapplied against the layer. -/
theorem BatchWrite_toBool (c : CCashViewCache) (m : CCashMap) (hashBlockIn : Uint256) :
    (c.BatchWrite env m hashBlockIn).toBool =
      !m.entries.any fun x => freshMisapplied c x.1 x.2 := by
  unfold CCashViewCache.BatchWrite
  rw [← batchWriteLoop_toBool env m.nodupKeys]
  cases batchWriteLoop env c m.entries <;> rfl

/-- **`BatchWrite`, key by key.** When `BatchWrite` returns, it returns `true`, an empty child
map and the layer with the new best block, `mergedEntry` at every outpoint and the counter moved
by the iterations' `mergeUsage`. -/
theorem BatchWrite_ok {c : CCashViewCache} {m : CCashMap} {hashBlockIn : Uint256}
    {r : Bool × CCashViewCache × CCashMap} (h : c.BatchWrite env m hashBlockIn = .ok r) :
    ∃ c', r = (true, c', ∅) ∧ c'.hashBlock = hashBlockIn ∧
      c'.cachedCashUsage = c.cachedCashUsage +
        (m.entries.map fun x => mergeUsage env (c.cacheCash.lookup x.1) x.2).sum ∧
      ∀ o, c'.cacheCash.lookup o = mergedEntry c m.entries o := by
  have hf : (m.entries.any fun x => freshMisapplied c x.1 x.2) = false := by
    simpa [h, Except.toBool] using (BatchWrite_toBool env c m hashBlockIn).symm
  obtain ⟨c', hl, -, hu, hlk⟩ := batchWriteLoop_spec env m.nodupKeys hf
  unfold CCashViewCache.BatchWrite at h
  rw [hl] at h
  cases h
  exact ⟨_, rfl, rfl, hu, hlk⟩

/-- **The merge does not depend on the iteration order.** Two layers that differ only in the
order of their maps, merging child maps that differ only in order (as the salted hash of
`CCashMap` may visit them), throw in both or in neither; when both return, the results agree
and the layers differ only in the order of their maps: the same best block, the same entries
and the same usage counter. -/
theorem BatchWrite_perm {c₁ c₂ : CCashViewCache} (hc : SameLayer c₁ c₂) {m₁ m₂ : CCashMap}
    (hm : m₁.entries.Perm m₂.entries) (hashBlockIn : Uint256) :
    (c₁.BatchWrite env m₁ hashBlockIn).toBool = (c₂.BatchWrite env m₂ hashBlockIn).toBool ∧
      ∀ r₁ r₂, c₁.BatchWrite env m₁ hashBlockIn = .ok r₁ →
        c₂.BatchWrite env m₂ hashBlockIn = .ok r₂ →
        r₁.1 = r₂.1 ∧ SameLayer r₁.2.1 r₂.2.1 ∧ r₁.2.2 = r₂.2.2 := by
  refine ⟨by rw [BatchWrite_toBool, BatchWrite_toBool, freshMisapplied_any_perm hc hm],
    fun r₁ r₂ h₁ h₂ => ?_⟩
  obtain ⟨c₁', rfl, hh₁, hu₁, hl₁⟩ := BatchWrite_ok env h₁
  obtain ⟨c₂', rfl, hh₂, hu₂, hl₂⟩ := BatchWrite_ok env h₂
  refine ⟨rfl, ⟨hh₁.trans hh₂.symm, ?entries, ?usage⟩, rfl⟩
  case entries =>
    refine List.lookup_ext c₁'.cacheCash.nodupKeys c₂'.cacheCash.nodupKeys fun o e => ?_
    show e ∈ c₁'.cacheCash.lookup o ↔ e ∈ c₂'.cacheCash.lookup o
    rw [hl₁, hl₂, mergedEntry, mergedEntry, hc.lookup,
      List.perm_dlookup o m₁.nodupKeys m₂.nodupKeys hm]
  case usage =>
    rw [hu₁, hu₂, hc.cachedCashUsage, List.map_congr_left fun x _ => by rw [hc.lookup],
      (hm.map _).sum_eq]

theorem BatchWrite_perm_swapped :
    let m₁ : CCashMap := ((∅ : CCashMap).insert ⟨0, 0⟩ ⟨⟨⟨5, []⟩, false, 1⟩, true, false⟩).insert
      ⟨0, 1⟩ ⟨cashEmpty, true, true⟩
    let m₂ : CCashMap := ((∅ : CCashMap).insert ⟨0, 1⟩ ⟨cashEmpty, true, true⟩).insert
      ⟨0, 0⟩ ⟨⟨⟨5, []⟩, false, 1⟩, true, false⟩
    m₁.entries ≠ m₂.entries ∧ SameLayer CCashViewCache.new CCashViewCache.new ∧
      m₁.entries.Perm m₂.entries ∧
      (CCashViewCache.new.BatchWrite demoEnv m₁ 0).toBool =
        (CCashViewCache.new.BatchWrite demoEnv m₂ 0).toBool ∧
      ∀ r₁ r₂, CCashViewCache.new.BatchWrite demoEnv m₁ 0 = .ok r₁ →
        CCashViewCache.new.BatchWrite demoEnv m₂ 0 = .ok r₂ →
        r₁.1 = r₂.1 ∧ SameLayer r₁.2.1 r₂.2.1 ∧ r₁.2.2 = r₂.2.2 :=
  have hc : SameLayer CCashViewCache.new CCashViewCache.new := ⟨rfl, List.Perm.refl _, rfl⟩
  ⟨by decide, hc, AList.insert_insert_of_ne _ (by decide),
    BatchWrite_perm demoEnv hc (AList.insert_insert_of_ne _ (by decide)) 0⟩

/-! ## What a throw leaves -/

/-- **What a throw leaves.** When the loop over entries with distinct keys throws, it throws the
`logic_error` at the first entry misapplied against the layer it started from, and the layer it
leaves has exactly the entries visited before that one merged: `mergedEntry` of them at every
outpoint. -/
theorem batchWriteLoop_throw :
    ∀ {l : List (Σ _ : COutPoint, CCashCacheEntry)} {c : CCashViewCache}
      {err : Abort CCashViewCache}, l.NodupKeys → batchWriteLoop env c l = .error err →
      ∃ pre x post c', l = pre ++ x :: post ∧
        (pre.any fun y => freshMisapplied c y.1 y.2) = false ∧ freshMisapplied c x.1 x.2 = true ∧
        (∀ o, c'.cacheCash.lookup o = mergedEntry c pre o) ∧
        err = .logicError
          "FRESH flag misapplied to cache entry for base transaction with spendable outputs" c'
  | [], _, _, _, h => by cases h
  | ⟨o, e⟩ :: rest, c, err, hnd, h => by
    cases hfm : freshMisapplied c o e with
    | true =>
      have he := BatchWriteEntry_toBool env c o e
      cases h1 : c.BatchWriteEntry env o e with
      | ok c1 => simp [h1, hfm, Except.toBool] at he
      | error err' =>
        simp only [batchWriteLoop, h1, Except.bind, Except.error.injEq] at h
        exact ⟨[], ⟨o, e⟩, rest, c, rfl, rfl, hfm, fun _ => rfl, h ▸ BatchWriteEntry_error env h1⟩
    | false =>
      obtain ⟨c1, h1, -, -, hl1⟩ := BatchWriteEntry_spec env hfm
      simp only [batchWriteLoop, h1, Except.bind] at h
      have hrest : ∀ x ∈ rest, c1.cacheCash.lookup x.1 = c.cacheCash.lookup x.1 :=
        fun x hx => BatchWriteEntry_lookup_ne env h1 (key_ne_of_mem hnd hx)
      obtain ⟨pre, x, post, c', rfl, hpre, hx, hl', rfl⟩ :=
        batchWriteLoop_throw (List.nodupKeys_cons.mp hnd).2 h
      have hnd' : (⟨o, e⟩ :: pre).NodupKeys :=
        hnd.sublist ((List.sublist_append_left pre (x :: post)).cons₂ _)
      refine ⟨⟨o, e⟩ :: pre, x, post, c', rfl, ?_, ?_,
        fun o' => (hl' o').trans (mergedEntry_cons env hnd' h1 hl1 o'), rfl⟩
      · rw [List.any_cons, hfm, Bool.false_or, ← hpre]
        exact (any_freshMisapplied_congr fun y hy => hrest y (by simp [hy])).symm
      · rw [← hx, freshMisapplied_congr x.2 (hrest x (by simp))]

theorem batchWriteLoop_throw_second :
    let c : CCashViewCache := ⟨0, AList.singleton ⟨0, 0⟩ ⟨⟨⟨5, []⟩, false, 1⟩, false, false⟩, 1⟩
    let l : List (Σ _ : COutPoint, CCashCacheEntry) :=
      [⟨⟨0, 1⟩, ⟨⟨⟨7, []⟩, false, 1⟩, true, false⟩⟩, ⟨⟨0, 0⟩, ⟨⟨⟨9, []⟩, false, 1⟩, true, true⟩⟩]
    l.NodupKeys ∧ ∃ err, batchWriteLoop demoEnv c l = .error err ∧
      ∃ pre x post c', l = pre ++ x :: post ∧
        (pre.any fun y => freshMisapplied c y.1 y.2) = false ∧ freshMisapplied c x.1 x.2 = true ∧
        (∀ o, c'.cacheCash.lookup o = mergedEntry c pre o) ∧
        err = .logicError
          "FRESH flag misapplied to cache entry for base transaction with spendable outputs" c' :=
  have hnd : List.NodupKeys [(⟨⟨0, 1⟩, ⟨⟨⟨7, []⟩, false, 1⟩, true, false⟩⟩ :
      Σ _ : COutPoint, CCashCacheEntry), ⟨⟨0, 0⟩, ⟨⟨⟨9, []⟩, false, 1⟩, true, true⟩⟩] := by
    simp [List.NodupKeys]
  ⟨hnd, _, rfl, batchWriteLoop_throw demoEnv hnd rfl⟩

end SalemCash
