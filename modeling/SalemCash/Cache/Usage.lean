import SalemCash.Cache.Layer

/-!
# Memory accounting of a layer

The counter `cachedCashUsage` is kept equal to the usage summed over the entries (`UsageInv`) by
every method of a layer that returns normally, whatever its base answers: the base's replies
are inputs of the layer's operations (`LayerOp`).

* `UsageInv` and one preservation lemma per method;
* **`cachedCashUsage_run`**: after any run of operations that all return, the counter is the
  sum, `DynamicMemoryUsage` is what `SelfTest` recomputes, and `GetCacheSize` is the number of
  entries modulo `2^32` (its `unsigned int`); `GetCacheSize_wraps` is a layer of `2^32`
  entries, where it is `0`;
* **`AddCash_throw_leaks`**: the `logic_error` of `AddCash` is thrown after the counter was
  lowered, so it does not leave the layer as it was.
-/

namespace SalemCash

open CCashViewCache

variable (env : Env)

/-- The counter holds the summed usage of the entries. -/
def UsageInv (c : CCashViewCache) : Prop := c.cachedCashUsage = cashUsage env c.cacheCash

variable {env} {P : Type} {c : CCashViewCache}

theorem sub_add_of_add_eq {s' s a b : UInt64} (h : s' + a = s + b) : s' = s - a + b := by
  rw [sub_add_eq_add_sub, ← h, add_sub_cancel_right]

theorem emplaceAt_lookup (env : Env) (c : CCashViewCache) (o : COutPoint) :
    (c.emplaceAt env o).2.1.lookup o = some (c.emplaceAt env o).1 := by
  unfold emplaceAt; split <;> simp_all

theorem emplaceAt_usage (hc : UsageInv env c) (o : COutPoint) :
    (c.emplaceAt env o).2.2 + (c.emplaceAt env o).1.cash.DynamicMemoryUsage env =
      cashUsage env (c.emplaceAt env o).2.1 := by
  unfold emplaceAt
  split
  · simpa using hc
  · next h => simpa [defaultEntry, cashUsage_insert, erase_of_lookup_none h] using hc

namespace UsageInv

theorem fetchInto (hc : UsageInv env c) (o : COutPoint) (r : Option Cash)
    (hmiss : c.cacheCash.lookup o = none) : UsageInv env (c.fetchInto env o r).2 := by
  cases r with
  | none => exact hc
  | some tmp =>
    simp only [UsageInv, CCashViewCache.fetchInto]
    rw [cashUsage_insert, erase_of_lookup_none hmiss, ← hc, add_comm]
    rfl

theorem FetchCash (hc : UsageInv env c) (get : COutPoint → Option Cash × P) (p : P)
    (o : COutPoint) : UsageInv env (c.FetchCash env get p o).2.1 := by
  unfold CCashViewCache.FetchCash
  split
  · exact hc
  · exact hc.fetchInto _ _ ‹_›

theorem SpendCash (hc : UsageInv env c) (get : COutPoint → Option Cash × P) (p : P)
    (o : COutPoint) : UsageInv env (c.SpendCash env get p o).2.2.1 := by
  have hf := hc.FetchCash get p o
  have hl := FetchCash_fst env get c p o
  unfold CCashViewCache.SpendCash
  generalize c.FetchCash env get p o = r at hf hl
  obtain ⟨_ | e, c', p'⟩ := r
  · exact hf
  · simp only [UsageInv] at hf hl ⊢
    split
    · rw [hf, cashUsage_erase env hl.symm, add_sub_cancel_left]
    · rw [hf, sub_add_of_add_eq (cashUsage_replace env hl.symm)]
      simp

theorem AddCash (hc : UsageInv env c) {o : COutPoint} {cash : Cash} {po : Bool}
    {c' : CCashViewCache} (h : c.AddCash env o cash po = .ok c') : UsageInv env c' := by
  unfold CCashViewCache.AddCash at h
  split at h
  · cases h
  split at h
  · cases h; exact hc
  dsimp only at h
  split at h
  · cases h
  · cases h
    apply add_right_cancel (b := (c.emplaceAt env o).1.cash.DynamicMemoryUsage env)
    rw [cashUsage_replace env (emplaceAt_lookup env c o), ← emplaceAt_usage hc, add_right_comm]

theorem Uncache (hc : UsageInv env c) (o : COutPoint) : UsageInv env (c.Uncache env o) := by
  unfold CCashViewCache.Uncache
  split
  · next e h =>
    split
    · show _ - _ = _
      rw [hc, cashUsage_erase env h, add_sub_cancel_left]
    · exact hc
  · exact hc

theorem BatchWriteEntry (hc : UsageInv env c) {o : COutPoint} {child : CCashCacheEntry}
    {c' : CCashViewCache} (h : c.BatchWriteEntry env o child = .ok c') : UsageInv env c' := by
  unfold CCashViewCache.BatchWriteEntry at h
  split at h
  · cases h; exact hc
  split at h
  · next hl =>
    split at h <;> cases h
    · exact hc
    · show _ + _ = _
      rw [cashUsage_insert, erase_of_lookup_none hl, hc, add_comm]
  · next us hl =>
    split at h
    · cases h
    split at h <;> cases h
    · show _ - _ = _
      rw [hc, cashUsage_erase env hl, add_sub_cancel_left]
    · show _ - _ + _ = _
      rw [hc, sub_add_of_add_eq (cashUsage_replace env hl)]

theorem batchWriteLoop {l : List (Σ _ : COutPoint, CCashCacheEntry)} {c' : CCashViewCache}
    (hc : UsageInv env c) (h : batchWriteLoop env c l = .ok c') : UsageInv env c' := by
  induction l generalizing c with
  | nil => cases h; exact hc
  | cons x l ih =>
    obtain ⟨o, e⟩ := x
    obtain ⟨c1, h1, h⟩ := exceptBind_eq_ok h
    exact ih (hc.BatchWriteEntry h1) h

theorem BatchWrite (hc : UsageInv env c) {m : CCashMap} {h : Uint256} {r : Bool}
    {c' : CCashViewCache} {m' : CCashMap} (hw : c.BatchWrite env m h = .ok (r, c', m')) :
    UsageInv env c' := by
  obtain ⟨c'', hl, hr⟩ := exceptMap_eq_ok hw
  cases hr
  exact (hc.batchWriteLoop hl : UsageInv env c'')

end UsageInv

theorem UsageInv_new : UsageInv env CCashViewCache.new := rfl

theorem UsageInv.Flush {ε : Type} (batchWrite : CCashMap → Uint256 → Except ε (Bool × P))
    {r : Bool} {c' : CCashViewCache} {p' : P} (h : c.Flush batchWrite = .ok (r, c', p')) :
    UsageInv env c' := by
  obtain ⟨_, -, hr⟩ := exceptMap_eq_ok h
  cases hr
  rfl


/-! ## Runs of one layer -/

/-- The operations of a layer that the accounting covers. A call that asks the base carries the
base's answer, so the base is arbitrary. -/
inductive LayerOp
  | getCash (outpoint : COutPoint) (reply : Option Cash)
  | haveCash (outpoint : COutPoint) (reply : Option Cash)
  | accessCash (outpoint : COutPoint) (reply : Option Cash)
  | addCash (outpoint : COutPoint) (cash : Cash) (possible_overwrite : Bool)
  | spendCash (outpoint : COutPoint) (reply : Option Cash)
  | batchWrite (mapCash : CCashMap) (hashBlockIn : Uint256)
  | flush (fOk : Bool)
  | uncache (outpoint : COutPoint)
  | setBestBlock (hashBlockIn : Uint256)
  | getBestBlock (best : Uint256)

/-- A base that answers `reply` and has no state of its own. -/
def answer (reply : Option Cash) : COutPoint → Option Cash × Unit := fun _ => (reply, ())

variable (env)

/-- One operation on a layer. -/
def layerStep (c : CCashViewCache) : LayerOp → Except (Abort CCashViewCache) CCashViewCache
  | .getCash o r => .ok (c.GetCash env (answer r) () o).2.1
  | .haveCash o r => .ok (c.HaveCash env (answer r) () o).2.1
  | .accessCash o r => .ok (c.AccessCash env (answer r) () o).2.1
  | .addCash o cash po => c.AddCash env o cash po
  | .spendCash o r => .ok (c.SpendCash env (answer r) () o).2.2.1
  | .batchWrite m h => (c.BatchWrite env m h).map (·.2.1)
  | .flush fOk => (c.Flush fun _ _ => (.ok (fOk, ()) : Except (Abort CCashViewCache) _)).map (·.2.1)
  | .uncache o => .ok (c.Uncache env o)
  | .setBestBlock h => .ok (c.SetBestBlock h)
  | .getBestBlock best => .ok (c.GetBestBlock (best, ()) ()).2.1

/-- A run of operations on a layer, stopping at the first abnormal end. -/
def layerRun : CCashViewCache → List LayerOp → Except (Abort CCashViewCache) CCashViewCache
  | c, [] => .ok c
  | c, op :: ops => (layerStep env c op).bind fun c' => layerRun c' ops

variable {env}

theorem UsageInv.layerStep (hc : UsageInv env c) {op : LayerOp} {c' : CCashViewCache}
    (h : layerStep env c op = .ok c') : UsageInv env c' := by
  cases op with
  | getCash o r => cases h; exact hc.FetchCash _ () o
  | haveCash o r => cases h; exact hc.FetchCash _ () o
  | accessCash o r => cases h; exact hc.FetchCash _ () o
  | addCash o cash po => exact hc.AddCash h
  | spendCash o r => cases h; exact hc.SpendCash _ () o
  | batchWrite m hb =>
    obtain ⟨r, hr, rfl⟩ := exceptMap_eq_ok h
    exact hc.BatchWrite hr
  | flush fOk => cases h; rfl
  | uncache o => cases h; exact hc.Uncache o
  | setBestBlock hb => cases h; exact hc
  | getBestBlock best =>
    cases h
    unfold GetBestBlock
    split <;> exact hc

theorem UsageInv.layerRun {ops : List LayerOp} {c' : CCashViewCache} (hc : UsageInv env c)
    (h : layerRun env c ops = .ok c') : UsageInv env c' := by
  induction ops generalizing c with
  | nil => cases h; exact hc
  | cons op ops ih =>
    obtain ⟨c1, h1, h⟩ := exceptBind_eq_ok h
    exact ih (hc.layerStep h1) h

/-- **Memory accounting.** After any run of operations on a layer that all return normally, from
a layer whose counter holds the sum (as a new one does), the counter holds the sum,
`DynamicMemoryUsage` is what `SelfTest` recomputes, and `GetCacheSize` is the number of entries
modulo `2^32`. -/
theorem cachedCashUsage_run {ops : List LayerOp} {c' : CCashViewCache} (hc : UsageInv env c)
    (h : layerRun env c ops = .ok c') :
    c'.cachedCashUsage = cashUsage env c'.cacheCash ∧
      c'.DynamicMemoryUsage env = (c'.SelfTest env).1 ∧
      c'.GetCacheSize.toNat = c'.cacheCash.entries.length % 2 ^ 32 := by
  have hc' := hc.layerRun h
  refine ⟨hc', by rw [DynamicMemoryUsage, SelfTest, ← hc'], ?_⟩
  simp [GetCacheSize, Nat.toUInt32, UInt32.toNat, UInt32.ofNat]

theorem cachedCashUsage_run_add_spend :
    let ops : List LayerOp :=
      [.addCash ⟨0, 0⟩ ⟨⟨5, [1, 2, 3]⟩, false, 1⟩ false,
        .getCash ⟨0, 1⟩ (some ⟨⟨7, [4, 5]⟩, false, 2⟩), .spendCash ⟨0, 0⟩ none,
        .addCash ⟨0, 1⟩ ⟨⟨9, [6, 7, 8, 9]⟩, false, 3⟩ true]
    UsageInv demoEnv CCashViewCache.new ∧
      ∃ c', layerRun demoEnv CCashViewCache.new ops = .ok c' ∧ c'.cachedCashUsage = 4 ∧
        c'.cachedCashUsage = cashUsage demoEnv c'.cacheCash ∧
        c'.DynamicMemoryUsage demoEnv = (c'.SelfTest demoEnv).1 ∧
        c'.GetCacheSize.toNat = c'.cacheCash.entries.length % 2 ^ 32 := by
  intro ops
  have hrun : layerRun demoEnv CCashViewCache.new ops = .ok _ := rfl
  exact ⟨UsageInv_new, _, hrun, rfl, cachedCashUsage_run UsageInv_new hrun⟩

/-- `2^32` `FRESH` tombstones, at the outpoints `(0, i)`. -/
def wideEntries : List (Σ _ : COutPoint, CCashCacheEntry) :=
  (List.range (2 ^ 32)).map fun i => ⟨⟨0, i.toUInt32⟩, ⟨cashEmpty, false, true⟩⟩

theorem wideEntries_nodupKeys : wideEntries.NodupKeys := by
  unfold wideEntries List.NodupKeys List.keys
  rw [List.map_map]
  refine (List.nodup_range _).map_on fun i hi j hj hij => ?_
  have h := congrArg (fun x => x.n.toNat) hij
  simp only [Function.comp_apply, Nat.toUInt32] at h
  rwa [UInt32.toNat_ofNat_of_lt (List.mem_range.mp hi),
    UInt32.toNat_ofNat_of_lt (List.mem_range.mp hj)] at h

/-- A layer holding the `2^32` entries `wideEntries`, with its counter at their usage `0`. -/
def wideCache : CCashViewCache := ⟨0, ⟨wideEntries, wideEntries_nodupKeys⟩, 0⟩

theorem GetCacheSize_wraps :
    UsageInv demoEnv wideCache ∧ layerRun demoEnv wideCache [.setBestBlock 0] = .ok wideCache ∧
      wideCache.GetCacheSize.toNat ≠ wideCache.cacheCash.entries.length := by
  have hlen : wideCache.cacheCash.entries.length = 2 ^ 32 := by
    simp only [wideCache, wideEntries, List.length_map, List.length_range]
  refine ⟨?_, rfl, ?_⟩
  · unfold UsageInv cashUsage wideCache
    simp only [wideEntries, List.map_map, Function.comp_def, cashEmpty_DynamicMemoryUsage]
    rw [List.map_const', List.sum_replicate, nsmul_zero]
  · rw [GetCacheSize, hlen]
    decide

/-! ## `AddCash` over an unspent record -/

/-- **`AddCash` throws after lowering the counter.** Over a local unspent record, with
`possible_overwrite` false, the `logic_error` leaves the layer with the old record's usage taken
off its counter. -/
theorem AddCash_logicError {o : COutPoint} {cash : Cash} {e : CCashCacheEntry}
    (hcash : cash.IsSpent = false) (hsp : env.IsUnspendable cash.out.scriptPubKey = false)
    (he : c.cacheCash.lookup o = some e) (hune : e.cash.IsSpent = false) :
    c.AddCash env o cash false = .error (.logicError "Adding new cash that replaces non-pruned entry"
      { c with cachedCashUsage := c.cachedCashUsage - e.cash.DynamicMemoryUsage env }) := by
  simp [CCashViewCache.AddCash, emplaceAt, hcash, hsp, he, hune]

/-- A layer with one `DIRTY` unspent record of value `200` and a three-byte script at `(0, 0)`. -/
def dirtyCache : CCashViewCache where
  hashBlock := 0
  cacheCash := AList.singleton ⟨0, 0⟩ ⟨⟨⟨200, [1, 2, 3]⟩, false, 1⟩, true, false⟩
  cachedCashUsage := 3

theorem AddCash_throw_leaks :
    UsageInv demoEnv dirtyCache ∧
      dirtyCache.AddCash demoEnv ⟨0, 0⟩ ⟨⟨300, []⟩, false, 1⟩ false =
        .error (.logicError "Adding new cash that replaces non-pruned entry"
          { dirtyCache with cachedCashUsage := 0 }) ∧
      ({ dirtyCache with cachedCashUsage := 0 } : CCashViewCache).DynamicMemoryUsage demoEnv ≠
        (({ dirtyCache with cachedCashUsage := 0 } : CCashViewCache).SelfTest demoEnv).1 :=
  ⟨rfl, AddCash_logicError (e := ⟨⟨⟨200, [1, 2, 3]⟩, false, 1⟩, true, false⟩) rfl rfl rfl rfl,
    by decide⟩

end SalemCash
