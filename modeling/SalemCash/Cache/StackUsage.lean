import SalemCash.Cache.Refinement
import SalemCash.Cache.Usage

/-!
# Memory accounting on a stack

The usage counter of every layer holds through every run of a stack that returns, over any base:
a read pulls entries into every layer it passes, a flush merges a layer into its parent, and each
of these keeps each layer's counter at the summed usage of its records.

* `UsageAll`: every layer's counter holds the summed usage of its records;
* `UsageAll.step`, `UsageAll.run`: an operation that returns keeps it;
* **`DynamicMemoryUsage_run`**: after any run of a stack that returns, every layer's
  `DynamicMemoryUsage` is what `SelfTest` recomputes.
-/

namespace SalemCash

open CCashViewCache

variable {σ : Type} (env : Env) (B : BaseView σ)

/-- Every layer's counter holds the summed usage of its records. -/
def UsageAll (cs : List CCashViewCache) : Prop := ∀ c ∈ cs, UsageInv env c

variable {env B}

theorem UsageAll.cons {c : CCashViewCache} {cs : List CCashViewCache} :
    UsageAll env (c :: cs) ↔ UsageInv env c ∧ UsageAll env cs :=
  List.forall_mem_cons

theorem UsageAll.GetCash (o : COutPoint) :
    ∀ (cs : List CCashViewCache) (s : σ), UsageAll env cs →
      UsageAll env (Stack.GetCash env B cs s o).2.1
  | [], _, h => h
  | _ :: cs, s, h =>
    have ⟨hc, hcs⟩ := UsageAll.cons.mp h
    UsageAll.cons.mpr ⟨hc.FetchCash _ _ o,
      FetchCash_parent env (Q := fun st : List CCashViewCache × σ => UsageAll env st.1) _ _ hcs
        (UsageAll.GetCash o cs s hcs)⟩

theorem UsageAll.AccessCash (o : COutPoint) (cs : List CCashViewCache) (s : σ)
    (h : UsageAll env cs) : UsageAll env (Stack.AccessCash env B cs s o).2.1 := by
  cases cs with
  | nil => exact h
  | cons c cs => exact UsageAll.GetCash o (c :: cs) s h

theorem UsageAll.SpendCash (o : COutPoint) (cs : List CCashViewCache) (s : σ)
    (h : UsageAll env cs) : UsageAll env (Stack.SpendCash env B cs s o).2.2.1 := by
  cases cs with
  | nil => exact h
  | cons c cs =>
    obtain ⟨hc, hcs⟩ := UsageAll.cons.mp h
    exact UsageAll.cons.mpr ⟨hc.SpendCash _ _ o,
      SpendCash_parent env (Q := fun st : List CCashViewCache × σ => UsageAll env st.1) _ _ c o
        hcs (UsageAll.GetCash o cs s hcs)⟩

theorem UsageAll.Uncache (o : COutPoint) (cs : List CCashViewCache) (h : UsageAll env cs) :
    UsageAll env (Stack.Uncache env cs o) := by
  cases cs with
  | nil => exact h
  | cons c cs =>
    obtain ⟨hc, hcs⟩ := UsageAll.cons.mp h
    exact UsageAll.cons.mpr ⟨hc.Uncache o, hcs⟩

theorem UsageAll.GetBestBlock :
    ∀ (cs : List CCashViewCache) (s : σ), UsageAll env cs →
      UsageAll env (Stack.GetBestBlock B cs s).2.1
  | [], _, h => h
  | c :: cs, s, h => by
    obtain ⟨hc, hcs⟩ := UsageAll.cons.mp h
    simp only [Stack.GetBestBlock, CCashViewCache.GetBestBlock]
    split
    · exact UsageAll.cons.mpr ⟨hc, UsageAll.GetBestBlock cs s hcs⟩
    · exact h

theorem UsageAll.accessByTxidFrom (txid : Uint256) :
    ∀ (k n : Nat) (cs : List CCashViewCache) (s : σ), UsageAll env cs →
      UsageAll env (Stack.accessByTxidFrom env B txid k n cs s).2.1
  | 0, _, _, _, h => h
  | k + 1, n, cs, s, h => by
    have h1 := UsageAll.AccessCash (B := B) ⟨txid, n.toUInt32⟩ cs s h
    simp only [Stack.accessByTxidFrom]
    split
    · exact h1
    · exact UsageAll.accessByTxidFrom txid k (n + 1) _ _ h1

theorem UsageAll.BatchWrite {cs : List CCashViewCache} {s : σ} {m : CCashMap} {hash : Uint256}
    {r : Bool × List CCashViewCache × σ} (h : UsageAll env cs)
    (hw : Stack.BatchWrite env B cs s m hash = .ok r) : UsageAll env r.2.1 := by
  cases cs with
  | nil => cases hw; exact h
  | cons p cs =>
    obtain ⟨hp, hcs⟩ := UsageAll.cons.mp h
    cases hp' : p.BatchWrite env m hash with
    | error e => simp [Stack.BatchWrite, hp'] at hw
    | ok r' =>
      simp only [Stack.BatchWrite, hp', Except.ok.injEq] at hw
      subst hw
      exact UsageAll.cons.mpr ⟨hp.BatchWrite hp', hcs⟩

theorem UsageAll.Flush {cs : List CCashViewCache} {s : σ} {r : Bool × List CCashViewCache × σ}
    (h : UsageAll env cs) (hf : Stack.Flush env B cs s = .ok r) : UsageAll env r.2.1 := by
  cases cs with
  | nil => cases hf; exact h
  | cons c cs =>
    obtain ⟨r1, hr1, rfl⟩ := exceptMap_eq_ok hf
    have htop : UsageInv env r1.2.1 := UsageInv.Flush _ hr1
    obtain ⟨r2, hr2, rfl⟩ := exceptMap_eq_ok hr1
    exact UsageAll.cons.mpr ⟨htop, UsageAll.BatchWrite (UsageAll.cons.mp h).2 hr2⟩

theorem UsageAll.atDepth {f : List CCashViewCache → σ → Except (Abort Unit) (List CCashViewCache × σ)}
    (hf : ∀ cs s st', UsageAll env cs → f cs s = .ok st' → UsageAll env st'.1) :
    ∀ (j : Nat) (cs : List CCashViewCache) (s : σ) (st' : List CCashViewCache × σ),
      UsageAll env cs → atDepth f j cs s = .ok st' → UsageAll env st'.1
  | 0, [], _, _, h, hr | _ + 1, [], _, _, h, hr => by cases hr; exact h
  | 0, c :: cs, s, st', h, hr => hf _ _ _ h hr
  | j + 1, c :: cs, s, st', h, hr => by
    obtain ⟨hc, hcs⟩ := UsageAll.cons.mp h
    obtain ⟨r, hr', rfl⟩ := exceptMap_eq_ok hr
    exact UsageAll.cons.mpr ⟨hc, UsageAll.atDepth hf j cs s r hcs hr'⟩

/-- A read at any depth keeps every layer's counter when it keeps it at the top. -/
theorem UsageAll.atDepth_read {F : List CCashViewCache → σ → List CCashViewCache × σ}
    (hF : ∀ cs s, UsageAll env cs → UsageAll env (F cs s).1) {j : Nat} {cs : List CCashViewCache}
    {s : σ} {st' : List CCashViewCache × σ} (h : UsageAll env cs)
    (hr : SalemCash.atDepth (fun cs s => .ok (F cs s)) j cs s = .ok st') : UsageAll env st'.1 :=
  UsageAll.atDepth (fun cs s _ h hr => by cases hr; exact hF cs s h) j cs s st' h hr

/-- Every operation of a stack that returns keeps every layer's counter. -/
theorem UsageAll.step {st st' : List CCashViewCache × σ} {op : Op} (h : UsageAll env st.1)
    (hs : step env B st op = .ok st') : UsageAll env st'.1 := by
  obtain ⟨cs, s⟩ := st
  cases op with
  | addCash o cash po =>
    cases cs with
    | nil => cases hs; exact h
    | cons c cs =>
      obtain ⟨hc, hcs⟩ := UsageAll.cons.mp h
      cases hc' : c.AddCash env o cash po with
      | error e => simp [SalemCash.step, Stack.AddCash, hc'] at hs
      | ok c' =>
        simp only [SalemCash.step, Stack.AddCash, hc', Except.ok.injEq] at hs
        subst hs
        exact UsageAll.cons.mpr ⟨hc.AddCash hc', hcs⟩
  | spendCash o => cases hs; exact UsageAll.SpendCash o cs s h
  | setBestBlock hash =>
    cases cs with
    | nil => cases hs; exact h
    | cons c cs =>
      cases hs
      obtain ⟨hc, hcs⟩ := UsageAll.cons.mp h
      exact UsageAll.cons.mpr ⟨hc, hcs⟩
  | getBestBlock j => exact UsageAll.atDepth_read UsageAll.GetBestBlock h hs
  | getCash j o | haveCash j o => exact UsageAll.atDepth_read (UsageAll.GetCash o) h hs
  | accessCash j o => exact UsageAll.atDepth_read (UsageAll.AccessCash o) h hs
  | haveCashInCache _ _ => cases hs; exact h
  | accessByTxid j txid => exact UsageAll.atDepth_read (UsageAll.accessByTxidFrom txid _ 0) h hs
  | uncache j o => exact UsageAll.atDepth_read (fun cs _ => UsageAll.Uncache o cs) h hs
  | flush j =>
    refine UsageAll.atDepth (fun cs s st' h hr => ?_) j cs s st' h hs
    obtain ⟨r, hf, rfl⟩ := exceptMap_eq_ok hr
    exact UsageAll.Flush h hf
  | push => cases hs; exact UsageAll.cons.mpr ⟨UsageInv_new, h⟩
  | pop flushFirst =>
    cases flushFirst with
    | false => cases hs; exact fun c hc => h c (List.mem_of_mem_tail hc)
    | true =>
      obtain ⟨r, hf, rfl⟩ := exceptMap_eq_ok hs
      exact fun c hc => UsageAll.Flush h hf c (List.mem_of_mem_tail hc)

theorem UsageAll.run :
    ∀ {st st' : List CCashViewCache × σ} (ops : List Op), UsageAll env st.1 →
      run env B st ops = .ok st' → UsageAll env st'.1
  | _, _, [], h, hr => by cases hr; exact h
  | _, _, _ :: ops, h, hr =>
    have ⟨_, hs, hr⟩ := exceptBind_eq_ok hr
    UsageAll.run ops (UsageAll.step h hs) hr

/-- **Memory accounting on a stack.** After any run of operations from no layers that returns,
over any base, every layer's `DynamicMemoryUsage` is what `SelfTest` recomputes: its counter
holds the summed usage of its records. -/
theorem DynamicMemoryUsage_run {s : σ} {ops : List Op} {st : List CCashViewCache × σ}
    (h : run env B ([], s) ops = .ok st) :
    ∀ c ∈ st.1, c.DynamicMemoryUsage env = (c.SelfTest env).1 := fun c hc => by
  have : c.cachedCashUsage = cashUsage env c.cacheCash :=
    UsageAll.run ops (fun _ h => absurd h (List.not_mem_nil _)) h c hc
  simp only [CCashViewCache.DynamicMemoryUsage, CCashViewCache.SelfTest, this]

theorem DynamicMemoryUsage_run_add :
    ∃ st, run demoEnv testBase ([], ⟨0, ∅, []⟩)
        [.push, .addCash ⟨0, 0⟩ ⟨⟨5, [1, 2, 3]⟩, false, 1⟩ false, .push, .flush 0] = .ok st ∧
      ∀ c ∈ st.1, c.DynamicMemoryUsage demoEnv = (c.SelfTest demoEnv).1 := by
  obtain ⟨st, h⟩ : ∃ st, run demoEnv testBase ([], ⟨0, ∅, []⟩)
      [.push, .addCash ⟨0, 0⟩ ⟨⟨5, [1, 2, 3]⟩, false, 1⟩ false, .push, .flush 0] = .ok st :=
    ⟨_, rfl⟩
  exact ⟨st, h, DynamicMemoryUsage_run h⟩

end SalemCash
