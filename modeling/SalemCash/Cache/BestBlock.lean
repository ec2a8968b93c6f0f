import SalemCash.Cache.Refinement

/-!
# The best block across a flush

`Flush` hands the layer's own `hashBlock` to its parent's `BatchWrite`, which stores it whether
it is null or not. A layer that never set or read its best block holds the null hash, so
flushing it into a cache parent clears the parent's best block, and the parent then reports its
own base's best block.

* **`GetBestBlock_memo`**: `GetBestBlock` returns the first non-null best block of the stack,
  else the base's, and a second call changes nothing;
* **`Flush_best_block`**: for every stack with the invariant, the top layer's `Flush` gives its
  parent the child's own best block, null or not, and both then report it, or where it is null
  the best block of the stack below the parent;
* **`Flush_loses_best_block`**: a reachable stack where the parent's best block, set before,
  is lost by the child's `Flush`.
-/

namespace SalemCash

open CCashViewCache

variable {σ : Type} (env : Env) {B : BaseView σ}

theorem GetBestBlock_cons_null {c : CCashViewCache} {cs : List CCashViewCache} {s : σ}
    (hc : c.hashBlock = 0) :
    Stack.GetBestBlock B (c :: cs) s = ((Stack.GetBestBlock B cs s).1,
      { c with hashBlock := (Stack.GetBestBlock B cs s).1 } :: (Stack.GetBestBlock B cs s).2.1,
      (Stack.GetBestBlock B cs s).2.2) := by
  simp [Stack.GetBestBlock, CCashViewCache.GetBestBlock, hc]

theorem GetBestBlock_cons_set {c : CCashViewCache} {cs : List CCashViewCache} {s : σ}
    (hc : c.hashBlock ≠ 0) : Stack.GetBestBlock B (c :: cs) s = (c.hashBlock, c :: cs, s) := by
  simp only [Stack.GetBestBlock, CCashViewCache.GetBestBlock, if_neg hc]

theorem GetBestBlock_of_null {c : CCashViewCache} {cs : List CCashViewCache} {s : σ}
    (hc : c.hashBlock = 0) :
    (Stack.GetBestBlock B (c :: cs) s).1 = (Stack.GetBestBlock B cs s).1 := by
  rw [GetBestBlock_cons_null hc]

/-- **`GetBestBlock` memoizes.** On every stack over every base, `GetBestBlock` returns the first
non-null best block from the top down, else the base's; a second call returns the same hash and
leaves the stack as the first left it. -/
theorem GetBestBlock_memo (cs : List CCashViewCache) (s : σ) :
    (Stack.GetBestBlock B cs s).1 =
        ((cs.map (·.hashBlock)).find? (· ≠ 0)).getD (B.GetBestBlock s) ∧
      Stack.GetBestBlock B (Stack.GetBestBlock B cs s).2.1 (Stack.GetBestBlock B cs s).2.2 =
        Stack.GetBestBlock B cs s := by
  induction cs with
  | nil => exact ⟨rfl, rfl⟩
  | cons c cs ih =>
    obtain ⟨hv, hs⟩ := ih
    by_cases hc : c.hashBlock = 0
    · rw [GetBestBlock_cons_null hc]
      refine ⟨by simp [hc, hv], ?_⟩
      by_cases hb : (Stack.GetBestBlock B cs s).1 = 0
      · rw [GetBestBlock_cons_null hb, hs]
      · rw [GetBestBlock_cons_set hb]
    · rw [GetBestBlock_cons_set hc, GetBestBlock_cons_set hc, List.map_cons,
        List.find?_cons_of_pos (p := fun x => decide (x ≠ 0)) _ (decide_eq_true hc)]
      exact ⟨rfl, rfl⟩

/-- **A flush hands the child's best block to its parent.** On a stack with the invariant, the
top layer's `Flush` into a cache parent returns, and the parent then stores the child's
`hashBlock` as it is, null or not. Afterwards both report that hash when it is non-null, and
otherwise the best block of the stack below the parent: the parent's own is gone. -/
theorem Flush_best_block {c p : CCashViewCache} {cs : List CCashViewCache} {s : σ}
    (h : StackInv (c :: p :: cs) (B.view s)) :
    ∃ b c' p', Stack.Flush env B (c :: p :: cs) s = .ok (b, c' :: p' :: cs, s) ∧
      p'.hashBlock = c.hashBlock ∧
      (Stack.GetBestBlock B (c' :: p' :: cs) s).1 =
        (if c.hashBlock = 0 then (Stack.GetBestBlock B cs s).1 else c.hashBlock) ∧
      (Stack.GetBestBlock B (p' :: cs) s).1 =
        (if c.hashBlock = 0 then (Stack.GetBestBlock B cs s).1 else c.hashBlock) := by
  obtain ⟨p1, hloop, -, -, -⟩ :=
    h.2.1.batchWriteLoop env c.cacheCash.nodupKeys fun o e he _ hf => (h.1 o e he).fresh hf
  refine ⟨true, { c with cacheCash := ∅, cachedCashUsage := 0 },
    { p1 with hashBlock := c.hashBlock }, by simp [Stack.Flush, CCashViewCache.Flush,
      Stack.BatchWrite, CCashViewCache.BatchWrite, hloop, Except.map], rfl, ?_⟩
  by_cases hc : c.hashBlock = 0
  · have hp : (Stack.GetBestBlock B ({ p1 with hashBlock := c.hashBlock } :: cs) s).1 =
        (Stack.GetBestBlock B cs s).1 := GetBestBlock_of_null hc
    rw [if_pos hc]
    exact ⟨(GetBestBlock_of_null (c := { c with cacheCash := ∅, cachedCashUsage := 0 }) hc).trans hp,
      hp⟩
  · rw [if_neg hc, GetBestBlock_cons_set (c := { c with cacheCash := ∅, cachedCashUsage := 0 }) hc,
      GetBestBlock_cons_set (c := { p1 with hashBlock := c.hashBlock }) hc]
    exact ⟨rfl, rfl⟩

theorem Flush_best_block_set_parent :
    let p : CCashViewCache := { demoMid with hashBlock := 1 }
    StackInv [demoTop, p] (testBase.view demoBase) ∧
      (Stack.GetBestBlock testBase [demoTop, p] demoBase).1 = 1 ∧
      ∃ b c' p', Stack.Flush demoEnv testBase [demoTop, p] demoBase = .ok (b, [c', p'], demoBase) ∧
        p'.hashBlock = demoTop.hashBlock ∧
        (Stack.GetBestBlock testBase [c', p'] demoBase).1 = (if demoTop.hashBlock = 0
          then (Stack.GetBestBlock testBase [] demoBase).1 else demoTop.hashBlock) ∧
        (Stack.GetBestBlock testBase [p'] demoBase).1 = (if demoTop.hashBlock = 0
          then (Stack.GetBestBlock testBase [] demoBase).1 else demoTop.hashBlock) := by
  intro p
  have h : StackInv [demoTop, p] (testBase.view demoBase) := demoOps_inv
  exact ⟨h, rfl, Flush_best_block demoEnv h⟩

/-- **The child's `Flush` loses the parent's best block.** Over a test base whose best block is
`7`, push a layer, set its best block to `1`, and push a child that never sets or reads its own.
The child would report `1`; after its `Flush` it and its parent both report `7`. -/
theorem Flush_loses_best_block :
    ∃ st st', Reachable demoEnv testBase st ∧ (Stack.GetBestBlock testBase st.1 st.2).1 = 1 ∧
      step demoEnv testBase st (.flush 0) = .ok st' ∧
      (Stack.GetBestBlock testBase st'.1 st'.2).1 = 7 ∧
      (Stack.GetBestBlock testBase (st'.1.drop 1) st'.2).1 = 7 := by
  refine ⟨_, _, .next (.next (.next (.init (⟨7, ∅, []⟩ : CCashViewTest))
    (show Allowed testBase _ .push from trivial) rfl)
    (show Allowed testBase _ (.setBestBlock 1) from trivial) rfl)
    (show Allowed testBase _ .push from trivial) rfl, ?_, rfl, ?_, ?_⟩ <;> rfl

end SalemCash
