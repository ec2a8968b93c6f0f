import SalemCash.Cache.Stack

/-!
# The test base

`CCashViewTest` of `cash_tests.cpp`, the view at the bottom of the test stacks: a map from
outpoints to records and a best block. Its random choices (`InsecureRandBool() == 0`,
`InsecureRandRange(3) == 0`) are bits drawn from a list in its state.

* `testBase`: the test base as a `BaseView`;
* **`testBase_lawful`**: whatever bits it draws, the test base is lawful: a read keeps what it
  shows, and `BatchWrite` lays the `DIRTY` entries over it.
-/

namespace SalemCash

/-- The state of a `CCashViewTest`: its best block, its map, and the random bits still to come. -/
structure CCashViewTest where
  hashBestBlock_ : Uint256
  map_ : AList fun _ : COutPoint => Cash
  rand : List Bool

namespace CCashViewTest

/-- The next random bit; `false` once the bits have run out. -/
def draw (self : CCashViewTest) : Bool × CCashViewTest :=
  (self.rand.headD false, { self with rand := self.rand.tail })

/-- `GetCash`: a spent record is reported missing when the drawn bit is `0`. -/
def GetCash (self : CCashViewTest) (outpoint : COutPoint) : Option Cash × CCashViewTest :=
  match self.map_.lookup outpoint with
  | none => (none, self)
  | some cash =>
    if cash.IsSpent then (if self.draw.1 then some cash else none, self.draw.2)
    else (some cash, self)

/-- `GetBestBlock`. -/
def GetBestBlock (self : CCashViewTest) : Uint256 := self.hashBestBlock_

/-- One iteration of the loop of `BatchWrite`: a `DIRTY` record is written, and a spent one is
then erased when the drawn bit is set. -/
def writeEntry (self : CCashViewTest) (o : COutPoint) (e : CCashCacheEntry) : CCashViewTest :=
  if e.dirty then
    let self' := { self with map_ := self.map_.insert o e.cash }
    if e.cash.IsSpent then
      if self'.draw.1 then { self'.draw.2 with map_ := self'.map_.erase o } else self'.draw.2
    else self'
  else self

/-- `BatchWrite(mapCash, hashBlock)`: every entry in the map's order; a null hash leaves the best
block as it was. -/
def BatchWrite (self : CCashViewTest) (mapCash : CCashMap) (hashBlock : Uint256) :
    Bool × CCashViewTest :=
  let self' := mapCash.entries.foldl (fun s e => s.writeEntry e.1 e.2) self
  (true, if hashBlock = 0 then self' else { self' with hashBestBlock_ := hashBlock })

/-- What the map shows: its unspent records. -/
def mapView (self : CCashViewTest) (o : COutPoint) : Option Cash :=
  (self.map_.lookup o).bind Cash.ifUnspent

theorem mapView_writeEntry (self : CCashViewTest) (k : COutPoint) (e : CCashCacheEntry) :
    (self.writeEntry k e).mapView = if e.dirty then Function.update self.mapView k e.cash.ifUnspent
      else self.mapView := by
  unfold writeEntry
  cases hd : e.dirty
  · rfl
  funext o
  by_cases ho : o = k
  · subst ho
    cases hs : e.cash.IsSpent <;> simp [mapView, draw, hs]
    split <;> simp [hs]
  · simp only [if_true, Function.update_noteq ho]
    split <;> (try split) <;> simp [mapView, draw, AList.lookup_insert_ne ho, AList.lookup_erase_ne ho]

theorem mapView_foldl :
    ∀ {l : List (Σ _ : COutPoint, CCashCacheEntry)} (self : CCashViewTest), l.NodupKeys →
      (l.foldl (fun s e => s.writeEntry e.1 e.2) self).mapView = overlayList l self.mapView
  | [], _, _ => rfl
  | ⟨k, e⟩ :: rest, self, hnd => by
    rw [List.nodupKeys_cons] at hnd
    rw [List.foldl_cons, mapView_foldl _ hnd.2, mapView_writeEntry]
    funext o
    by_cases ho : o = k
    · subst ho
      simp only [overlayList, List.dlookup_eq_none.mpr hnd.1, List.dlookup_cons_eq]
      split <;> simp
    · rw [overlayList_congr (w := self.mapView) (by split <;> simp [Function.update_noteq ho])]
      simp only [overlayList, List.dlookup_cons_ne rest (⟨k, e⟩ : Σ _ : COutPoint, _) ho]

end CCashViewTest

/-- `CCashViewTest` as the base of a stack. -/
def testBase : BaseView CCashViewTest where
  GetCash := CCashViewTest.GetCash
  GetBestBlock := CCashViewTest.GetBestBlock
  BatchWrite := CCashViewTest.BatchWrite

theorem testBase_view (s : CCashViewTest) : testBase.view s = s.mapView := by
  funext o
  simp only [BaseView.view, testBase, CCashViewTest.GetCash, CCashViewTest.mapView]
  cases hl : s.map_.lookup o with
  | none => rfl
  | some cash => cases hs : cash.IsSpent <;> simp [hs]

/-- **The test base is lawful**, whatever bits it draws. -/
theorem testBase_lawful : testBase.Lawful where
  view_GetCash s o := by
    rw [testBase_view, testBase_view]
    funext o'
    simp only [testBase, CCashViewTest.GetCash]
    split
    · rfl
    · split <;> rfl
  view_BatchWrite s m h := by
    rw [testBase_view, testBase_view]
    simp only [testBase, CCashViewTest.BatchWrite]
    show _ = overlayList m.entries s.mapView
    rw [← CCashViewTest.mapView_foldl s m.nodupKeys]
    split <;> rfl

end SalemCash
