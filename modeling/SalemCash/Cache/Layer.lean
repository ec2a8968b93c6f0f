import SalemCash.Cash.Record

/-!
# One cache layer

`CCashViewCache` as `cash.cpp` defines it, one method a definition. A layer reaches its `base`
only through `GetCash` (inside `FetchCash`), `GetBestBlock` and `BatchWrite` (inside `Flush`).
A method that calls the base takes the call as an argument, together with the base `p` as it is
now, and returns the base as the call leaves it; a stack of layers fills these in with the layers
below (`SalemCash.Cache.Stack`).

* `FetchCash`, `GetCash`, `HaveCash`, `AccessCash`, `HaveCashInCache`;
* `AddCash`, `SpendCash`, `Uncache`, `BatchWrite` (one loop iteration is `BatchWriteEntry`),
  `Flush`;
* `GetBestBlock`, `SetBestBlock`, `GetCacheSize`, `DynamicMemoryUsage`, and the recomputation
  `SelfTest` of `cash_tests.cpp`.

A failed `assert` and a thrown `std::logic_error` are the two ways a call ends abnormally
(`Abort`); a throw keeps the object as the code leaves it at the `throw`. A call that returns
is taken apart with `exceptMap_eq_ok` and `exceptBind_eq_ok`.
-/

namespace SalemCash

/-- `CCashViewCache`: the best-block hash, the entry map and the usage counter (`size_t`). -/
structure CCashViewCache where
  hashBlock : Uint256
  cacheCash : CCashMap
  cachedCashUsage : UInt64

/-- How a call ends abnormally: a failed `assert`, or a `std::logic_error` with its message and
the object as the throw leaves it. -/
inductive Abort (α : Type)
  | assertion (expr : String)
  | logicError (what : String) (state : α)

/-- An `Except.map` that returns: the computation under it returned. -/
theorem exceptMap_eq_ok {ε α β : Type} {f : α → β} {x : Except ε α} {b : β}
    (h : x.map f = .ok b) : ∃ a, x = .ok a ∧ f a = b := by
  cases x with
  | error e => cases h
  | ok a => cases h; exact ⟨a, rfl, rfl⟩

/-- An `Except.bind` that returns: the first computation returned, and the rest returned from
its result. -/
theorem exceptBind_eq_ok {ε α β : Type} {x : Except ε α} {f : α → Except ε β} {b : β}
    (h : x.bind f = .ok b) : ∃ a, x = .ok a ∧ f a = .ok b := by
  cases x with
  | error e => cases h
  | ok a => exact ⟨a, rfl, h⟩

namespace CCashViewCache

/-- `CCashViewCache(baseIn)`: a null hash, no entries, no usage. -/
def new : CCashViewCache := ⟨0, ∅, 0⟩

/-- The entry `CCashCacheEntry()` that `emplace` and `operator[]` create. -/
def defaultEntry : CCashCacheEntry := ⟨cashEmpty, false, false⟩

variable (env : Env) {P : Type}

/-- The entry `FetchCash` inserts for a record the base found; `FRESH` when it is spent. -/
def fetchedEntry (tmp : Cash) : CCashCacheEntry := ⟨tmp, false, tmp.IsSpent⟩

/-- The part of `FetchCash` after a local miss, given what `base->GetCash` reported. -/
def fetchInto (self : CCashViewCache) (outpoint : COutPoint) :
    Option Cash → Option CCashCacheEntry × CCashViewCache
  | none => (none, self)
  | some tmp =>
    (some (fetchedEntry tmp),
      { self with
        cacheCash := self.cacheCash.insert outpoint (fetchedEntry tmp)
        cachedCashUsage := self.cachedCashUsage + tmp.DynamicMemoryUsage env })

/-- `FetchCash`: the local entry, or else the one pulled up from the base. `get` is
`base->GetCash` on the base `p`. -/
def FetchCash (get : COutPoint → Option Cash × P) (self : CCashViewCache) (p : P)
    (outpoint : COutPoint) : Option CCashCacheEntry × CCashViewCache × P :=
  match self.cacheCash.lookup outpoint with
  | some e => (some e, self, p)
  | none =>
    ((self.fetchInto env outpoint (get outpoint).1).1,
      (self.fetchInto env outpoint (get outpoint).1).2, (get outpoint).2)

/-- `GetCash`: `some` record exactly when the method returns `true`. -/
def GetCash (get : COutPoint → Option Cash × P) (self : CCashViewCache) (p : P)
    (outpoint : COutPoint) : Option Cash × CCashViewCache × P :=
  let r := self.FetchCash env get p outpoint
  (r.1.bind fun e => e.cash.ifUnspent, r.2)

/-- `HaveCash`. -/
def HaveCash (get : COutPoint → Option Cash × P) (self : CCashViewCache) (p : P)
    (outpoint : COutPoint) : Bool × CCashViewCache × P :=
  let r := self.GetCash env get p outpoint
  (r.1.isSome, r.2)

/-- `AccessCash`: the fetched record, or `cashEmpty`. -/
def AccessCash (get : COutPoint → Option Cash × P) (self : CCashViewCache) (p : P)
    (outpoint : COutPoint) : Cash × CCashViewCache × P :=
  let r := self.FetchCash env get p outpoint
  ((r.1.map (·.cash)).getD cashEmpty, r.2)

/-- `HaveCashInCache`: like `HaveCash`, without asking the base. -/
def HaveCashInCache (self : CCashViewCache) (outpoint : COutPoint) : Bool :=
  match self.cacheCash.lookup outpoint with
  | some e => !e.cash.IsSpent
  | none => false

/-- The `emplace` at the start of `AddCash`: the entry now at `outpoint` (a default one on a
miss), the map, and the counter with the old record's usage taken off on a hit. -/
def emplaceAt (self : CCashViewCache) (outpoint : COutPoint) :
    CCashCacheEntry × CCashMap × UInt64 :=
  match self.cacheCash.lookup outpoint with
  | some e => (e, self.cacheCash, self.cachedCashUsage - e.cash.DynamicMemoryUsage env)
  | none => (defaultEntry, self.cacheCash.insert outpoint defaultEntry, self.cachedCashUsage)

/-- `AddCash(outpoint, cash, possible_overwrite)`. The overwrite check comes after the
`emplace` has already taken the old record's usage off the counter. -/
def AddCash (self : CCashViewCache) (outpoint : COutPoint) (cash : Cash)
    (possible_overwrite : Bool) : Except (Abort CCashViewCache) CCashViewCache :=
  if cash.IsSpent then .error (.assertion "!cash.IsSpent()")
  else if env.IsUnspendable cash.out.scriptPubKey then .ok self
  else
    let it := self.emplaceAt env outpoint
    if !possible_overwrite && !it.1.cash.IsSpent then
      .error (.logicError "Adding new cash that replaces non-pruned entry"
        { self with cacheCash := it.2.1, cachedCashUsage := it.2.2 })
    else
      let fresh := !possible_overwrite && !it.1.dirty
      .ok { self with
        cacheCash := it.2.1.replace outpoint ⟨cash, true, it.1.fresh || fresh⟩
        cachedCashUsage := it.2.2 + cash.DynamicMemoryUsage env }

/-- `SpendCash(outpoint, moveout)`: whether an entry was found, the record moved out, the layer
and the base. A `FRESH` entry is erased, any other becomes a `DIRTY` tombstone. -/
def SpendCash (get : COutPoint → Option Cash × P) (self : CCashViewCache) (p : P)
    (outpoint : COutPoint) : Bool × Option Cash × CCashViewCache × P :=
  match self.FetchCash env get p outpoint with
  | (none, self', p') => (false, none, self', p')
  | (some e, self', p') =>
    let usage := self'.cachedCashUsage - e.cash.DynamicMemoryUsage env
    if e.fresh then
      (true, some e.cash, { self' with
        cacheCash := self'.cacheCash.erase outpoint, cachedCashUsage := usage }, p')
    else
      (true, some e.cash, { self' with
        cacheCash := self'.cacheCash.replace outpoint { e with dirty := true, cash := e.cash.Clear }
        cachedCashUsage := usage }, p')

/-- `Uncache`: drop an entry whose flags are `0`. -/
def Uncache (self : CCashViewCache) (hash : COutPoint) : CCashViewCache :=
  match self.cacheCash.lookup hash with
  | some e =>
    if !e.dirty && !e.fresh then
      { self with
        cacheCash := self.cacheCash.erase hash
        cachedCashUsage := self.cachedCashUsage - e.cash.DynamicMemoryUsage env }
    else self
  | none => self

/-- `GetBestBlock`: a null hash is filled in from `base->GetBestBlock()`, here `best`. -/
def GetBestBlock (best : Uint256 × P) (self : CCashViewCache) (p : P) :
    Uint256 × CCashViewCache × P :=
  if self.hashBlock = 0 then (best.1, { self with hashBlock := best.1 }, best.2)
  else (self.hashBlock, self, p)

/-- `SetBestBlock`. -/
def SetBestBlock (self : CCashViewCache) (hashBlockIn : Uint256) : CCashViewCache :=
  { self with hashBlock := hashBlockIn }

/-- One iteration of the loop of `BatchWrite`, for the child's entry `child` at `o`. -/
def BatchWriteEntry (self : CCashViewCache) (o : COutPoint) (child : CCashCacheEntry) :
    Except (Abort CCashViewCache) CCashViewCache :=
  if !child.dirty then .ok self
  else match self.cacheCash.lookup o with
  | none =>
    if child.fresh && child.cash.IsSpent then .ok self
    else .ok { self with
      cacheCash := self.cacheCash.insert o ⟨child.cash, true, child.fresh⟩
      cachedCashUsage := self.cachedCashUsage + child.cash.DynamicMemoryUsage env }
  | some us =>
    if child.fresh && !us.cash.IsSpent then
      .error (.logicError
        "FRESH flag misapplied to cache entry for base transaction with spendable outputs" self)
    else if us.fresh && child.cash.IsSpent then
      .ok { self with
        cacheCash := self.cacheCash.erase o
        cachedCashUsage := self.cachedCashUsage - us.cash.DynamicMemoryUsage env }
    else
      .ok { self with
        cacheCash := self.cacheCash.replace o { us with cash := child.cash, dirty := true }
        cachedCashUsage :=
          self.cachedCashUsage - us.cash.DynamicMemoryUsage env + child.cash.DynamicMemoryUsage env }

/-- The loop of `BatchWrite` over the child's entries, in the map's iteration order. -/
def batchWriteLoop :
    CCashViewCache → List (Σ _ : COutPoint, CCashCacheEntry) →
      Except (Abort CCashViewCache) CCashViewCache
  | self, [] => .ok self
  | self, ⟨o, e⟩ :: rest => (self.BatchWriteEntry env o e).bind fun self' => batchWriteLoop self' rest

/-- `BatchWrite(mapCash, hashBlockIn)`: the result, the layer, and the drained child map. -/
def BatchWrite (self : CCashViewCache) (mapCash : CCashMap) (hashBlockIn : Uint256) :
    Except (Abort CCashViewCache) (Bool × CCashViewCache × CCashMap) :=
  (batchWriteLoop env self mapCash.entries).map fun self' =>
    (true, { self' with hashBlock := hashBlockIn }, ∅)

/-- `Flush`: `base->BatchWrite(cacheCash, hashBlock)`, here `batchWrite`, then an empty layer. -/
def Flush {ε : Type} (batchWrite : CCashMap → Uint256 → Except ε (Bool × P))
    (self : CCashViewCache) : Except ε (Bool × CCashViewCache × P) :=
  (batchWrite self.cacheCash self.hashBlock).map fun r =>
    (r.1, { self with cacheCash := ∅, cachedCashUsage := 0 }, r.2)

/-- `GetCacheSize`: the number of entries, as an `unsigned int`. -/
def GetCacheSize (self : CCashViewCache) : UInt32 := self.cacheCash.entries.length.toUInt32

/-- `DynamicMemoryUsage`. -/
def DynamicMemoryUsage (self : CCashViewCache) : UInt64 :=
  env.MapUsage self.cacheCash + self.cachedCashUsage

/-- What `SelfTest` in `cash_tests.cpp` recomputes: the usage from scratch, and the number of
entries counted in a `size_t`. -/
def SelfTest (self : CCashViewCache) : UInt64 × UInt64 :=
  (env.MapUsage self.cacheCash + cashUsage env self.cacheCash,
    self.cacheCash.entries.length.toUInt64)

/-! ## What `FetchCash` leaves in the map -/

/-- The entry `FetchCash` returns is the one the layer now holds. -/
theorem FetchCash_fst (get : COutPoint → Option Cash × P) (self : CCashViewCache) (p : P)
    (o : COutPoint) :
    (self.FetchCash env get p o).1 = (self.FetchCash env get p o).2.1.cacheCash.lookup o := by
  unfold FetchCash
  split
  · next h => exact h.symm
  · next h =>
    generalize (get o).1 = r
    cases r <;> simp [fetchInto, h]

variable {get : COutPoint → Option Cash × P} {self : CCashViewCache} {p : P} {o : COutPoint}

theorem FetchCash_of_lookup_some {e : CCashCacheEntry} (h : self.cacheCash.lookup o = some e) :
    self.FetchCash env get p o = (some e, self, p) := by
  simp [FetchCash, h]

theorem FetchCash_of_lookup_none (h : self.cacheCash.lookup o = none) :
    self.FetchCash env get p o =
      ((self.fetchInto env o (get o).1).1, (self.fetchInto env o (get o).1).2, (get o).2) := by
  simp [FetchCash, h]

end CCashViewCache

end SalemCash
