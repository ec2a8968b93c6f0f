import SalemCash.Cache.Layer

/-!
# Stacks of cache layers

A stack is a list of `CCashViewCache` layers, top first, over a base view `B` in a state `s`.
Each layer's `base` is the stack below it, so a method of a layer is its definition in
`SalemCash.Cache.Layer` with the calls on the base filled in by the same method one level down.

* `BaseView`, `BaseView.view`, `BaseView.Lawful`: the bottom view, what it reports, and the two
  laws the claims ask of it (reads keep its view; `BatchWrite` overlays the `DIRTY` entries);
* `Stack.GetCash`, `Stack.GetBestBlock`, `Stack.BatchWrite`, and the methods of the top layer:
  `Stack.AccessCash`, `Stack.HaveCash`, `Stack.SpendCash`, `Stack.AddCash`, `Stack.Flush`,
  `Stack.Uncache`; the free functions `Stack.AccessByTxid` and `Stack.AddTx` (`AddCash` of a
  transaction), and `Stack.GetValueIn`, `Stack.HaveInputs`;
* `layerView`, `topView`, `views`: what each layer shows;
* `Op`, `step`, `run`: the operations of a run on a stack, any layer addressed by its depth, and
  `Allowed`, the one precondition on them.
-/

namespace SalemCash

open CCashViewCache

/-- The view at the bottom of a stack, through the calls a layer makes on its base. `GetCash`
returns the base's next state, so a base may answer differently over time (the test base draws
random numbers); its record is `some` exactly when it returns `true`, and may be spent. -/
structure BaseView (σ : Type) where
  GetCash : σ → COutPoint → Option Cash × σ
  GetBestBlock : σ → Uint256
  BatchWrite : σ → CCashMap → Uint256 → Bool × σ

/-- The `DIRTY` entries of `l` laid over the view `v`; a spent record hides the view. -/
def overlayList (l : List (Σ _ : COutPoint, CCashCacheEntry)) (v : COutPoint → Option Cash)
    (o : COutPoint) : Option Cash :=
  match l.dlookup o with
  | some e => if e.dirty then e.cash.ifUnspent else v o
  | none => v o

/-- The `DIRTY` entries of the map `m` laid over the view `v`. -/
def overlay (m : CCashMap) (v : COutPoint → Option Cash) : COutPoint → Option Cash :=
  overlayList m.entries v

theorem overlay_apply (m : CCashMap) (v : COutPoint → Option Cash) (o : COutPoint) :
    overlay m v o = match m.lookup o with
      | some e => if e.dirty then e.cash.ifUnspent else v o
      | none => v o := rfl

theorem overlayList_congr {l : List (Σ _ : COutPoint, CCashCacheEntry)}
    {v w : COutPoint → Option Cash} {o : COutPoint} (h : v o = w o) :
    overlayList l v o = overlayList l w o := by
  unfold overlayList; split <;> simp [h]

variable {σ : Type}

/-- What the base shows: the unspent record it reports. -/
def BaseView.view (B : BaseView σ) (s : σ) (o : COutPoint) : Option Cash :=
  (B.GetCash s o).1.bind Cash.ifUnspent

/-- A base whose reads do not change what it shows, and whose `BatchWrite` applies exactly the
`DIRTY` entries, a spent record deleting or tombstoning its outpoint. -/
structure BaseView.Lawful (B : BaseView σ) : Prop where
  view_GetCash : ∀ s o, B.view (B.GetCash s o).2 = B.view s
  view_BatchWrite : ∀ s m h, B.view (B.BatchWrite s m h).2 = overlay m (B.view s)

/-! ## What the layers show -/

/-- What a layer shows over the view `below`: the record of its entry when unspent, nothing
for a tombstone, and `below` where it has no entry. -/
def layerView (c : CCashViewCache) (below : COutPoint → Option Cash) (o : COutPoint) :
    Option Cash :=
  match c.cacheCash.lookup o with
  | some e => e.cash.ifUnspent
  | none => below o

/-- What the top of `layers` shows over the base view `v`. -/
def topView : List CCashViewCache → (COutPoint → Option Cash) → COutPoint → Option Cash
  | [], v => v
  | c :: cs, v => layerView c (topView cs v)

/-- What every layer shows, top first, ending with the base view. -/
def views : List CCashViewCache → (COutPoint → Option Cash) → List (COutPoint → Option Cash)
  | [], v => [v]
  | c :: cs, v => topView (c :: cs) v :: views cs v

/-! ## The methods of a stack -/

namespace Stack

variable (env : Env) (B : BaseView σ)

/-- `GetCash` on the top of `layers` over the base in state `s`. -/
def GetCash : List CCashViewCache → σ → COutPoint → Option Cash × List CCashViewCache × σ
  | [], s, o => ((B.GetCash s o).1, [], (B.GetCash s o).2)
  | c :: cs, s, o =>
    let r := c.GetCash env (GetCash cs s) (cs, s) o
    (r.1, r.2.1 :: r.2.2.1, r.2.2.2)

/-- `GetBestBlock` on the top of `layers`. -/
def GetBestBlock : List CCashViewCache → σ → Uint256 × List CCashViewCache × σ
  | [], s => (B.GetBestBlock s, [], s)
  | c :: cs, s =>
    let r := c.GetBestBlock (GetBestBlock cs s) (cs, s)
    (r.1, r.2.1 :: r.2.2.1, r.2.2.2)

/-- A thrown error, without the state it leaves. -/
def Abort.forget {α : Type} : Abort α → Abort Unit
  | .assertion e => .assertion e
  | .logicError w _ => .logicError w ()

/-- `BatchWrite` into the top of `layers`. -/
def BatchWrite : List CCashViewCache → σ → CCashMap → Uint256 →
    Except (Abort Unit) (Bool × List CCashViewCache × σ)
  | [], s, m, h => .ok ((B.BatchWrite s m h).1, [], (B.BatchWrite s m h).2)
  | c :: cs, s, m, h =>
    match c.BatchWrite env m h with
    | .ok r => .ok (r.1, r.2.1 :: cs, s)
    | .error e => .error (Abort.forget e)

/-- `Flush` of the top layer into the one below it. -/
def Flush : List CCashViewCache → σ → Except (Abort Unit) (Bool × List CCashViewCache × σ)
  | [], s => .ok (true, [], s)
  | c :: cs, s =>
    (c.Flush (BatchWrite env B cs s)).map fun r => (r.1, r.2.1 :: r.2.2.1, r.2.2.2)

/-- `AccessCash` on the top layer. -/
def AccessCash : List CCashViewCache → σ → COutPoint → Cash × List CCashViewCache × σ
  | [], s, _ => (cashEmpty, [], s)
  | c :: cs, s, o =>
    let r := c.AccessCash env (GetCash env B cs s) (cs, s) o
    (r.1, r.2.1 :: r.2.2.1, r.2.2.2)

/-- `HaveCash` on the top layer. -/
def HaveCash (layers : List CCashViewCache) (s : σ) (o : COutPoint) :
    Bool × List CCashViewCache × σ :=
  let r := GetCash env B layers s o
  (r.1.isSome, r.2)

/-- `SpendCash(outpoint, moveout)` on the top layer. -/
def SpendCash : List CCashViewCache → σ → COutPoint →
    Bool × Option Cash × List CCashViewCache × σ
  | [], s, _ => (false, none, [], s)
  | c :: cs, s, o =>
    let r := c.SpendCash env (GetCash env B cs s) (cs, s) o
    (r.1, r.2.1, r.2.2.1 :: r.2.2.2.1, r.2.2.2.2)

/-- `AddCash(outpoint, cash, possible_overwrite)` on the top layer. -/
def AddCash : List CCashViewCache → σ → COutPoint → Cash → Bool →
    Except (Abort Unit) (List CCashViewCache × σ)
  | [], s, _, _, _ => .ok ([], s)
  | c :: cs, s, o, cash, po =>
    match c.AddCash env o cash po with
    | .ok c' => .ok (c' :: cs, s)
    | .error e => .error (Abort.forget e)

/-- `Uncache` on the top layer. -/
def Uncache : List CCashViewCache → COutPoint → List CCashViewCache
  | [], _ => []
  | c :: cs, o => c.Uncache env o :: cs

/-- The loop of `AccessByTxid` from output index `n`, with `k` indices left to try. -/
def accessByTxidFrom (txid : Uint256) :
    Nat → Nat → List CCashViewCache → σ → Cash × List CCashViewCache × σ
  | 0, _, cs, s => (cashEmpty, cs, s)
  | k + 1, n, cs, s =>
    let r := AccessCash env B cs s ⟨txid, n.toUInt32⟩
    if !r.1.IsSpent then r else accessByTxidFrom txid k (n + 1) r.2.1 r.2.2

/-- `AccessByTxid(view, txid)`: the first unspent output of `txid` by ascending index, below
`MAX_OUTPUTS_PER_BLOCK`, else `cashEmpty`. -/
def AccessByTxid (layers : List CCashViewCache) (s : σ) (txid : Uint256) :
    Cash × List CCashViewCache × σ :=
  accessByTxidFrom env B txid env.MAX_OUTPUTS_PER_BLOCK.toNat 0 layers s

/-- The loop of `AddCash(cache, tx, nHeight, check)` from output index `i`. -/
def addOutputs (tx : CTransaction) (nHeight : Int) (check : Bool) :
    Nat → List CTxOut → List CCashViewCache → σ → Except (Abort Unit) (List CCashViewCache × σ)
  | _, [], cs, s => .ok (cs, s)
  | i, out :: outs, cs, s =>
    let o : COutPoint := ⟨tx.hash, i.toUInt32⟩
    let h := if check then HaveCash env B cs s o else (tx.IsCashBase, cs, s)
    (AddCash env h.2.1 h.2.2 o (Cash.mk' out nHeight tx.IsCashBase) h.1).bind fun r =>
      addOutputs tx nHeight check (i + 1) outs r.1 r.2

/-- `AddCash(cache, tx, nHeight, check)`: every output of `tx`, at its index. With `check` the
overwrite flag is whether the output is already there; otherwise it is `IsCashBase()`. -/
def AddTx (layers : List CCashViewCache) (s : σ) (tx : CTransaction) (nHeight : Int)
    (check : Bool) : Except (Abort Unit) (List CCashViewCache × σ) :=
  addOutputs env B tx nHeight check 0 tx.vout layers s

/-- The loop of `GetValueIn` from the running sum `nResult`: `nResult +=
AccessCash(prevout).out.nValue` for each input, in `CAmount` arithmetic; `none` at the first
signed overflow. -/
def valueInFrom : List CTxIn → Int → List CCashViewCache → σ →
    Option (Int × List CCashViewCache × σ)
  | [], nResult, cs, s => some (nResult, cs, s)
  | i :: is, nResult, cs, s =>
    let r := AccessCash env B cs s i.prevout
    (int64Op (nResult + r.1.out.nValue)).bind fun n => valueInFrom is n r.2.1 r.2.2

/-- `GetValueIn`: the summed value of the inputs' records; `0` for a base-reward transaction.
`none` where the C++ returns nothing: the sum overflows `CAmount`, or there are `2^32` or more
inputs, so that the `unsigned int` index wraps to `0` before it reaches the end and the loop never
exits. -/
def GetValueIn (layers : List CCashViewCache) (s : σ) (tx : CTransaction) :
    Option (Int × List CCashViewCache × σ) :=
  if tx.IsCashBase then some (0, layers, s)
  else if 2 ^ 32 ≤ tx.vin.length then none
  else valueInFrom env B tx.vin 0 layers s

/-- One pass of the loop of `HaveInputs`: `HaveCash` of every input's outpoint, stopping at the
first that is not there. -/
def haveInputsFrom : List CTxIn → List CCashViewCache → σ → Bool × List CCashViewCache × σ
  | [], cs, s => (true, cs, s)
  | i :: is, cs, s =>
    let r := HaveCash env B cs s i.prevout
    if r.1 then haveInputsFrom is r.2.1 r.2.2 else (false, r.2)

/-- `HaveInputs`. Its `unsigned int` index reaches only the first `2^32` inputs: with more, it
wraps to `0` and the loop starts over, so it returns only by finding one of those missing. A pass
that finds them all leaves each of them unspent in the top cache, so every later pass finds them
again without changing the stack (`haveInputsFrom_repeat`): the loop never exits, and the model
is `none` there. -/
def HaveInputs (layers : List CCashViewCache) (s : σ) (tx : CTransaction) :
    Option (Bool × List CCashViewCache × σ) :=
  if tx.IsCashBase then some (true, layers, s)
  else
    let r := haveInputsFrom env B (tx.vin.take (2 ^ 32)) layers s
    if r.1 && 2 ^ 32 ≤ tx.vin.length then none else some r

end Stack

/-! ## Runs -/

/-- The operations of a run: writes on the top layer, reads, `Uncache` and `Flush` on the layer
at a given depth (`0` is the top), and pushing or popping a layer. -/
inductive Op
  | addCash (outpoint : COutPoint) (cash : Cash) (possible_overwrite : Bool)
  | spendCash (outpoint : COutPoint)
  | setBestBlock (hashBlock : Uint256)
  | getBestBlock (depth : Nat)
  | getCash (depth : Nat) (outpoint : COutPoint)
  | haveCash (depth : Nat) (outpoint : COutPoint)
  | accessCash (depth : Nat) (outpoint : COutPoint)
  | haveCashInCache (depth : Nat) (outpoint : COutPoint)
  | accessByTxid (depth : Nat) (txid : Uint256)
  | uncache (depth : Nat) (outpoint : COutPoint)
  | flush (depth : Nat)
  | push
  | pop (flushFirst : Bool)

/-- Apply `f` to the stack below the `j` topmost layers; nothing happens when there are not
that many layers. -/
def atDepth (f : List CCashViewCache → σ → Except (Abort Unit) (List CCashViewCache × σ)) :
    Nat → List CCashViewCache → σ → Except (Abort Unit) (List CCashViewCache × σ)
  | 0, [], s => .ok ([], s)
  | 0, c :: cs, s => f (c :: cs) s
  | _ + 1, [], s => .ok ([], s)
  | j + 1, c :: cs, s => (atDepth f j cs s).map fun r => (c :: r.1, r.2)

variable (env : Env) (B : BaseView σ)

/-- One operation on the stack `(layers, s)`. -/
def step (st : List CCashViewCache × σ) : Op → Except (Abort Unit) (List CCashViewCache × σ)
  | .addCash o cash po => Stack.AddCash env st.1 st.2 o cash po
  | .spendCash o => .ok (Stack.SpendCash env B st.1 st.2 o).2.2
  | .setBestBlock h => .ok (match st.1 with
      | [] => st
      | c :: cs => (c.SetBestBlock h :: cs, st.2))
  | .getBestBlock j => atDepth (fun cs s => .ok (Stack.GetBestBlock B cs s).2) j st.1 st.2
  | .getCash j o => atDepth (fun cs s => .ok (Stack.GetCash env B cs s o).2) j st.1 st.2
  | .haveCash j o => atDepth (fun cs s => .ok (Stack.HaveCash env B cs s o).2) j st.1 st.2
  | .accessCash j o => atDepth (fun cs s => .ok (Stack.AccessCash env B cs s o).2) j st.1 st.2
  | .haveCashInCache _ _ => .ok st
  | .accessByTxid j txid =>
    atDepth (fun cs s => .ok (Stack.AccessByTxid env B cs s txid).2) j st.1 st.2
  | .uncache j o => atDepth (fun cs s => .ok (Stack.Uncache env cs o, s)) j st.1 st.2
  | .flush j => atDepth (fun cs s => (Stack.Flush env B cs s).map (·.2)) j st.1 st.2
  | .push => .ok (CCashViewCache.new :: st.1, st.2)
  | .pop false => .ok (st.1.tail, st.2)
  | .pop true => (Stack.Flush env B st.1 st.2).map fun r => (r.2.1.tail, r.2.2)

/-- A run of operations, stopping at the first abnormal end. -/
def run : List CCashViewCache × σ → List Op → Except (Abort Unit) (List CCashViewCache × σ)
  | st, [] => .ok st
  | st, op :: ops => (step env B st op).bind fun st' => run st' ops

/-- The precondition of a run: `AddCash` without `possible_overwrite` only where the top layer
shows no unspent record. -/
def Allowed (st : List CCashViewCache × σ) : Op → Prop
  | .addCash o _ po => po = false → topView st.1 (B.view st.2) o = none
  | _ => True

/-- The `assert(!cash.IsSpent())` at the start of `AddCash` holds. -/
def Op.AssertHolds : Op → Prop
  | .addCash _ cash _ => cash.IsSpent = false
  | _ => True

/-- Every operation of a run is allowed in the state it meets. -/
def AllowedRun : List CCashViewCache × σ → List Op → Prop
  | _, [] => True
  | st, op :: ops => Allowed B st op ∧ ∀ st', step env B st op = .ok st' → AllowedRun st' ops

end SalemCash
