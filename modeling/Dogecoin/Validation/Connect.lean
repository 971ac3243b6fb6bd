import Dogecoin.Coins.Undo
import Dogecoin.Lib.TrimRestore

/-!
# Connecting and disconnecting a block

The coin updates of `ConnectBlock` and `DisconnectBlock` (src/src/validation.cpp):
`UpdateCoins` spends the inputs of a transaction, recording for each the undo
data `CTxInUndo`, and adds its outputs; `DisconnectBlock` walks the block
backwards, checks and removes the outputs of each transaction and gives its
inputs back with `ApplyTxInUndo`.

The view is modelled by what it shows for every transaction: `ModifyCoins`
hands out the coins the view shows, and the destructor of the modifier stores
them after `Cleanup`.  This is the view that `cacheStack_simulates_cleanedReference`
proves a stack of caches to present.  The hash of a transaction is a parameter.
Where the source asserts or returns early, the model returns `none`.
-/

namespace Dogecoin.Validation

open Dogecoin.Primitives Dogecoin.Coins

/-- What a view shows for every transaction: its coins, or `CCoins()`. -/
abbrev CoinsMap := UInt256 → CCoins

/-- `ModifyCoins(txid)`, a change `f` through the modifier, and its destructor. -/
def modifyCoins (view : CoinsMap) (txid : UInt256) (f : CCoins → CCoins) : CoinsMap :=
  Function.update view txid (f (view txid)).cleanup

/-! ## `UpdateCoins` -/

/--
The undo data `UpdateCoins` records for spending `txout`, from the coins after
the spend: with their metadata when the spend pruned them.
-/
def undoOfSpend (txout : CTxOut) (spent : CCoins) : CTxInUndo :=
  if spent.vout.length = 0 then
    { CTxInUndo.ofTxOut txout with
      nHeight := UInt32.ofInt spent.nHeight
      fCoinBase := spent.fCoinBase
      nVersion := spent.nVersion }
  else CTxInUndo.ofTxOut txout

/--
One iteration of the input loop of `UpdateCoins`: spend `txin.prevout` and
record its undo data; `none` at `assert(false)`.
-/
def spendInput (inputs : CoinsMap) (txin : CTxIn) : Option (CTxInUndo × CoinsMap) :=
  let coins := inputs txin.prevout.hash
  let nPos := txin.prevout.n.toNat
  match coins.vout[nPos]? with
  | none => none
  | some txout =>
      if txout.isNull then none
      else
        some (undoOfSpend txout (coins.spend nPos).2,
          modifyCoins inputs txin.prevout.hash fun coins => (coins.spend nPos).2)

/-- The input loop of `UpdateCoins`. -/
def spendInputs : List CTxIn → CoinsMap → Option (List CTxInUndo × CoinsMap)
  | [], inputs => some ([], inputs)
  | txin :: vin, inputs => do
      let (undo, inputs) ← spendInput inputs txin
      let (vprevout, inputs) ← spendInputs vin inputs
      pure (undo :: vprevout, inputs)

section Hash

variable (txHash : CTransaction → UInt256)

/-- `UpdateCoins(tx, inputs, txundo, nHeight)`. -/
def updateCoins (tx : CTransaction) (inputs : CoinsMap) (nHeight : Int) :
    Option (CTxUndo × CoinsMap) := do
  let (vprevout, inputs) ← if tx.isCoinBase then pure ([], inputs) else spendInputs tx.vin inputs
  -- `inputs.ModifyNewCoins(tx.GetTxHash(), tx.IsCoinBase())->FromTx(tx, nHeight)`
  pure (⟨vprevout⟩, modifyCoins inputs (txHash tx) fun _ => CCoins.fromTx tx nHeight)

/-- The loop of `ConnectBlock` over the transactions after the coinbase. -/
def connectTransactions (nHeight : Int) :
    List CTransaction → CoinsMap → Option (List CTxUndo × CoinsMap)
  | [], view => some ([], view)
  | tx :: txs, view => do
      let (txundo, view) ← updateCoins txHash tx view nHeight
      let (vtxundo, view) ← connectTransactions nHeight txs view
      pure (txundo :: vtxundo, view)

/-- The `UpdateCoins` loop of `ConnectBlock`: the undo data of the coinbase is dropped. -/
def connectBlock (block : List CTransaction) (view : CoinsMap) (nHeight : Int) :
    Option (CBlockUndo × CoinsMap) :=
  match block with
  | [] => some (⟨[]⟩, view)
  | coinbase :: txs => do
      let (_, view) ← updateCoins txHash coinbase view nHeight
      let (vtxundo, view) ← connectTransactions txHash nHeight txs view
      pure (⟨vtxundo⟩, view)

end Hash

/-! ## `ApplyTxInUndo` -/

/-- The coins `ApplyTxInUndo` writes into: cleared and given the metadata when the undo data has a height. -/
def undoBase (undo : CTxInUndo) (coins : CCoins) : CCoins :=
  if undo.nHeight ≠ 0 then
    { fCoinBase := undo.fCoinBase, vout := [], nHeight := undo.nHeight.toInt32.toInt,
      nVersion := undo.nVersion }
  else coins

/-- The changes of `ApplyTxInUndo` through its modifier: the output put back at `nPos`. -/
def undoCoins (undo : CTxInUndo) (nPos : Nat) (coins : CCoins) : CCoins :=
  let coins := undoBase undo coins
  let vout :=
    if coins.vout.length < nPos + 1 then TrimRestore.resize coins.vout (nPos + 1) CTxOut.null
    else coins.vout
  { coins with vout := vout.set nPos undo.txout }

/--
The checks of `ApplyTxInUndo`: "undo data overwriting existing transaction",
"undo data adding output to missing transaction" and "undo data overwriting
existing output" each make it unclean.
-/
def undoClean (undo : CTxInUndo) (nPos : Nat) (coins : CCoins) : Bool :=
  (if undo.nHeight ≠ 0 then coins.isPruned else !coins.isPruned) &&
    !(undoBase undo coins).isAvailable nPos

/-- `ApplyTxInUndo(undo, view, out)`: whether it was clean, and the view. -/
def applyTxInUndo (undo : CTxInUndo) (view : CoinsMap) (out : COutPoint) : Bool × CoinsMap :=
  (undoClean undo out.n.toNat (view out.hash), modifyCoins view out.hash (undoCoins undo out.n.toNat))

/-- The loop of `DisconnectBlock` over the inputs of a transaction, from the last. -/
def restoreInputs : List (CTxIn × CTxInUndo) → CoinsMap → Bool × CoinsMap
  | [], view => (true, view)
  | (txin, undo) :: rest, view =>
      let (fClean, view) := restoreInputs rest view
      let (applied, view) := applyTxInUndo undo view txin.prevout
      (fClean && applied, view)

/-! ## `DisconnectBlock` -/

section Hash

variable (txHash : CTransaction → UInt256)

/--
The block of `DisconnectBlock` that checks the outputs of `tx` against the
block ("added transaction mismatch? database corrupted") and removes them.
-/
def disconnectOutputs (tx : CTransaction) (view : CoinsMap) (nHeight : Int) :
    Bool × CoinsMap :=
  let outs := (view (txHash tx)).clearUnspendable
  let outsBlock := CCoins.fromTx tx nHeight
  -- "The CCoins serialization does not serialize negative numbers."
  let outs := if outsBlock.nVersion < 0 then { outs with nVersion := outsBlock.nVersion } else outs
  -- `outs->Clear()`
  (outs.same outsBlock, modifyCoins view (txHash tx) fun _ => CCoins.empty)

/-- The loop of `DisconnectBlock` over the transactions after the coinbase, from the last. -/
def disconnectTransactions (nHeight : Int) :
    List (CTransaction × CTxUndo) → CoinsMap → Option (Bool × CoinsMap)
  | [], view => some (true, view)
  | (tx, txundo) :: rest, view => do
      let (fClean, view) ← disconnectTransactions nHeight rest view
      let (matched, view) := disconnectOutputs txHash tx view nHeight
      -- "transaction and undo data inconsistent"
      if txundo.vprevout.length ≠ tx.vin.length then none
      else
        let (restored, view) := restoreInputs (tx.vin.zip txundo.vprevout) view
        pure (fClean && matched && restored, view)

/-- `DisconnectBlock` on undo data already read: whether it was clean, and the view. -/
def disconnectBlock (block : List CTransaction) (blockUndo : CBlockUndo) (view : CoinsMap)
    (nHeight : Int) : Option (Bool × CoinsMap) :=
  -- "block and undo data inconsistent"
  if blockUndo.vtxundo.length + 1 ≠ block.length then none
  else
    match block with
    | [] => none
    | coinbase :: txs => do
        let (fClean, view) ← disconnectTransactions txHash nHeight (txs.zip blockUndo.vtxundo) view
        let (matched, view) := disconnectOutputs txHash coinbase view nHeight
        pure (fClean && matched, view)

end Hash

end Dogecoin.Validation
