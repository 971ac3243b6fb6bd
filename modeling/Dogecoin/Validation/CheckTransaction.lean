import Dogecoin.Primitives.Transaction
import Dogecoin.Lib.KeyedFold

/-!
# `CheckTransaction`

The context-free checks of a transaction in src/src/validation.cpp: inputs and
outputs are present, the serialization without witness fits in a block, every
output amount and the running total of the amounts lie in `MoneyRange`,
optionally no outpoint is spent twice, and the inputs are those of a coinbase
or spend non-null outpoints.  A failure is the `CValidationState` the source
fills through `state.DoS(level, false, REJECT_INVALID, reason)`.
-/

namespace Dogecoin.Validation

open Dogecoin.Primitives

/-- `MAX_BLOCK_BASE_SIZE` (consensus/consensus.h). -/
def MAX_BLOCK_BASE_SIZE : Nat := 1000000

/-- `REJECT_INVALID` (consensus/validation.h). -/
def REJECT_INVALID : UInt8 := 0x10

/-- What `state.DoS` records when a check fails. -/
structure Rejection where
  nDoS : Nat
  chRejectCode : UInt8
  strRejectReason : String
deriving DecidableEq, Repr

/-- `state.DoS(level, false, REJECT_INVALID, reason)`. -/
def invalid (level : Nat) (reason : String) : Rejection :=
  ⟨level, REJECT_INVALID, reason⟩

/-- One iteration of the loop over the outputs: the amount and the running total. -/
def addOutputValue (nValueOut : Int) (txout : CTxOut) : Except Rejection Int :=
  if txout.nValue < 0 then .error (invalid 10 "bad-txns-vout-negative")
  else if txout.nValue > MAX_MONEY then .error (invalid 10 "bad-txns-vout-toolarge")
  else if !moneyRange (nValueOut + txout.nValue) then
    .error (invalid 10 "bad-txns-txouttotal-toolarge")
  else .ok (nValueOut + txout.nValue)

/-- One iteration of the duplicate-input loop: `vInOutPoints.insert(txin.prevout)`. -/
def insertPrevout (vInOutPoints : List COutPoint) (txin : CTxIn) :
    Except Rejection (List COutPoint) :=
  if txin.prevout ∈ vInOutPoints then .error (invalid 10 "bad-txns-inputs-duplicate")
  else .ok (txin.prevout :: vInOutPoints)

/-- The checks of the inputs: a coinbase's script length, or non-null outpoints. -/
def checkInputs (tx : CTransaction) : Except Rejection Unit :=
  if tx.isCoinBase then
    match tx.vin.head? with
    | some txin =>
        if txin.scriptSig.length < 2 || txin.scriptSig.length > 100 then
          .error (invalid 10 "bad-cb-length")
        else .ok ()
    | none => .ok ()
  else
    tx.vin.forM fun txin =>
      if txin.prevout.isNull then .error (invalid 1 "bad-txns-prevout-null") else .ok ()

/-- `CheckTransaction(tx, state, fCheckDuplicateInputs)`. -/
def checkTransaction (tx : CTransaction) (fCheckDuplicateInputs : Bool) :
    Except Rejection Unit := do
  if tx.vin.isEmpty then throw (invalid 1 "bad-txns-vin-empty")
  if tx.vout.isEmpty then throw (invalid 1 "bad-txns-vout-empty")
  if tx.getSerializeSize > MAX_BLOCK_BASE_SIZE then throw (invalid 10 "bad-txns-oversize")
  let _ ← tx.vout.foldlM addOutputValue 0
  if fCheckDuplicateInputs then
    let _ ← tx.vin.foldlM insertPrevout []
  checkInputs tx

/-! ## What a transaction that passes has -/

/-- An output that passes its iteration has an amount in `MoneyRange`. -/
theorem moneyRange_of_addOutputValue {nValueOut nValueOut' : Int} {txout : CTxOut}
    (added : addOutputValue nValueOut txout = .ok nValueOut') :
    moneyRange txout.nValue = true := by
  unfold addOutputValue at added
  split at added
  · cases added
  · rename_i nonneg
    split at added
    · cases added
    · rename_i bounded
      simp only [moneyRange, Bool.and_eq_true, decide_eq_true_eq]
      omega

theorem checkTransaction_ok_structure {tx : CTransaction} {fCheckDuplicateInputs : Bool}
    (checked : checkTransaction tx fCheckDuplicateInputs = .ok ()) :
    tx.vin ≠ [] ∧ tx.vout ≠ [] ∧ tx.getSerializeSize ≤ MAX_BLOCK_BASE_SIZE ∧
      ∃ nValueOut, tx.vout.foldlM addOutputValue 0 = .ok nValueOut := by
  unfold checkTransaction at checked
  by_cases noInputs : tx.vin.isEmpty = true
  · rw [if_pos noInputs] at checked
    cases checked
  by_cases noOutputs : tx.vout.isEmpty = true
  · rw [if_neg noInputs, if_pos noOutputs] at checked
    cases checked
  by_cases oversize : tx.getSerializeSize > MAX_BLOCK_BASE_SIZE
  · rw [if_neg noInputs, if_neg noOutputs, if_pos oversize] at checked
    cases checked
  refine ⟨by simpa using noInputs, by simpa using noOutputs, by omega, ?_⟩
  cases summed : tx.vout.foldlM addOutputValue 0 with
  | error failure =>
      rw [if_neg noInputs, if_neg noOutputs, if_neg oversize, summed] at checked
      cases checked
  | ok nValueOut => exact ⟨nValueOut, rfl⟩

/-- Every output of a transaction that passes `CheckTransaction` is in `MoneyRange`. -/
theorem checkTransaction_moneyRange {tx : CTransaction} {fCheckDuplicateInputs : Bool}
    (checked : checkTransaction tx fCheckDuplicateInputs = .ok ()) :
    ∀ txout ∈ tx.vout, moneyRange txout.nValue = true := by
  obtain ⟨-, -, -, nValueOut, summed⟩ := checkTransaction_ok_structure checked
  intro txout member
  obtain ⟨state, state', added⟩ := KeyedFold.foldlM_step_of_mem summed txout member
  exact moneyRange_of_addOutputValue added

end Dogecoin.Validation
