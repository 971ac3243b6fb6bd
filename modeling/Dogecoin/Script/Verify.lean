import Dogecoin.Script.Interpreter

/-!
# `VerifyScript`: the scripts of an input against the output it spends

`VerifyScript` (script/interpreter.cpp) runs the scriptSig, then the
scriptPubKey on the stack it leaves, and requires a true value on top.  Then
come the parts that flags switch on, in this order:

* a scriptPubKey that is a witness program is checked against the witness
  (`VerifySegregatedWitnessProgram`), and its stack counts as clean;
* a pay-to-script-hash scriptPubKey runs the redeem script, the last element
  the scriptSig pushed, on the stack the scriptSig left; a redeem script that
  is a witness program is checked against the witness;
* `CLEANSTACK` requires exactly one element on the stack;
* `WITNESS` rejects a witness that no witness program used.

`VerifyScript` asserts that `CLEANSTACK` comes with `P2SH` and `WITNESS`, and
`WITNESS` with `P2SH`; a failed assertion is `Stop.abort`.  The witness
`NULL` stands for the empty witness.
-/

namespace Dogecoin.Script

open Dogecoin.Primitives

/-- `assert(condition)`. -/
def assertTrue (condition : Bool) : Except Stop Unit :=
  if condition then pure () else throw .abort

/-- The top of the stack must be true: `SCRIPT_ERR_EVAL_FALSE` otherwise. -/
def checkTrue (stack : List valtype) : Except Stop Unit :=
  match stack with
  | [] => throw (.error .EVAL_FALSE)
  | top :: _ => failIf (!castToBool top) .EVAL_FALSE

/-- `stack.resize(1)`: keep the bottom element, or one empty element. -/
def resizeOne (stack : List valtype) : List valtype :=
  [stack.getLastD []]

section Verify

variable (crypto : Crypto) (checker : BaseSignatureChecker)

/-- The stack, top first, and the script of a version 0 witness program. -/
def witnessScript (witness : CScriptWitness) (program : valtype) :
    Except Stop (List valtype × CScript) :=
  if program.length = 32 then
    -- the program is the SHA-256 of the script, the last element of the witness
    match witness.stack.reverse with
    | [] => throw (.error .WITNESS_PROGRAM_WITNESS_EMPTY)
    | scriptPubKey :: stack => do
        failIf ((crypto.sha256 scriptPubKey).toList != program) .WITNESS_PROGRAM_MISMATCH
        pure (stack, scriptPubKey)
  else if program.length = 20 then do
    -- pay-to-pubkey-hash: a signature and a key in the witness
    failIf (witness.stack.length != 2) .WITNESS_PROGRAM_MISMATCH
    pure (witness.stack.reverse,
      CScript.pushVector [OP_DUP, OP_HASH160] program ++ [OP_EQUALVERIFY, OP_CHECKSIG])
  else throw (.error .WITNESS_PROGRAM_WRONG_LENGTH)

/-- `VerifySegregatedWitnessProgram`. -/
def verifyWitnessProgram (witness : CScriptWitness) (witversion : Nat) (program : valtype)
    (flags : UInt32) : Except Stop Unit :=
  if witversion = 0 then do
    let (stack, scriptPubKey) ← witnessScript crypto witness program
    failIf (stack.any fun vch => vch.length > MAX_SCRIPT_ELEMENT_SIZE) .PUSH_SIZE
    let stack ← evalScript crypto checker stack scriptPubKey flags .WITNESS_V0
    -- scripts inside a witness must leave a clean stack
    match stack with
    | [top] => failIf (!castToBool top) .EVAL_FALSE
    | _ => throw (.error .EVAL_FALSE)
  else if hasFlag flags SCRIPT_VERIFY_DISCOURAGE_UPGRADABLE_WITNESS_PROGRAM then
    throw (.error .DISCOURAGE_UPGRADABLE_WITNESS_PROGRAM)
  -- higher versions succeed, for future soft forks
  else pure ()

/-- The bare witness program of `VerifyScript`: the stack, and whether a witness was used. -/
def bareWitness (scriptSig scriptPubKey : CScript) (witness : CScriptWitness) (flags : UInt32)
    (stack : List valtype) : Except Stop (List valtype × Bool) :=
  if hasFlag flags SCRIPT_VERIFY_WITNESS then
    match CScript.isWitnessProgram scriptPubKey with
    | some (witnessversion, witnessprogram) => do
        -- the scriptSig must be empty, or it could be changed
        failIf (scriptSig.length != 0) .WITNESS_MALLEATED
        verifyWitnessProgram crypto checker witness witnessversion witnessprogram flags
        pure (resizeOne stack, true)
    | none => pure (stack, false)
  else pure (stack, false)

/--
The pay-to-script-hash part of `VerifyScript`, on the stack `stackCopy` that
the scriptSig left.
-/
def payToScriptHash (scriptSig : CScript) (witness : CScriptWitness) (flags : UInt32)
    (stackCopy : List valtype) (hadWitness : Bool) : Except Stop (List valtype × Bool) := do
  failIf (!CScript.isPushOnly scriptSig) .SIG_PUSHONLY
  match stackCopy with
  -- `assert(!stack.empty())`
  | [] => throw .abort
  | pubKeySerialized :: rest => do
      let pubKey2 := pubKeySerialized
      let stack ← evalScript crypto checker rest pubKey2 flags .BASE
      checkTrue stack
      if hasFlag flags SCRIPT_VERIFY_WITNESS then
        match CScript.isWitnessProgram pubKey2 with
        | some (witnessversion, witnessprogram) => do
            -- the scriptSig must be exactly the push of the redeem script
            failIf (scriptSig != CScript.pushVector [] pubKey2) .WITNESS_MALLEATED_P2SH
            verifyWitnessProgram crypto checker witness witnessversion witnessprogram flags
            pure (resizeOne stack, true)
        | none => pure (stack, hadWitness)
      else pure (stack, hadWitness)

/-- The `CLEANSTACK` rule, after the pay-to-script-hash part. -/
def checkCleanStack (flags : UInt32) (stack : List valtype) : Except Stop Unit :=
  if hasFlag flags SCRIPT_VERIFY_CLEANSTACK then do
    -- CLEANSTACK without P2SH and WITNESS would not be a soft fork
    assertTrue (hasFlag flags SCRIPT_VERIFY_P2SH)
    assertTrue (hasFlag flags SCRIPT_VERIFY_WITNESS)
    failIf (stack.length != 1) .CLEANSTACK
  else pure ()

/-- With `WITNESS`, a witness that no witness program used is rejected. -/
def checkWitnessUsed (flags : UInt32) (hadWitness : Bool) (witness : CScriptWitness) :
    Except Stop Unit :=
  if hasFlag flags SCRIPT_VERIFY_WITNESS then do
    assertTrue (hasFlag flags SCRIPT_VERIFY_P2SH)
    failIf (!hadWitness && !witness.isNull) .WITNESS_UNEXPECTED
  else pure ()

/-- `VerifyScript`: the input's scripts succeed, or how they stop. -/
def verifyScript (scriptSig scriptPubKey : CScript) (witness : CScriptWitness) (flags : UInt32) :
    Except Stop Unit := do
  failIf (hasFlag flags SCRIPT_VERIFY_SIGPUSHONLY && !CScript.isPushOnly scriptSig) .SIG_PUSHONLY
  let stack ← evalScript crypto checker [] scriptSig flags .BASE
  let stackCopy := if hasFlag flags SCRIPT_VERIFY_P2SH then stack else []
  let stack ← evalScript crypto checker stack scriptPubKey flags .BASE
  checkTrue stack
  let (stack, hadWitness) ← bareWitness crypto checker scriptSig scriptPubKey witness flags stack
  let (stack, hadWitness) ←
    (if hasFlag flags SCRIPT_VERIFY_P2SH && CScript.isPayToScriptHash scriptPubKey then
      payToScriptHash crypto checker scriptSig witness flags stackCopy hadWitness
    else pure (stack, hadWitness))
  checkCleanStack flags stack
  checkWitnessUsed flags hadWitness witness

end Verify

end Dogecoin.Script
