import Dogecoin.Script.Script

/-!
# `EvalScript`: the script interpreter

`EvalScript` (script/interpreter.cpp) runs a script over a stack of byte
strings.  It keeps an alternate stack, the stack `vfExec` of the open
`IF` branches, a count of the non-push operations and the position of the
last `OP_CODESEPARATOR`.  Each turn of its loop reads one operation, checks
the push size, the operation count and the disabled opcodes, then pushes the
data, runs the branch of the `switch` for the opcode, or skips it inside a
branch that is not taken.  Last it checks the combined size of the two
stacks.  After the loop every branch must be closed.

The stacks are lists with the top first, so `stacktop(-1)` is the head.  A
`switch` branch that first checks `stack.size() < k` matches the stack
against `k` elements.  The opcodes of one branch of the `switch` share a
constructor of `Instr`, and the inner `switch` of a numeric branch becomes a
match on `UnaryOp` or `BinaryOp`, so its `default: assert` does not arise.

The hash functions, the low-S test of `CPubKey` and the signature checker
are parameters: `Crypto` and `BaseSignatureChecker`.
-/

namespace Dogecoin.Script

open Dogecoin.Primitives

/-! ## Flags and parameters -/

def SCRIPT_VERIFY_P2SH : UInt32 := (1 : UInt32) <<< 0
def SCRIPT_VERIFY_STRICTENC : UInt32 := (1 : UInt32) <<< 1
def SCRIPT_VERIFY_DERSIG : UInt32 := (1 : UInt32) <<< 2
def SCRIPT_VERIFY_LOW_S : UInt32 := (1 : UInt32) <<< 3
def SCRIPT_VERIFY_NULLDUMMY : UInt32 := (1 : UInt32) <<< 4
def SCRIPT_VERIFY_SIGPUSHONLY : UInt32 := (1 : UInt32) <<< 5
def SCRIPT_VERIFY_MINIMALDATA : UInt32 := (1 : UInt32) <<< 6
def SCRIPT_VERIFY_DISCOURAGE_UPGRADABLE_NOPS : UInt32 := (1 : UInt32) <<< 7
def SCRIPT_VERIFY_CLEANSTACK : UInt32 := (1 : UInt32) <<< 8
def SCRIPT_VERIFY_CHECKLOCKTIMEVERIFY : UInt32 := (1 : UInt32) <<< 9
def SCRIPT_VERIFY_CHECKSEQUENCEVERIFY : UInt32 := (1 : UInt32) <<< 10
def SCRIPT_VERIFY_WITNESS : UInt32 := (1 : UInt32) <<< 11
def SCRIPT_VERIFY_DISCOURAGE_UPGRADABLE_WITNESS_PROGRAM : UInt32 := (1 : UInt32) <<< 12
def SCRIPT_VERIFY_MINIMALIF : UInt32 := (1 : UInt32) <<< 13
def SCRIPT_VERIFY_NULLFAIL : UInt32 := (1 : UInt32) <<< 14
def SCRIPT_VERIFY_WITNESS_PUBKEYTYPE : UInt32 := (1 : UInt32) <<< 15

/-- `(flags & flag) != 0`. -/
def hasFlag (flags flag : UInt32) : Bool :=
  flags &&& flag != 0

/-- `CTxIn::SEQUENCE_LOCKTIME_DISABLE_FLAG`. -/
def SEQUENCE_LOCKTIME_DISABLE_FLAG : Nat := 1 <<< 31

/-- `SigVersion`. -/
inductive SigVersion
  | BASE
  | WITNESS_V0
deriving DecidableEq, Repr

/-- The cryptographic functions the interpreter calls. -/
structure Crypto where
  ripemd160 : valtype → Vector UInt8 20
  sha1 : valtype → Vector UInt8 20
  sha256 : valtype → Vector UInt8 32
  /-- `CPubKey::CheckLowS` on a signature without its hash type. -/
  checkLowS : valtype → Bool

/-- `BaseSignatureChecker`: the checks that depend on the spending transaction. -/
structure BaseSignatureChecker where
  checkSig : valtype → valtype → CScript → SigVersion → Bool
  checkLockTime : CScriptNum → Bool
  checkSequence : CScriptNum → Bool

/-! ## Stack elements -/

/-- `vchTrue`. -/
def vchTrue : valtype := [1]

/-- `vchFalse`. -/
def vchFalse : valtype := []

/-- `CastToBool`: some byte is not zero, other than a sign bit alone in the last byte. -/
def castToBool : valtype → Bool
  | [] => false
  | byte :: rest => if byte ≠ 0 then !(rest.isEmpty && byte == 0x80) else castToBool rest

/-- `IsCompressedOrUncompressedPubKey`. -/
def isCompressedOrUncompressedPubKey (vchPubKey : valtype) : Bool :=
  if vchPubKey.length < 33 then false
  else if vchPubKey.getD 0 0 = 0x04 then vchPubKey.length = 65
  else if vchPubKey.getD 0 0 = 0x02 ∨ vchPubKey.getD 0 0 = 0x03 then vchPubKey.length = 33
  else false

/-- `IsCompressedPubKey`. -/
def isCompressedPubKey (vchPubKey : valtype) : Bool :=
  vchPubKey.length = 33 && (vchPubKey.getD 0 0 = 0x02 || vchPubKey.getD 0 0 = 0x03)

/--
`IsValidSignatureEncoding`: strict DER, `0x30 [total-length] 0x02 [R-length] [R]
0x02 [S-length] [S] [sighash]`.  Every index it reads lies inside the
signature once the size checks before it have passed.
-/
def isValidSignatureEncoding (sig : valtype) : Bool :=
  let byte := fun index => (sig.getD index 0).toNat
  if sig.length < 9 then false
  else if sig.length > 73 then false
  else if byte 0 ≠ 0x30 then false
  else if byte 1 ≠ sig.length - 3 then false
  else
    let lenR := byte 3
    if 5 + lenR ≥ sig.length then false
    else
      let lenS := byte (5 + lenR)
      if lenR + lenS + 7 ≠ sig.length then false
      else if byte 2 ≠ 0x02 then false
      else if lenR = 0 then false
      else if byte 4 &&& 0x80 ≠ 0 then false
      else if lenR > 1 ∧ byte 4 = 0x00 ∧ byte 5 &&& 0x80 = 0 then false
      else if byte (lenR + 4) ≠ 0x02 then false
      else if lenS = 0 then false
      else if byte (lenR + 6) &&& 0x80 ≠ 0 then false
      else if lenS > 1 ∧ byte (lenR + 6) = 0x00 ∧ byte (lenR + 7) &&& 0x80 = 0 then false
      else true

/-- `IsDefinedHashtypeSignature`: the hash type, without `SIGHASH_ANYONECANPAY`, is 1 to 3. -/
def isDefinedHashtypeSignature (vchSig : valtype) : Bool :=
  match vchSig.getLast? with
  | none => false
  | some back =>
      let nHashType := back &&& ~~~0x80
      !(nHashType < 1 || nHashType > 3)

section Checks

variable (crypto : Crypto)

/-- `IsLowDERSignature`. -/
def isLowDERSignature (vchSig : valtype) : Except Stop Unit := do
  failIf (!isValidSignatureEncoding vchSig) .SIG_DER
  failIf (!crypto.checkLowS vchSig.dropLast) .SIG_HIGH_S

/-- `CheckSignatureEncoding`; the empty signature is always allowed. -/
def checkSignatureEncoding (vchSig : valtype) (flags : UInt32) : Except Stop Unit :=
  if vchSig.length = 0 then pure ()
  else do
    failIf (hasFlag flags (SCRIPT_VERIFY_DERSIG ||| SCRIPT_VERIFY_LOW_S ||| SCRIPT_VERIFY_STRICTENC) &&
      !isValidSignatureEncoding vchSig) .SIG_DER
    (if hasFlag flags SCRIPT_VERIFY_LOW_S then isLowDERSignature crypto vchSig else pure ())
    failIf (hasFlag flags SCRIPT_VERIFY_STRICTENC && !isDefinedHashtypeSignature vchSig)
      .SIG_HASHTYPE

end Checks

/-- `CheckPubKeyEncoding`. -/
def checkPubKeyEncoding (vchPubKey : valtype) (flags : UInt32) (sigversion : SigVersion) :
    Except Stop Unit := do
  failIf (hasFlag flags SCRIPT_VERIFY_STRICTENC && !isCompressedOrUncompressedPubKey vchPubKey)
    .PUBKEYTYPE
  failIf (hasFlag flags SCRIPT_VERIFY_WITNESS_PUBKEYTYPE && sigversion == .WITNESS_V0 &&
    !isCompressedPubKey vchPubKey) .WITNESS_PUBKEYTYPE

/-- `CheckMinimalPush`: the data is pushed by the shortest opcode that can push it. -/
def checkMinimalPush (data : valtype) (opcode : UInt8) : Bool :=
  if data.length = 0 then opcode == OP_0
  else if data.length = 1 ∧ 1 ≤ data.getD 0 0 ∧ data.getD 0 0 ≤ 16 then
    opcode.toNat == OP_1.toNat + ((data.getD 0 0).toNat - 1)
  else if data.length = 1 ∧ data.getD 0 0 = 0x81 then opcode == OP_1NEGATE
  else if data.length ≤ 75 then opcode.toNat == data.length
  else if data.length ≤ 255 then opcode == OP_PUSHDATA1
  else if data.length ≤ 65535 then opcode == OP_PUSHDATA2
  else true

/-! ## The branches of the `switch` -/

/-- The stack operations that only move or copy elements. -/
inductive Shuffle
  | drop2 | dup2 | dup3 | over2 | rot2 | swap2 | drop | dup | nip | over | rot | swap | tuck
deriving DecidableEq, Repr

/-- The stack after a shuffle, top first; `none` when the stack is too small. -/
def Shuffle.apply : Shuffle → List valtype → Option (List valtype)
  | .drop2, _ :: _ :: rest => some rest
  | .dup2, x2 :: x1 :: rest => some (x2 :: x1 :: x2 :: x1 :: rest)
  | .dup3, x3 :: x2 :: x1 :: rest => some (x3 :: x2 :: x1 :: x3 :: x2 :: x1 :: rest)
  | .over2, x4 :: x3 :: x2 :: x1 :: rest => some (x2 :: x1 :: x4 :: x3 :: x2 :: x1 :: rest)
  | .rot2, x6 :: x5 :: x4 :: x3 :: x2 :: x1 :: rest => some (x2 :: x1 :: x6 :: x5 :: x4 :: x3 :: rest)
  | .swap2, x4 :: x3 :: x2 :: x1 :: rest => some (x2 :: x1 :: x4 :: x3 :: rest)
  | .drop, _ :: rest => some rest
  | .dup, x :: rest => some (x :: x :: rest)
  | .nip, x2 :: _ :: rest => some (x2 :: rest)
  | .over, x2 :: x1 :: rest => some (x1 :: x2 :: x1 :: rest)
  | .rot, x3 :: x2 :: x1 :: rest => some (x1 :: x3 :: x2 :: rest)
  | .swap, x2 :: x1 :: rest => some (x1 :: x2 :: rest)
  | .tuck, x2 :: x1 :: rest => some (x2 :: x1 :: x2 :: rest)
  | _, _ => none

/-- The numeric operations on one operand. -/
inductive UnaryOp
  | add1 | sub1 | negate | abs | not | zeroNotEqual
deriving DecidableEq, Repr

/-- The inner `switch` of `OP_1ADD` to `OP_0NOTEQUAL`. -/
def UnaryOp.apply : UnaryOp → CScriptNum → Except Stop CScriptNum
  | .add1, bn => bn.addAssign 1
  | .sub1, bn => bn.subAssign 1
  | .negate, bn => bn.neg
  | .abs, bn => if bn.m_value < 0 then bn.neg else pure bn
  | .not, bn => pure (.ofBool (bn.m_value == 0))
  | .zeroNotEqual, bn => pure (.ofBool (bn.m_value != 0))

/-- The numeric operations on two operands. -/
inductive BinaryOp
  | add | sub | boolAnd | boolOr | numEqual | numEqualVerify | numNotEqual
  | lessThan | greaterThan | lessThanOrEqual | greaterThanOrEqual | min | max
deriving DecidableEq, Repr

/-- The inner `switch` of `OP_ADD` to `OP_MAX`. -/
def BinaryOp.apply : BinaryOp → CScriptNum → CScriptNum → Except Stop CScriptNum
  | .add, bn1, bn2 => bn1.add bn2
  | .sub, bn1, bn2 => bn1.sub bn2
  | .boolAnd, bn1, bn2 => pure (.ofBool (bn1.m_value != 0 && bn2.m_value != 0))
  | .boolOr, bn1, bn2 => pure (.ofBool (bn1.m_value != 0 || bn2.m_value != 0))
  | .numEqual, bn1, bn2 => pure (.ofBool (bn1.m_value == bn2.m_value))
  | .numEqualVerify, bn1, bn2 => pure (.ofBool (bn1.m_value == bn2.m_value))
  | .numNotEqual, bn1, bn2 => pure (.ofBool (bn1.m_value != bn2.m_value))
  | .lessThan, bn1, bn2 => pure (.ofBool (decide (bn1.m_value < bn2.m_value)))
  | .greaterThan, bn1, bn2 => pure (.ofBool (decide (bn1.m_value > bn2.m_value)))
  | .lessThanOrEqual, bn1, bn2 => pure (.ofBool (decide (bn1.m_value ≤ bn2.m_value)))
  | .greaterThanOrEqual, bn1, bn2 => pure (.ofBool (decide (bn1.m_value ≥ bn2.m_value)))
  | .min, bn1, bn2 => pure (if bn1.m_value < bn2.m_value then bn1 else bn2)
  | .max, bn1, bn2 => pure (if bn1.m_value > bn2.m_value then bn1 else bn2)

/-- The hash opcodes. -/
inductive HashKind
  | ripemd160 | sha1 | sha256 | hash160 | hash256
deriving DecidableEq, Repr

/-- The digest an `OP_` hash pushes; `CHash160` and `CHash256` apply SHA-256 first. -/
def HashKind.digest (crypto : Crypto) : HashKind → valtype → valtype
  | .ripemd160, vch => (crypto.ripemd160 vch).toList
  | .sha1, vch => (crypto.sha1 vch).toList
  | .sha256, vch => (crypto.sha256 vch).toList
  | .hash160, vch => (crypto.ripemd160 (crypto.sha256 vch).toList).toList
  | .hash256, vch => (crypto.sha256 (crypto.sha256 vch).toList).toList

/-- The branches of `switch (opcode)`; the opcodes of one branch share a constructor. -/
inductive Instr
  | pushNumber (n : Int)
  | nop
  | checkLockTimeVerify
  | checkSequenceVerify
  | upgradableNop
  | conditional (notIf : Bool)
  | elseBranch
  | endIf
  | verify
  | opReturn
  | toAltStack
  | fromAltStack
  | shuffle (kind : Shuffle)
  | ifDup
  | depth
  | pickOrRoll (roll : Bool)
  | size
  | equal (verify : Bool)
  | unary (op : UnaryOp)
  | binary (op : BinaryOp)
  | within
  | hash (kind : HashKind)
  | codeSeparator
  | checkSig (verify : Bool)
  | checkMultiSig (verify : Bool)
  | bad
deriving DecidableEq, Repr

/-- The `case` labels of the `switch` other than the small numbers, with their branches. -/
def caseLabels : List (UInt8 × Instr) :=
  [(OP_NOP, .nop), (OP_CHECKLOCKTIMEVERIFY, .checkLockTimeVerify),
    (OP_CHECKSEQUENCEVERIFY, .checkSequenceVerify),
    (OP_NOP1, .upgradableNop), (OP_NOP4, .upgradableNop), (OP_NOP5, .upgradableNop),
    (OP_NOP6, .upgradableNop), (OP_NOP7, .upgradableNop), (OP_NOP8, .upgradableNop),
    (OP_NOP9, .upgradableNop), (OP_NOP10, .upgradableNop),
    (OP_IF, .conditional false), (OP_NOTIF, .conditional true), (OP_ELSE, .elseBranch),
    (OP_ENDIF, .endIf), (OP_VERIFY, .verify), (OP_RETURN, .opReturn),
    (OP_TOALTSTACK, .toAltStack), (OP_FROMALTSTACK, .fromAltStack),
    (OP_2DROP, .shuffle .drop2), (OP_2DUP, .shuffle .dup2), (OP_3DUP, .shuffle .dup3),
    (OP_2OVER, .shuffle .over2), (OP_2ROT, .shuffle .rot2), (OP_2SWAP, .shuffle .swap2),
    (OP_IFDUP, .ifDup), (OP_DEPTH, .depth), (OP_DROP, .shuffle .drop), (OP_DUP, .shuffle .dup),
    (OP_NIP, .shuffle .nip), (OP_OVER, .shuffle .over), (OP_PICK, .pickOrRoll false),
    (OP_ROLL, .pickOrRoll true), (OP_ROT, .shuffle .rot), (OP_SWAP, .shuffle .swap),
    (OP_TUCK, .shuffle .tuck), (OP_SIZE, .size), (OP_EQUAL, .equal false),
    (OP_EQUALVERIFY, .equal true),
    (OP_1ADD, .unary .add1), (OP_1SUB, .unary .sub1), (OP_NEGATE, .unary .negate),
    (OP_ABS, .unary .abs), (OP_NOT, .unary .not), (OP_0NOTEQUAL, .unary .zeroNotEqual),
    (OP_ADD, .binary .add), (OP_SUB, .binary .sub), (OP_BOOLAND, .binary .boolAnd),
    (OP_BOOLOR, .binary .boolOr), (OP_NUMEQUAL, .binary .numEqual),
    (OP_NUMEQUALVERIFY, .binary .numEqualVerify), (OP_NUMNOTEQUAL, .binary .numNotEqual),
    (OP_LESSTHAN, .binary .lessThan), (OP_GREATERTHAN, .binary .greaterThan),
    (OP_LESSTHANOREQUAL, .binary .lessThanOrEqual),
    (OP_GREATERTHANOREQUAL, .binary .greaterThanOrEqual), (OP_MIN, .binary .min),
    (OP_MAX, .binary .max), (OP_WITHIN, .within),
    (OP_RIPEMD160, .hash .ripemd160), (OP_SHA1, .hash .sha1), (OP_SHA256, .hash .sha256),
    (OP_HASH160, .hash .hash160), (OP_HASH256, .hash .hash256),
    (OP_CODESEPARATOR, .codeSeparator), (OP_CHECKSIG, .checkSig false),
    (OP_CHECKSIGVERIFY, .checkSig true), (OP_CHECKMULTISIG, .checkMultiSig false),
    (OP_CHECKMULTISIGVERIFY, .checkMultiSig true)]

/-- The branch of the `switch` an opcode takes; unlisted opcodes take `default`. -/
def decodeOp (opcode : UInt8) : Instr :=
  if opcode = OP_1NEGATE ∨ (OP_1 ≤ opcode ∧ opcode ≤ OP_16) then
    .pushNumber ((opcode.toNat : Int) - ((OP_1.toNat : Int) - 1))
  else (caseLabels.lookup opcode).getD .bad

/-- The disabled opcodes, rejected even inside a branch that is not taken. -/
def isDisabled (opcode : UInt8) : Bool :=
  [OP_CAT, OP_SUBSTR, OP_LEFT, OP_RIGHT, OP_INVERT, OP_AND, OP_OR, OP_XOR, OP_2MUL, OP_2DIV,
    OP_MUL, OP_DIV, OP_MOD, OP_LSHIFT, OP_RSHIFT].contains opcode

/-! ## The machine -/

/-- The state of the loop of `EvalScript`. -/
structure Machine where
  stack : List valtype
  altstack : List valtype
  /-- Whether each open `IF` branch is taken, innermost first. -/
  vfExec : List Bool
  nOpCount : Nat
  /-- The script from the last `OP_CODESEPARATOR` to its end. -/
  pbegincodehash : CScript
deriving DecidableEq, Repr

/-- The state before the first operation. -/
def Machine.start (stack : List valtype) (script : CScript) : Machine where
  stack := stack
  altstack := []
  vfExec := []
  nOpCount := 0
  pbegincodehash := script

/-- `return set_error(serror, SCRIPT_ERR_INVALID_STACK_OPERATION)`. -/
def invalidStackOperation {α : Type} : Except Stop α :=
  throw (.error .INVALID_STACK_OPERATION)

section Branches

variable (crypto : Crypto) (checker : BaseSignatureChecker)

/-- `OP_CHECKLOCKTIMEVERIFY` once its flag is set: the lock time on top must be satisfied. -/
def checkLockTimeOperand (fRequireMinimal : Bool) (m : Machine) : Except Stop Machine :=
  match m.stack with
  | [] => invalidStackOperation
  | top :: _ => do
      -- five bytes, so that lock times past 2038 can be written
      let nLockTime ← CScriptNum.ofVch top fRequireMinimal 5
      failIf (nLockTime.m_value < 0) .NEGATIVE_LOCKTIME
      failIf (!checker.checkLockTime nLockTime) .UNSATISFIED_LOCKTIME
      pure m

/-- `OP_CHECKLOCKTIMEVERIFY`, a `NOP2` unless its flag is set. -/
def opCheckLockTimeVerify (flags : UInt32) (m : Machine) : Except Stop Machine :=
  if !hasFlag flags SCRIPT_VERIFY_CHECKLOCKTIMEVERIFY then do
    failIf (hasFlag flags SCRIPT_VERIFY_DISCOURAGE_UPGRADABLE_NOPS) .DISCOURAGE_UPGRADABLE_NOPS
    pure m
  else checkLockTimeOperand checker (hasFlag flags SCRIPT_VERIFY_MINIMALDATA) m

/-- `OP_CHECKSEQUENCEVERIFY` once its flag is set: the relative lock time on top must be satisfied. -/
def checkSequenceOperand (fRequireMinimal : Bool) (m : Machine) : Except Stop Machine :=
  match m.stack with
  | [] => invalidStackOperation
  | top :: _ => do
      let nSequence ← CScriptNum.ofVch top fRequireMinimal 5
      failIf (nSequence.m_value < 0) .NEGATIVE_LOCKTIME
      -- with the disable flag set the operand is a `NOP`; `m_value` is not negative here
      if nSequence.m_value.toNat &&& SEQUENCE_LOCKTIME_DISABLE_FLAG ≠ 0 then pure m
      else do
        failIf (!checker.checkSequence nSequence) .UNSATISFIED_LOCKTIME
        pure m

/-- `OP_CHECKSEQUENCEVERIFY`, a `NOP3` unless its flag is set. -/
def opCheckSequenceVerify (flags : UInt32) (m : Machine) : Except Stop Machine :=
  if !hasFlag flags SCRIPT_VERIFY_CHECKSEQUENCEVERIFY then do
    failIf (hasFlag flags SCRIPT_VERIFY_DISCOURAGE_UPGRADABLE_NOPS) .DISCOURAGE_UPGRADABLE_NOPS
    pure m
  else checkSequenceOperand checker (hasFlag flags SCRIPT_VERIFY_MINIMALDATA) m

/-- The `MINIMALIF` rule for the condition of an `IF` in a witness script. -/
def checkMinimalIf (flags : UInt32) (sigversion : SigVersion) (vch : valtype) :
    Except Stop Unit :=
  if sigversion == .WITNESS_V0 && hasFlag flags SCRIPT_VERIFY_MINIMALIF then do
    failIf (vch.length > 1) .MINIMALIF
    failIf (vch.length == 1 && vch.getD 0 0 != 1) .MINIMALIF
  else pure ()

/-- `OP_IF` and `OP_NOTIF`: open a branch, taken when the popped condition holds. -/
def opIf (flags : UInt32) (sigversion : SigVersion) (fExec notIf : Bool) (m : Machine) :
    Except Stop Machine :=
  if fExec then
    match m.stack with
    | [] => throw (.error .UNBALANCED_CONDITIONAL)
    | vch :: rest => do
        checkMinimalIf flags sigversion vch
        let fValue := if notIf then !castToBool vch else castToBool vch
        pure { m with stack := rest, vfExec := fValue :: m.vfExec }
  else pure { m with vfExec := false :: m.vfExec }

/-- `OP_PICK` and `OP_ROLL`: copy or move the element `n` below the popped `n`. -/
def opPickOrRoll (fRequireMinimal roll : Bool) (m : Machine) : Except Stop Machine :=
  match m.stack with
  | top :: rest@(_ :: _) => do
      let n := (← CScriptNum.ofVch top fRequireMinimal CScriptNum.nDefaultMaxNumSize).getint
      failIf (n < 0 || n ≥ rest.length) .INVALID_STACK_OPERATION
      let vch := rest.getD n.toNat []
      pure { m with stack := vch :: if roll then rest.eraseIdx n.toNat else rest }
  | _ => invalidStackOperation

/-- `OP_EQUAL` and `OP_EQUALVERIFY`. -/
def opEqual (verify : Bool) (m : Machine) : Except Stop Machine :=
  match m.stack with
  | vch2 :: vch1 :: rest =>
      let fEqual := vch1 == vch2
      if verify then
        if fEqual then pure { m with stack := rest } else throw (.error .EQUALVERIFY)
      else pure { m with stack := (if fEqual then vchTrue else vchFalse) :: rest }
  | _ => invalidStackOperation

/-- `OP_1ADD` to `OP_0NOTEQUAL`. -/
def opUnary (fRequireMinimal : Bool) (op : UnaryOp) (m : Machine) : Except Stop Machine :=
  match m.stack with
  | [] => invalidStackOperation
  | top :: rest => do
      let bn ← CScriptNum.ofVch top fRequireMinimal CScriptNum.nDefaultMaxNumSize
      let bn ← op.apply bn
      pure { m with stack := bn.getvch :: rest }

/-- `OP_ADD` to `OP_MAX`. -/
def opBinary (fRequireMinimal : Bool) (op : BinaryOp) (m : Machine) : Except Stop Machine :=
  match m.stack with
  | vch2 :: vch1 :: rest => do
      let bn1 ← CScriptNum.ofVch vch1 fRequireMinimal CScriptNum.nDefaultMaxNumSize
      let bn2 ← CScriptNum.ofVch vch2 fRequireMinimal CScriptNum.nDefaultMaxNumSize
      let bn ← op.apply bn1 bn2
      if op == .numEqualVerify then
        if castToBool bn.getvch then pure { m with stack := rest }
        else throw (.error .NUMEQUALVERIFY)
      else pure { m with stack := bn.getvch :: rest }
  | _ => invalidStackOperation

/-- `OP_WITHIN`: `min <= x < max`. -/
def opWithin (fRequireMinimal : Bool) (m : Machine) : Except Stop Machine :=
  match m.stack with
  | vch3 :: vch2 :: vch1 :: rest => do
      let bn1 ← CScriptNum.ofVch vch1 fRequireMinimal CScriptNum.nDefaultMaxNumSize
      let bn2 ← CScriptNum.ofVch vch2 fRequireMinimal CScriptNum.nDefaultMaxNumSize
      let bn3 ← CScriptNum.ofVch vch3 fRequireMinimal CScriptNum.nDefaultMaxNumSize
      let fValue := bn2.m_value ≤ bn1.m_value && bn1.m_value < bn3.m_value
      pure { m with stack := (if fValue then vchTrue else vchFalse) :: rest }
  | _ => invalidStackOperation

/-- The script a signature commits to: from the last `OP_CODESEPARATOR`, without the signatures. -/
def scriptCodeFor (sigversion : SigVersion) (pbegincodehash : CScript) (sigs : List valtype) :
    CScript :=
  -- the signatures are dropped in pre-segwit scripts only
  if sigversion == .BASE then
    sigs.foldl (fun scriptCode vchSig =>
      (CScript.findAndDelete scriptCode (CScript.pushVector [] vchSig)).1) pbegincodehash
  else pbegincodehash

/-- `OP_CHECKSIG` and `OP_CHECKSIGVERIFY`. -/
def opCheckSig (flags : UInt32) (sigversion : SigVersion) (verify : Bool) (m : Machine) :
    Except Stop Machine :=
  match m.stack with
  | vchPubKey :: vchSig :: rest => do
      let scriptCode := scriptCodeFor sigversion m.pbegincodehash [vchSig]
      checkSignatureEncoding crypto vchSig flags
      checkPubKeyEncoding vchPubKey flags sigversion
      let fSuccess := checker.checkSig vchSig vchPubKey scriptCode sigversion
      failIf (!fSuccess && hasFlag flags SCRIPT_VERIFY_NULLFAIL && vchSig.length > 0) .SIG_NULLFAIL
      if verify then
        if fSuccess then pure { m with stack := rest } else throw (.error .CHECKSIGVERIFY)
      else pure { m with stack := (if fSuccess then vchTrue else vchFalse) :: rest }
  | _ => invalidStackOperation

/--
The signature loop of `OP_CHECKMULTISIG`: each signature, in order, must
match one of the keys left after the key it matched before.  It gives up once
more signatures than keys are left.
-/
def matchSignatures (flags : UInt32) (sigversion : SigVersion) (scriptCode : CScript) :
    List valtype → List valtype → Except Stop Bool
  | [], _ => pure true
  -- not reached: the loop never has more signatures than keys left
  | _ :: _, [] => pure false
  | vchSig :: sigs, vchPubKey :: keys => do
      checkSignatureEncoding crypto vchSig flags
      checkPubKeyEncoding vchPubKey flags sigversion
      let remaining :=
        if checker.checkSig vchSig vchPubKey scriptCode sigversion then sigs else vchSig :: sigs
      if remaining.length > keys.length then pure false
      else matchSignatures flags sigversion scriptCode remaining keys

/--
The clean-up loop of `OP_CHECKMULTISIG`: pop `count` arguments; once the
first `ikey2` are popped, a failed check with `NULLFAIL` requires the
signatures to be empty.
-/
def popArguments (nullFail : Bool) : (count ikey2 : Nat) → List valtype → Except Stop (List valtype)
  | 0, _, stack => pure stack
  | count + 1, ikey2, stack =>
      match stack with
      -- `popstack` throws on an empty stack; the size checks before rule it out
      | [] => throw (.thrown "popstack(): stack empty")
      | top :: rest => do
          failIf (nullFail && ikey2 == 0 && top.length > 0) .SIG_NULLFAIL
          popArguments nullFail count (ikey2 - 1) rest

/--
`OP_CHECKMULTISIG` and `OP_CHECKMULTISIGVERIFY` on `dummy [sig ...] nSigs
[pubkey ...] nKeys`, the key count on top.
-/
def opCheckMultiSig (flags : UInt32) (sigversion : SigVersion) (verify : Bool) (m : Machine) :
    Except Stop Machine := do
  let fRequireMinimal := hasFlag flags SCRIPT_VERIFY_MINIMALDATA
  failIf (m.stack.length < 1) .INVALID_STACK_OPERATION
  let nKeysCount :=
    (← CScriptNum.ofVch (m.stack.getD 0 []) fRequireMinimal CScriptNum.nDefaultMaxNumSize).getint
  failIf (nKeysCount < 0 || nKeysCount > MAX_PUBKEYS_PER_MULTISIG) .PUBKEY_COUNT
  let nKeys := nKeysCount.toNat
  let nOpCount := m.nOpCount + nKeys
  failIf (nOpCount > MAX_OPS_PER_SCRIPT) .OP_COUNT
  failIf (m.stack.length < 2 + nKeys) .INVALID_STACK_OPERATION
  let nSigsCount :=
    (← CScriptNum.ofVch (m.stack.getD (1 + nKeys) []) fRequireMinimal
      CScriptNum.nDefaultMaxNumSize).getint
  failIf (nSigsCount < 0 || nSigsCount > nKeysCount) .SIG_COUNT
  let nSigs := nSigsCount.toNat
  failIf (m.stack.length < 3 + nKeys + nSigs) .INVALID_STACK_OPERATION
  let keys := (m.stack.drop 1).take nKeys
  let sigs := (m.stack.drop (2 + nKeys)).take nSigs
  let scriptCode := scriptCodeFor sigversion m.pbegincodehash sigs
  let fSuccess ← matchSignatures crypto checker flags sigversion scriptCode sigs keys
  let stack ← popArguments (!fSuccess && hasFlag flags SCRIPT_VERIFY_NULLFAIL)
    (2 + nKeys + nSigs) (2 + nKeys) m.stack
  -- the extra argument that a bug makes `CHECKMULTISIG` consume
  match stack with
  | [] => invalidStackOperation
  | dummy :: rest => do
      failIf (hasFlag flags SCRIPT_VERIFY_NULLDUMMY && dummy.length > 0) .SIG_NULLDUMMY
      if verify then
        if fSuccess then pure { m with stack := rest, nOpCount }
        else throw (.error .CHECKMULTISIGVERIFY)
      else pure { m with stack := (if fSuccess then vchTrue else vchFalse) :: rest, nOpCount }

/-- The `switch (opcode)` of `EvalScript`, for an operation that is not a data push. -/
def execute (flags : UInt32) (sigversion : SigVersion) (fExec : Bool) (op : Op) (m : Machine) :
    Except Stop Machine :=
  let fRequireMinimal := hasFlag flags SCRIPT_VERIFY_MINIMALDATA
  match decodeOp op.opcode with
  | .pushNumber n => pure { m with stack := (CScriptNum.mk n).getvch :: m.stack }
  | .nop => pure m
  | .checkLockTimeVerify => opCheckLockTimeVerify checker flags m
  | .checkSequenceVerify => opCheckSequenceVerify checker flags m
  | .upgradableNop => do
      failIf (hasFlag flags SCRIPT_VERIFY_DISCOURAGE_UPGRADABLE_NOPS) .DISCOURAGE_UPGRADABLE_NOPS
      pure m
  | .conditional notIf => opIf flags sigversion fExec notIf m
  | .elseBranch =>
      match m.vfExec with
      | [] => throw (.error .UNBALANCED_CONDITIONAL)
      | fValue :: rest => pure { m with vfExec := (!fValue) :: rest }
  | .endIf =>
      match m.vfExec with
      | [] => throw (.error .UNBALANCED_CONDITIONAL)
      | _ :: rest => pure { m with vfExec := rest }
  | .verify =>
      match m.stack with
      | [] => invalidStackOperation
      | top :: rest => if castToBool top then pure { m with stack := rest } else throw (.error .VERIFY)
  | .opReturn => throw (.error .OP_RETURN)
  | .toAltStack =>
      match m.stack with
      | [] => invalidStackOperation
      | top :: rest => pure { m with stack := rest, altstack := top :: m.altstack }
  | .fromAltStack =>
      match m.altstack with
      | [] => throw (.error .INVALID_ALTSTACK_OPERATION)
      | top :: rest => pure { m with stack := top :: m.stack, altstack := rest }
  | .shuffle kind =>
      match kind.apply m.stack with
      | none => invalidStackOperation
      | some stack => pure { m with stack }
  | .ifDup =>
      match m.stack with
      | [] => invalidStackOperation
      | top :: rest =>
          pure { m with stack := if castToBool top then top :: top :: rest else top :: rest }
  | .depth => pure { m with stack := (CScriptNum.mk m.stack.length).getvch :: m.stack }
  | .pickOrRoll roll => opPickOrRoll fRequireMinimal roll m
  | .size =>
      match m.stack with
      | [] => invalidStackOperation
      | top :: rest => pure { m with stack := (CScriptNum.mk top.length).getvch :: top :: rest }
  | .equal verify => opEqual verify m
  | .unary op => opUnary fRequireMinimal op m
  | .binary op => opBinary fRequireMinimal op m
  | .within => opWithin fRequireMinimal m
  | .hash kind =>
      match m.stack with
      | [] => invalidStackOperation
      | top :: rest => pure { m with stack := kind.digest crypto top :: rest }
  | .codeSeparator => pure { m with pbegincodehash := op.after }
  | .checkSig verify => opCheckSig crypto checker flags sigversion verify m
  | .checkMultiSig verify => opCheckMultiSig crypto checker flags sigversion verify m
  | .bad => throw (.error .BAD_OPCODE)

/-! ## The loop -/

/--
The operation once its checks have passed: a push when it is executed, a
branch of the `switch` when it is executed or opens or closes a branch,
nothing otherwise.
-/
def dispatch (flags : UInt32) (sigversion : SigVersion) (fExec : Bool) (op : Op) (m : Machine) :
    Except Stop Machine :=
  if fExec && op.opcode ≤ OP_PUSHDATA4 then do
    failIf (hasFlag flags SCRIPT_VERIFY_MINIMALDATA && !checkMinimalPush op.vchPushValue op.opcode)
      .MINIMALDATA
    pure { m with stack := op.vchPushValue :: m.stack }
  else if fExec || (OP_IF ≤ op.opcode && op.opcode ≤ OP_ENDIF) then
    execute crypto checker flags sigversion fExec op m
  else pure m

/-- One turn of the loop of `EvalScript`, after `GetOp` has read `op`. -/
def evalStep (flags : UInt32) (sigversion : SigVersion) (m : Machine) (op : Op) :
    Except Stop Machine := do
  let fExec := m.vfExec.count false == 0
  failIf (op.vchPushValue.length > MAX_SCRIPT_ELEMENT_SIZE) .PUSH_SIZE
  -- `OP_RESERVED` and the pushes do not count towards the limit
  let nOpCount := if op.opcode > OP_16 then m.nOpCount + 1 else m.nOpCount
  failIf (op.opcode > OP_16 && nOpCount > MAX_OPS_PER_SCRIPT) .OP_COUNT
  failIf (isDisabled op.opcode) .DISABLED_OPCODE
  let m ← dispatch crypto checker flags sigversion fExec op { m with nOpCount }
  failIf (m.stack.length + m.altstack.length > 1000) .STACK_SIZE
  pure m

/-- `catch (...)`: every exception becomes `SCRIPT_ERR_UNKNOWN_ERROR`. -/
def catchAll {α : Type} (run : Except Stop α) : Except Stop α :=
  tryCatch run fun stop =>
    match stop with
    | .thrown _ => throw (.error .UNKNOWN_ERROR)
    | stop => throw stop

/-- The loop of `EvalScript` over the operations of a script, inside its `try`. -/
def evalLoop (stack : List valtype) (script : CScript) (flags : UInt32) (sigversion : SigVersion) :
    Except Stop Machine := do
  let m ← (CScript.ops script).1.foldlM (evalStep crypto checker flags sigversion)
    (Machine.start stack script)
  -- `GetOp` failed before the end of the script
  failIf (!(CScript.ops script).2) .BAD_OPCODE
  pure m

/-- `EvalScript`: the stack after the script, or how the script stopped. -/
def evalScript (stack : List valtype) (script : CScript) (flags : UInt32)
    (sigversion : SigVersion) : Except Stop (List valtype) := do
  failIf (script.length > MAX_SCRIPT_SIZE) .SCRIPT_SIZE
  let m ← catchAll (evalLoop crypto checker stack script flags sigversion)
  failIf (!m.vfExec.isEmpty) .UNBALANCED_CONDITIONAL
  pure m.stack

end Branches

end Dogecoin.Script
