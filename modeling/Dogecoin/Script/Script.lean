import Dogecoin.Primitives.Transaction
import Dogecoin.Lib.LittleEndian

/-!
# Scripts, their operations and script numbers

The parts of `script/script.h`, `script/script.cpp` and `script/script_error.h`
that the interpreter uses.

A script is read one operation at a time by `CScript::GetOp`: an opcode byte
and, for the opcodes up to `OP_PUSHDATA4`, the bytes it pushes.  `GetOp` reads
nothing from the state of the interpreter, so the operations of a script are
the ones it reads from the start one after another, each together with the
bytes that follow it, until the end of the script or until `GetOp` fails.
Every loop of the source that calls `GetOp` to the end runs over this list.

A `CScriptNum` is an `int64_t`.  Its byte form is little-endian with the sign
in the top bit of the last byte.  Decoding throws `scriptnum_error` for more
bytes than the caller allows and, on request, for a non-minimal form.  The
arithmetic operators either assert that the result fits in 64 bits or
compute it in `int64_t`, where an overflow is undefined behaviour.  Both end
in `Stop.abort` here.

The interpreter stops a script in one of three ways (`Stop`).  It can return
an error code, or throw a C++ exception that `EvalScript` catches, or abort
the process on an assertion.
-/

namespace Dogecoin.Script

open Dogecoin.Primitives LittleEndian

/-! ## Errors -/

/-- `ScriptError` (script/script_error.h), without the `SCRIPT_ERR_` prefix. -/
inductive ScriptError
  | UNKNOWN_ERROR | EVAL_FALSE | OP_RETURN
  | SCRIPT_SIZE | PUSH_SIZE | OP_COUNT | STACK_SIZE | SIG_COUNT | PUBKEY_COUNT
  | VERIFY | EQUALVERIFY | CHECKMULTISIGVERIFY | CHECKSIGVERIFY | NUMEQUALVERIFY
  | BAD_OPCODE | DISABLED_OPCODE | INVALID_STACK_OPERATION | INVALID_ALTSTACK_OPERATION
  | UNBALANCED_CONDITIONAL
  | NEGATIVE_LOCKTIME | UNSATISFIED_LOCKTIME
  | SIG_HASHTYPE | SIG_DER | MINIMALDATA | SIG_PUSHONLY | SIG_HIGH_S | SIG_NULLDUMMY
  | PUBKEYTYPE | CLEANSTACK | MINIMALIF | SIG_NULLFAIL
  | DISCOURAGE_UPGRADABLE_NOPS | DISCOURAGE_UPGRADABLE_WITNESS_PROGRAM
  | WITNESS_PROGRAM_WRONG_LENGTH | WITNESS_PROGRAM_WITNESS_EMPTY | WITNESS_PROGRAM_MISMATCH
  | WITNESS_MALLEATED | WITNESS_MALLEATED_P2SH | WITNESS_UNEXPECTED | WITNESS_PUBKEYTYPE
deriving DecidableEq, Repr

/-- How the interpreter stops before the end of a script. -/
inductive Stop
  /-- `return set_error(serror, ...)`: the script fails with an error code. -/
  | error (serror : ScriptError)
  /-- A C++ exception, with its text. -/
  | thrown (what : String)
  /-- A failed `assert`, or a signed 64-bit overflow, whose behaviour C++ leaves undefined. -/
  | abort
deriving DecidableEq, Repr

/-- `if (condition) return set_error(serror, code)`. -/
def failIf (condition : Bool) (serror : ScriptError) : Except Stop Unit :=
  if condition then throw (.error serror) else pure ()

@[simp]
theorem failIf_eq_ok {condition : Bool} {serror : ScriptError} {u : Unit} :
    failIf condition serror = .ok u ↔ condition = false := by
  cases condition <;> simp [failIf, throw, throwThe, MonadExceptOf.throw, pure, Except.pure]

/-! ## Opcodes -/

/-- `valtype`: an element of the stack. -/
abbrev valtype := List UInt8

def OP_0 : UInt8 := 0x00
def OP_PUSHDATA1 : UInt8 := 0x4c
def OP_PUSHDATA2 : UInt8 := 0x4d
def OP_PUSHDATA4 : UInt8 := 0x4e
def OP_1NEGATE : UInt8 := 0x4f
def OP_1 : UInt8 := 0x51
def OP_16 : UInt8 := 0x60
def OP_NOP : UInt8 := 0x61
def OP_IF : UInt8 := 0x63
def OP_NOTIF : UInt8 := 0x64
def OP_ELSE : UInt8 := 0x67
def OP_ENDIF : UInt8 := 0x68
def OP_VERIFY : UInt8 := 0x69
def OP_TOALTSTACK : UInt8 := 0x6b
def OP_FROMALTSTACK : UInt8 := 0x6c
def OP_2DROP : UInt8 := 0x6d
def OP_2DUP : UInt8 := 0x6e
def OP_3DUP : UInt8 := 0x6f
def OP_2OVER : UInt8 := 0x70
def OP_2ROT : UInt8 := 0x71
def OP_2SWAP : UInt8 := 0x72
def OP_IFDUP : UInt8 := 0x73
def OP_DEPTH : UInt8 := 0x74
def OP_DROP : UInt8 := 0x75
def OP_NIP : UInt8 := 0x77
def OP_OVER : UInt8 := 0x78
def OP_PICK : UInt8 := 0x79
def OP_ROLL : UInt8 := 0x7a
def OP_ROT : UInt8 := 0x7b
def OP_SWAP : UInt8 := 0x7c
def OP_TUCK : UInt8 := 0x7d
def OP_CAT : UInt8 := 0x7e
def OP_SUBSTR : UInt8 := 0x7f
def OP_LEFT : UInt8 := 0x80
def OP_RIGHT : UInt8 := 0x81
def OP_SIZE : UInt8 := 0x82
def OP_INVERT : UInt8 := 0x83
def OP_AND : UInt8 := 0x84
def OP_OR : UInt8 := 0x85
def OP_XOR : UInt8 := 0x86
def OP_1ADD : UInt8 := 0x8b
def OP_1SUB : UInt8 := 0x8c
def OP_2MUL : UInt8 := 0x8d
def OP_2DIV : UInt8 := 0x8e
def OP_NEGATE : UInt8 := 0x8f
def OP_ABS : UInt8 := 0x90
def OP_NOT : UInt8 := 0x91
def OP_0NOTEQUAL : UInt8 := 0x92
def OP_ADD : UInt8 := 0x93
def OP_SUB : UInt8 := 0x94
def OP_MUL : UInt8 := 0x95
def OP_DIV : UInt8 := 0x96
def OP_MOD : UInt8 := 0x97
def OP_LSHIFT : UInt8 := 0x98
def OP_RSHIFT : UInt8 := 0x99
def OP_BOOLAND : UInt8 := 0x9a
def OP_BOOLOR : UInt8 := 0x9b
def OP_NUMEQUAL : UInt8 := 0x9c
def OP_NUMEQUALVERIFY : UInt8 := 0x9d
def OP_NUMNOTEQUAL : UInt8 := 0x9e
def OP_LESSTHAN : UInt8 := 0x9f
def OP_GREATERTHAN : UInt8 := 0xa0
def OP_LESSTHANOREQUAL : UInt8 := 0xa1
def OP_GREATERTHANOREQUAL : UInt8 := 0xa2
def OP_MIN : UInt8 := 0xa3
def OP_MAX : UInt8 := 0xa4
def OP_WITHIN : UInt8 := 0xa5
def OP_RIPEMD160 : UInt8 := 0xa6
def OP_SHA1 : UInt8 := 0xa7
def OP_SHA256 : UInt8 := 0xa8
def OP_HASH256 : UInt8 := 0xaa
def OP_CODESEPARATOR : UInt8 := 0xab
def OP_CHECKSIGVERIFY : UInt8 := 0xad
def OP_CHECKMULTISIG : UInt8 := 0xae
def OP_CHECKMULTISIGVERIFY : UInt8 := 0xaf
def OP_NOP1 : UInt8 := 0xb0
def OP_CHECKLOCKTIMEVERIFY : UInt8 := 0xb1
def OP_CHECKSEQUENCEVERIFY : UInt8 := 0xb2
def OP_NOP4 : UInt8 := 0xb3
def OP_NOP5 : UInt8 := 0xb4
def OP_NOP6 : UInt8 := 0xb5
def OP_NOP7 : UInt8 := 0xb6
def OP_NOP8 : UInt8 := 0xb7
def OP_NOP9 : UInt8 := 0xb8
def OP_NOP10 : UInt8 := 0xb9

/-- `MAX_SCRIPT_ELEMENT_SIZE`: the most bytes one push may push. -/
def MAX_SCRIPT_ELEMENT_SIZE : Nat := 520

/-- `MAX_OPS_PER_SCRIPT`: the most non-push operations in one script. -/
def MAX_OPS_PER_SCRIPT : Nat := 201

/-- `MAX_PUBKEYS_PER_MULTISIG`. -/
def MAX_PUBKEYS_PER_MULTISIG : Int := 20

/-! ## Reading operations -/

/-- An operation as `GetOp` reads it: the opcode, the bytes it pushes, and the script after it. -/
structure Op where
  opcode : UInt8
  vchPushValue : valtype
  after : CScript
deriving DecidableEq, Repr

/--
The size of the data a push opcode pushes, read from the bytes after the
opcode, and the bytes after the size.
-/
def pushSize (opcode : UInt8) (pc : CScript) : Option (Nat × CScript) :=
  if opcode < OP_PUSHDATA1 then some (opcode.toNat, pc)
  else if opcode = OP_PUSHDATA1 then
    match pc with
    | [] => none
    | nSize :: pc => some (nSize.toNat, pc)
  else if opcode = OP_PUSHDATA2 then
    if pc.length < 2 then none else some (leValue (pc.take 2), pc.drop 2)
  else if pc.length < 4 then none else some (leValue (pc.take 4), pc.drop 4)

/-- `CScript::GetOp2`: the operation at the front of `pc`. -/
def getOp (pc : CScript) : Option Op :=
  match pc with
  | [] => none
  | opcode :: pc =>
      if opcode ≤ OP_PUSHDATA4 then
        match pushSize opcode pc with
        | none => none
        | some (nSize, pc) =>
            if pc.length < nSize then none else some ⟨opcode, pc.take nSize, pc.drop nSize⟩
      else some ⟨opcode, [], pc⟩

theorem pushSize_shorter {opcode : UInt8} {pc rest : CScript} {nSize : Nat}
    (read : pushSize opcode pc = some (nSize, rest)) : rest.length ≤ pc.length := by
  unfold pushSize at read
  split at read
  · cases read
    exact Nat.le_refl _
  · split at read
    · split at read
      · cases read
      · cases read
        simp
    · split at read
      · split at read
        · cases read
        · cases read
          simp
      · split at read
        · cases read
        · cases read
          simp

/-- `GetOp` reads at least the opcode byte. -/
theorem getOp_shorter {pc : CScript} {op : Op} (read : getOp pc = some op) :
    op.after.length < pc.length := by
  cases pc with
  | nil => simp [getOp] at read
  | cons opcode pc =>
      simp only [getOp] at read
      split at read
      · split at read
        · cases read
        · rename_i nSize rest sized
          have shorter := pushSize_shorter sized
          split at read
          · cases read
          · cases read
            simp only [List.length_drop, List.length_cons]
            omega
      · cases read
        simp

/--
The operations that `GetOp` reads from `pc` one after another, and whether it
read to the end (`false` when `GetOp` fails first).  `bound` bounds the length
of `pc`, so that the recursion is structural.
-/
def readOps : (bound : Nat) → (pc : CScript) → pc.length ≤ bound → List Op × Bool
  | _, [], _ => ([], true)
  | 0, _ :: _, short => absurd short (Nat.not_succ_le_zero _)
  | bound + 1, opcode :: pc, short =>
      match read : getOp (opcode :: pc) with
      | none => ([], false)
      | some op =>
          let next := readOps bound op.after (by
            have := getOp_shorter read
            simp only [List.length_cons] at this short
            omega)
          (op :: next.1, next.2)

/-- The operations of a script, and whether `GetOp` reads them to its end. -/
def CScript.ops (script : CScript) : List Op × Bool :=
  readOps script.length script (Nat.le_refl _)

theorem readOps_bound : ∀ (bound bound' : Nat) (pc : CScript) (short : pc.length ≤ bound)
    (short' : pc.length ≤ bound'), readOps bound pc short = readOps bound' pc short'
  | _, _, [], _, _ => by simp only [readOps]
  | 0, _, _ :: _, short, _ => absurd short (Nat.not_succ_le_zero _)
  | _, 0, _ :: _, _, short' => absurd short' (Nat.not_succ_le_zero _)
  | bound + 1, bound' + 1, opcode :: pc, short, short' => by
      simp only [readOps]
      split
      · rfl
      · rw [readOps_bound bound bound']

@[simp]
theorem ops_nil : CScript.ops [] = ([], true) := by
  simp [CScript.ops, readOps]

/-- The unfolding of `CScript.ops`: read one operation, then the operations after it. -/
theorem ops_cons (opcode : UInt8) (pc : CScript) :
    CScript.ops (opcode :: pc) =
      match getOp (opcode :: pc) with
      | none => ([], false)
      | some op => (op :: (CScript.ops op.after).1, (CScript.ops op.after).2) := by
  unfold CScript.ops
  simp only [readOps, List.length_cons]
  split
  · rename_i read
    simp only [read]
  · rename_i op read
    have shorter := getOp_shorter read
    simp only [List.length_cons] at shorter
    simp only [read]
    rw [readOps_bound pc.length op.after.length op.after (by omega) (Nat.le_refl _)]

theorem length_readOps_le : ∀ (bound : Nat) (pc : CScript) (short : pc.length ≤ bound),
    (readOps bound pc short).1.length ≤ pc.length
  | _, [], _ => by simp [readOps]
  | 0, _ :: _, short => absurd short (Nat.not_succ_le_zero _)
  | bound + 1, opcode :: pc, short => by
      simp only [readOps]
      split
      · simp
      · rename_i op read
        have shorter := getOp_shorter read
        simp only [List.length_cons] at shorter short ⊢
        have rest := length_readOps_le bound op.after (by omega)
        omega

/-- The loop over a script ends: it reads at most one operation for every byte. -/
theorem length_ops_le (script : CScript) : (CScript.ops script).1.length ≤ script.length :=
  length_readOps_le _ _ _

/-! ## Templates -/

/-- `CScript::operator<<(const std::vector<unsigned char>&)`: push `b` with the shortest size prefix. -/
def CScript.pushVector (script : CScript) (b : valtype) : CScript :=
  script ++
    (if b.length < OP_PUSHDATA1.toNat then [UInt8.ofNat b.length]
    else if b.length ≤ 0xff then [OP_PUSHDATA1, UInt8.ofNat b.length]
    else if b.length ≤ 0xffff then OP_PUSHDATA2 :: leBytes 2 b.length
    else OP_PUSHDATA4 :: leBytes 4 b.length) ++ b

/-- `CScript::IsPushOnly`: every operation is a push, up to `OP_16`. -/
def CScript.isPushOnly (script : CScript) : Bool :=
  (CScript.ops script).2 && (CScript.ops script).1.all fun op => op.opcode ≤ OP_16

/-- `CScript::IsPayToScriptHash`: `OP_HASH160 <20 bytes> OP_EQUAL`. -/
def CScript.isPayToScriptHash (script : CScript) : Bool :=
  script.length == 23 && script.getD 0 0 == OP_HASH160 && script.getD 1 0 == 0x14 &&
    script.getD 22 0 == OP_EQUAL

/-- `CScript::DecodeOP_N`, which its callers only call on `OP_0` to `OP_16`. -/
def decodeOP_N (opcode : UInt8) : Nat :=
  if opcode = OP_0 then 0 else opcode.toNat - (OP_1.toNat - 1)

/--
`CScript::IsWitnessProgram`: a push of `OP_0` to `OP_16` followed by a direct
push of 2 to 40 bytes; the version and the program.
-/
def CScript.isWitnessProgram (script : CScript) : Option (Nat × valtype) :=
  if script.length < 4 || script.length > 42 then none
  else if script.getD 0 0 ≠ OP_0 && (script.getD 0 0 < OP_1 || script.getD 0 0 > OP_16) then none
  else if (script.getD 1 0).toNat + 2 = script.length then
    some (decodeOP_N (script.getD 0 0), script.drop 2)
  else none

/-- A pay-to-script-hash script starts with `OP_HASH160`. -/
theorem head_of_isPayToScriptHash {script : CScript}
    (p2sh : CScript.isPayToScriptHash script = true) : ∃ rest, script = OP_HASH160 :: rest := by
  cases script with
  | nil => simp [CScript.isPayToScriptHash] at p2sh
  | cons opcode rest =>
      simp only [CScript.isPayToScriptHash, Bool.and_eq_true, beq_iff_eq, List.getD_cons_zero]
        at p2sh
      exact ⟨rest, by rw [p2sh.1.1.2]⟩

/-- `CScriptWitness`: the witness stack of an input, bottom first. -/
structure CScriptWitness where
  stack : List valtype
deriving DecidableEq, Repr

/-- `CScriptWitness::IsNull`. -/
def CScriptWitness.isNull (witness : CScriptWitness) : Bool :=
  witness.stack.isEmpty

/-! ## `FindAndDelete` -/

/-- The inner `while` of `FindAndDelete`: skip every copy of `b` at the front of `pc`. -/
def skipCopies (b pc : CScript) : CScript × Nat :=
  -- `b` is not empty: `FindAndDelete` returns before the loop when it is
  if copy : b ≠ [] ∧ b.length ≤ pc.length ∧ pc.take b.length = b then
    let skipped := skipCopies b (pc.drop b.length)
    (skipped.1, skipped.2 + 1)
  else (pc, 0)
termination_by pc.length
decreasing_by
  have : 0 < b.length := List.length_pos_iff.2 copy.1
  simp only [List.length_drop]
  omega

theorem skipCopies_shorter (b pc : CScript) : (skipCopies b pc).1.length ≤ pc.length := by
  rw [skipCopies]
  split
  · have := skipCopies_shorter b (pc.drop b.length)
    simp only [List.length_drop] at this ⊢
    omega
  · exact Nat.le_refl _
termination_by pc.length
decreasing_by
  rename_i copy
  have : 0 < b.length := List.length_pos_iff.2 copy.1
  simp only [List.length_drop]
  omega

set_option linter.unusedVariables false in
/--
The `do ... while (GetOp(pc, opcode))` loop of `FindAndDelete` from an
operation boundary `pc`: the bytes it keeps, and how many copies of `b` it
skips.  After the copies at `pc` it keeps the bytes of the next operation, or
every byte from there on when `GetOp` fails.
-/
def findAndDeleteFrom (b pc : CScript) : CScript × Nat :=
  let skipped := skipCopies b pc
  match read : getOp skipped.1 with
  | none => skipped
  | some op =>
      let rest := findAndDeleteFrom b op.after
      (skipped.1.take (skipped.1.length - op.after.length) ++ rest.1, skipped.2 + rest.2)
termination_by pc.length
decreasing_by exact Nat.lt_of_lt_of_le (getOp_shorter read) (skipCopies_shorter b pc)

/-- `CScript::FindAndDelete`: the script without the copies of `b` at operation boundaries. -/
def CScript.findAndDelete (script b : CScript) : CScript × Nat :=
  if b = [] then (script, 0)
  else
    let found := findAndDeleteFrom b script
    if found.2 > 0 then found else (script, found.2)

/-! ## Script numbers -/

/-- `std::numeric_limits<int64_t>::min()`. -/
def INT64_MIN : Int := -2 ^ 63

/-- `std::numeric_limits<int64_t>::max()`. -/
def INT64_MAX : Int := 2 ^ 63 - 1

/-- `CScriptNum`: a script number, the `int64_t` `m_value`. -/
structure CScriptNum where
  m_value : Int
deriving DecidableEq, Repr

namespace CScriptNum

/-- `CScriptNum::nDefaultMaxNumSize`. -/
def nDefaultMaxNumSize : Nat := 4

/--
The minimal-encoding test of the constructor: the last byte is zero but for
the sign bit, and the byte before it does not need that bit.
-/
def nonMinimal (vch : valtype) : Bool :=
  match vch.reverse with
  | [] => false
  | back :: below =>
      back &&& 0x7f == 0 &&
        match below with
        | [] => true
        | next :: _ => next &&& 0x80 == 0

/--
`CScriptNum::set_vch`: the little-endian value of the bytes, negative when the
top bit of the last byte is set.  Clearing that bit, bit `8 * size - 1` of the
value, leaves the value modulo `2 ^ (8 * size - 1)`.  This is the `int64_t` the
code computes for at most 8 bytes; from the ninth byte on it shifts by 64 bits or
more, which C++ leaves undefined, so results about longer vectors say nothing of it.
-/
def setVch (vch : valtype) : Int :=
  match vch.getLast? with
  | none => 0
  | some back =>
      if back &&& 0x80 ≠ 0 then -((leValue vch % 2 ^ (8 * vch.length - 1) : Nat) : Int)
      else leValue vch

/-- The constructor `CScriptNum(vch, fRequireMinimal, nMaxNumSize)`, which throws `scriptnum_error`. -/
def ofVch (vch : valtype) (fRequireMinimal : Bool) (nMaxNumSize : Nat) : Except Stop CScriptNum :=
  if vch.length > nMaxNumSize then throw (.thrown "script number overflow")
  else if fRequireMinimal && nonMinimal vch then
    throw (.thrown "non-minimally encoded script number")
  else pure ⟨setVch vch⟩

/-- The `while (absvalue > 0)` loop of `serialize`; `bound` bounds `absvalue`. -/
def magnitudeBytes : (bound absvalue : Nat) → absvalue ≤ bound → valtype
  | 0, _, _ => []
  | bound + 1, absvalue, small =>
      if zero : absvalue = 0 then []
      else UInt8.ofNat absvalue :: magnitudeBytes bound (absvalue / 256) (by omega)

/-- `CScriptNum::serialize`: the shortest byte form of a value. -/
def serialize (value : Int) : valtype :=
  if value = 0 then []
  else
    let neg := decide (value < 0)
    let result := magnitudeBytes value.natAbs value.natAbs (Nat.le_refl _)
    match result.getLast? with
    | none => result
    | some back =>
        if back &&& 0x80 ≠ 0 then result ++ [if neg then 0x80 else 0]
        else if neg then result.dropLast ++ [back ||| 0x80]
        else result

/-- `CScriptNum::getvch`. -/
def getvch (bn : CScriptNum) : valtype :=
  serialize bn.m_value

/-- `CScriptNum::getint`: the value, clamped to the range of `int`. -/
def getint (bn : CScriptNum) : Int :=
  if bn.m_value > 2 ^ 31 - 1 then 2 ^ 31 - 1
  else if bn.m_value < -2 ^ 31 then -2 ^ 31
  else bn.m_value

/-- The assignment of a `bool` through `operator=(const int64_t&)`. -/
def ofBool (value : Bool) : CScriptNum :=
  ⟨if value then 1 else 0⟩

/-- A value computed in `int64_t`, undefined when it overflows. -/
def checked (value : Int) : Except Stop CScriptNum :=
  if INT64_MIN ≤ value ∧ value ≤ INT64_MAX then pure ⟨value⟩ else throw .abort

/-- `operator+(const CScriptNum&)`. -/
def add (bn rhs : CScriptNum) : Except Stop CScriptNum :=
  checked (bn.m_value + rhs.m_value)

/-- `operator-(const CScriptNum&)`. -/
def sub (bn rhs : CScriptNum) : Except Stop CScriptNum :=
  checked (bn.m_value - rhs.m_value)

/-- `operator+=(const int64_t&)`, which asserts that the sum does not overflow. -/
def addAssign (bn : CScriptNum) (rhs : Int) : Except Stop CScriptNum :=
  if rhs = 0 ∨ (rhs > 0 ∧ bn.m_value ≤ INT64_MAX - rhs) ∨ (rhs < 0 ∧ bn.m_value ≥ INT64_MIN - rhs)
  then pure ⟨bn.m_value + rhs⟩
  else throw .abort

/-- `operator-=(const int64_t&)`, which asserts that the difference does not overflow. -/
def subAssign (bn : CScriptNum) (rhs : Int) : Except Stop CScriptNum :=
  if rhs = 0 ∨ (rhs > 0 ∧ bn.m_value ≥ INT64_MIN + rhs) ∨ (rhs < 0 ∧ bn.m_value ≤ INT64_MAX + rhs)
  then pure ⟨bn.m_value - rhs⟩
  else throw .abort

/-- The unary `operator-`, which asserts that the value is not `INT64_MIN`. -/
def neg (bn : CScriptNum) : Except Stop CScriptNum :=
  if bn.m_value = INT64_MIN then throw .abort else pure ⟨-bn.m_value⟩

end CScriptNum

end Dogecoin.Script
