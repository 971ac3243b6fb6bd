import Dogecoin.Script.ScriptNum
import Dogecoin.Script.Interpreter
import Dogecoin.Lib.ExceptSpec

/-!
# Pushing data and numbers

`CScript::operator<<(const std::vector<unsigned char>&)` writes a push: the
size of the data in the opcode itself below `OP_PUSHDATA1`, and otherwise
`OP_PUSHDATA1`, `OP_PUSHDATA2` or `OP_PUSHDATA4` followed by the size in one,
two or four little-endian bytes.  `GetOp` reads the size back through the
same thresholds (`getOp_pushVector`), and the opcode is the one that
`CheckMinimalPush` asks for, except for the data that `OP_1NEGATE` and `OP_1`
to `OP_16` push by themselves.

`CScript::push_int64` writes those opcodes for `-1` and `1` to `16`, `OP_0`
for zero, and otherwise the push of `CScriptNum::serialize`.  `EvalScript`
runs each of the three forms to the stack with the one element
`serialize n`.
-/

namespace Dogecoin.Script

open Dogecoin.Primitives LittleEndian

/--
`CScript::push_int64`.  `push_back(n + (OP_1 - 1))` converts the sum to an
`unsigned char`, modulo `256`.
-/
def CScript.pushInt64 (script : CScript) (n : Int) : CScript :=
  if n = -1 ∨ (1 ≤ n ∧ n ≤ 16) then
    script ++ [UInt8.ofNat ((n + ((OP_1.toNat : Int) - 1)) % 256).toNat]
  else if n = 0 then script ++ [OP_0]
  else CScript.pushVector script (CScriptNum.serialize n)

/-- The data that `OP_1NEGATE` and `OP_1` to `OP_16` push: one byte, `0x81` or `1` to `16`. -/
def pushedByNumber : valtype → Bool
  | [k] => (1 ≤ k && k ≤ 16) || k == 0x81
  | _ => false

/-! ## Reading a push back -/

/-- `GetOp` reads an opcode whose size prefix gives the length of the data after it. -/
theorem getOp_of_pushSize {opcode : UInt8} {sizeBytes b rest : valtype} (isPush : opcode ≤ OP_PUSHDATA4)
    (sized : pushSize opcode (sizeBytes ++ (b ++ rest)) = some (b.length, b ++ rest)) :
    getOp (opcode :: (sizeBytes ++ (b ++ rest))) = some ⟨opcode, b, rest⟩ := by
  simp only [getOp, if_pos isPush, sized]
  rw [if_neg (by simp), List.take_left, List.drop_left]

theorem toNat_ofNat_length {b : valtype} (short : b.length < 256) : (UInt8.ofNat b.length).toNat = b.length :=
  UInt8.toNat_ofNat_of_lt' short

/--
`GetOp` reads the push of `b` back as one operation with the data `b`, and
the opcode is a push opcode that `CheckMinimalPush` accepts for `b` unless a
number opcode pushes `b`.
-/
theorem getOp_pushVector (b rest : valtype) (short : b.length < 2 ^ 32) :
    ∃ opcode, getOp (CScript.pushVector [] b ++ rest) = some ⟨opcode, b, rest⟩ ∧
      opcode ≤ OP_PUSHDATA4 ∧ (pushedByNumber b = false → checkMinimalPush b opcode = true) := by
  unfold CScript.pushVector
  rw [List.nil_append]
  by_cases direct : b.length < OP_PUSHDATA1.toNat
  · have small : b.length < 76 := direct
    have opcode := toNat_ofNat_length (b := b) (by omega)
    rw [if_pos direct, List.singleton_append, List.cons_append]
    have isPush : UInt8.ofNat b.length ≤ OP_PUSHDATA4 := by
      rw [UInt8.le_iff_toNat_le, opcode]
      exact Nat.le_of_lt (Nat.lt_of_lt_of_le small (by decide))
    have sized : pushSize (UInt8.ofNat b.length) ([] ++ (b ++ rest)) = some (b.length, b ++ rest) := by
      unfold pushSize
      rw [if_pos (by rw [UInt8.lt_iff_toNat_lt, opcode]; exact direct), opcode, List.nil_append]
    refine ⟨UInt8.ofNat b.length, getOp_of_pushSize isPush sized, isPush, fun plain => ?_⟩
    · unfold checkMinimalPush
      match b, plain with
      | [], _ => rfl
      | [k], plain =>
          simp only [pushedByNumber, Bool.or_eq_false_iff, Bool.and_eq_false_iff, decide_eq_false_iff_not,
            beq_eq_false_iff_ne] at plain
          obtain ⟨number, negative⟩ := plain
          simp only [List.length_singleton, List.getD_cons_zero, true_and]
          rw [if_neg (by omega), if_neg (fun bounds => by rcases number with low | high <;> simp_all),
            if_neg negative.elim, if_pos (by decide)]
          rfl
      | _ :: _ :: _, _ =>
          rw [if_neg (by simp), if_neg (by simp), if_neg (by simp), if_pos (by simp at small ⊢; omega), opcode]
          exact beq_self_eq_true _
  · rw [if_neg direct]
    by_cases one : b.length ≤ 0xff
    · have opcode := toNat_ofNat_length (b := b) (by omega)
      rw [if_pos one, List.cons_append, List.cons_append, List.append_assoc]
      refine ⟨OP_PUSHDATA1, getOp_of_pushSize (by decide) ?_, by decide, fun _ => ?_⟩
      · simp [pushSize, OP_PUSHDATA1, opcode]
      · unfold checkMinimalPush
        have long : 76 ≤ b.length := Nat.le_of_not_lt direct
        rw [if_neg (by omega), if_neg (by omega), if_neg (by omega), if_neg (by omega), if_pos one]
        rfl
    · rw [if_neg one]
      by_cases two : b.length ≤ 0xffff
      · rw [if_pos two, List.cons_append, List.cons_append, List.append_assoc]
        refine ⟨OP_PUSHDATA2, getOp_of_pushSize (by decide) ?_, by decide, fun _ => ?_⟩
        · have read := leValue_leBytes 2 b.length
          rw [Nat.mod_eq_of_lt (by omega)] at read
          have sized := length_leBytes 2 b.length
          have long : ¬(leBytes 2 b.length ++ (b ++ rest)).length < 2 := by
            rw [List.length_append, sized]
            omega
          unfold pushSize
          rw [if_neg (by decide), if_neg (by decide), if_pos rfl, if_neg long, List.take_left' sized,
            List.drop_left' sized, read]
        · unfold checkMinimalPush
          rw [if_neg (by omega), if_neg (by omega), if_neg (by omega), if_neg (by omega), if_neg one,
            if_pos two]
          rfl
      · rw [if_neg two, List.cons_append, List.cons_append, List.append_assoc]
        refine ⟨OP_PUSHDATA4, getOp_of_pushSize (by decide) ?_, by decide, fun _ => ?_⟩
        · have read := leValue_leBytes 4 b.length
          rw [Nat.mod_eq_of_lt (by omega)] at read
          have sized := length_leBytes 4 b.length
          have long : ¬(leBytes 4 b.length ++ (b ++ rest)).length < 4 := by
            rw [List.length_append, sized]
            omega
          unfold pushSize
          rw [if_neg (by decide), if_neg (by decide), if_neg (by decide), if_neg long,
            List.take_left' sized, List.drop_left' sized, read]
        · unfold checkMinimalPush
          rw [if_neg (by omega), if_neg (by omega), if_neg (by omega), if_neg (by omega), if_neg one,
            if_neg two]

/-- `GetOp` reads an opcode above `OP_PUSHDATA4` alone. -/
theorem getOp_of_not_push {opcode : UInt8} (rest : CScript) (notPush : ¬opcode ≤ OP_PUSHDATA4) :
    getOp (opcode :: rest) = some ⟨opcode, [], rest⟩ := by
  simp [getOp, notPush]

/-- A script that `GetOp` reads as one operation to its end. -/
theorem ops_of_getOp {script : CScript} {op : Op} (read : getOp script = some op) (ends : op.after = []) :
    CScript.ops script = ([op], true) := by
  cases script with
  | nil => cases read
  | cons opcode pc =>
      rw [ops_cons, read]
      simp only [ends, ops_nil]

/-- The push of `b` is one operation, `b` with a push opcode. -/
theorem ops_pushVector (b : valtype) (short : b.length < 2 ^ 32) :
    ∃ opcode, CScript.ops (CScript.pushVector [] b) = ([⟨opcode, b, []⟩], true) ∧
      opcode ≤ OP_PUSHDATA4 ∧ (pushedByNumber b = false → checkMinimalPush b opcode = true) := by
  obtain ⟨opcode, read, isPush, minimal⟩ := getOp_pushVector b [] short
  rw [List.append_nil] at read
  exact ⟨opcode, ops_of_getOp read rfl, isPush, minimal⟩

theorem length_pushVector_of_lt {b : valtype} (direct : b.length < 76) :
    (CScript.pushVector [] b).length = b.length + 1 := by
  rw [CScript.pushVector, if_pos (show b.length < OP_PUSHDATA1.toNat from direct)]
  simp only [List.nil_append, List.length_append, List.length_singleton]
  omega

/-! ## Running a push -/

theorem isDisabled_eq_false {opcode : UInt8} (small : opcode ≤ OP_16) : isDisabled opcode = false := by
  have bound := UInt8.le_iff_toNat_le.1 small
  simp [isDisabled, OP_CAT, OP_SUBSTR, OP_LEFT, OP_RIGHT, OP_INVERT, OP_AND, OP_OR, OP_XOR, OP_2MUL, OP_2DIV,
    OP_MUL, OP_DIV, OP_MOD, OP_LSHIFT, OP_RSHIFT, OP_16] at bound ⊢
  simp only [← UInt8.toNat_inj, UInt8.reduceToNat]
  omega

/-- `OP_1NEGATE` and `OP_1` to `OP_16` are the opcodes `n + (OP_1 - 1)` of their numbers. -/
theorem decodeOp_smallNumber {n : Int} (small : n = -1 ∨ (1 ≤ n ∧ n ≤ 16)) :
    decodeOp (UInt8.ofNat ((n + ((OP_1.toNat : Int) - 1)) % 256).toNat) = .pushNumber n := by
  have one : OP_1.toNat = 81 := rfl
  have code : (UInt8.ofNat ((n + ((OP_1.toNat : Int) - 1)) % 256).toNat).toNat = (n + 80).toNat := by
    rw [UInt8.toNat_ofNat_of_lt' (by change _ < 256; omega), one]
    omega
  unfold decodeOp
  rw [if_pos, code, one]
  · congr 1
    omega
  · rcases small with negative | ⟨low, high⟩
    · left
      apply UInt8.toNat_inj.1
      rw [code, negative]
      rfl
    · right
      rw [UInt8.le_iff_toNat_le, UInt8.le_iff_toNat_le, code, one]
      exact ⟨by omega, by change _ ≤ 96; omega⟩

theorem not_counted_of_le {opcode : UInt8} (isPush : opcode ≤ OP_PUSHDATA4) : ¬opcode > OP_16 :=
  fun counted => by
    have above := UInt8.lt_iff_toNat_lt.1 counted
    have below := UInt8.le_iff_toNat_le.1 isPush
    have sixteen : OP_16.toNat = 96 := rfl
    have four : OP_PUSHDATA4.toNat = 78 := rfl
    omega

section Run

variable (crypto : Crypto) (checker : BaseSignatureChecker)

/-- One turn of the loop on a data push that passes its checks. -/
theorem evalStep_push {flags : UInt32} {sigversion : SigVersion} {m : Machine} {op : Op}
    (taken : m.vfExec = []) (isPush : op.opcode ≤ OP_PUSHDATA4)
    (small : op.vchPushValue.length ≤ MAX_SCRIPT_ELEMENT_SIZE)
    (minimal : checkMinimalPush op.vchPushValue op.opcode = true)
    (room : m.stack.length + 1 + m.altstack.length ≤ 1000) :
    evalStep crypto checker flags sigversion m op = .ok { m with stack := op.vchPushValue :: m.stack } := by
  have notCounted := not_counted_of_le isPush
  simp [evalStep, dispatch, failIf, taken, notCounted, isDisabled_eq_false (Std.not_lt.1 notCounted), isPush,
    minimal, Nat.not_lt.2 small, Nat.not_lt.2 room]

/-- One turn of the loop on `OP_1NEGATE` or `OP_1` to `OP_16`: the bytes of the number are pushed. -/
theorem evalStep_pushNumber {flags : UInt32} {sigversion : SigVersion} {m : Machine} {op : Op} {n : Int}
    (taken : m.vfExec = []) (decoded : decodeOp op.opcode = .pushNumber n)
    (notPush : ¬op.opcode ≤ OP_PUSHDATA4) (small : op.opcode ≤ OP_16) (empty : op.vchPushValue = [])
    (room : m.stack.length + 1 + m.altstack.length ≤ 1000) :
    evalStep crypto checker flags sigversion m op =
      .ok { m with stack := CScriptNum.serialize n :: m.stack } := by
  have notCounted : ¬op.opcode > OP_16 := Std.not_lt.2 small
  simp [evalStep, dispatch, execute, failIf, taken, notCounted, isDisabled_eq_false small, notPush, decoded,
    empty, CScriptNum.getvch, Nat.not_lt.2 room]

/-- `EvalScript` of a script of one operation, which leaves no branch open. -/
theorem evalScript_of_ops {stack : List valtype} {script : CScript} {op : Op} {flags : UInt32}
    {sigversion : SigVersion} {m : Machine} (reads : CScript.ops script = ([op], true))
    (fits : script.length ≤ MAX_SCRIPT_SIZE)
    (stepped : evalStep crypto checker flags sigversion (Machine.start stack script) op = .ok m)
    (closed : m.vfExec = []) :
    evalScript crypto checker stack script flags sigversion = .ok m.stack := by
  have loop : evalLoop crypto checker stack script flags sigversion = .ok m := by
    simp [evalLoop, reads, stepped, failIf]
  simp [evalScript, failIf, Nat.not_lt.2 fits, catchAll, loop, ExceptSpec.tryCatch_ok, closed]

/-- `set_vch` of one byte. -/
theorem setVch_singleton (k : UInt8) :
    CScriptNum.setVch [k] = if 128 ≤ k.toNat then -((k.toNat % 128 : Nat) : Int) else ((k.toNat % 128 : Nat) : Int) := by
  rw [← List.nil_append [k], CScriptNum.setVch_append, CScriptNum.magnitude]
  simp only [List.length_nil, Nat.pow_zero, Nat.one_mul, leValue, Nat.zero_add]

/-- The only numbers whose bytes a number opcode pushes are `-1` and `1` to `16`. -/
theorem smallNumber_of_pushedByNumber {n : Int} (pushed : pushedByNumber (CScriptNum.serialize n) = true) :
    n = -1 ∨ (1 ≤ n ∧ n ≤ 16) := by
  have value := CScriptNum.setVch_serialize n
  match bytes : CScriptNum.serialize n, pushed with
  | [k], pushed =>
      rw [bytes, setVch_singleton] at value
      simp only [pushedByNumber, Bool.or_eq_true, Bool.and_eq_true, decide_eq_true_eq, beq_iff_eq] at pushed
      rcases pushed with ⟨low, high⟩ | negative
      · have small : k.toNat ≤ 16 := UInt8.le_iff_toNat_le.1 high
        have one : 1 ≤ k.toNat := UInt8.le_iff_toNat_le.1 low
        rw [if_neg (by omega), Nat.mod_eq_of_lt (by omega)] at value
        omega
      · rw [negative] at value
        exact .inl value.symm

/-- `EvalScript` runs `CScript() << n` to the one element `CScriptNum::serialize(n)`. -/
theorem evalScript_pushInt64 (n : Int) (inRange : INT64_MIN < n ∧ n ≤ INT64_MAX) (flags : UInt32)
    (sigversion : SigVersion) :
    evalScript crypto checker [] (CScript.pushInt64 [] n) flags sigversion = .ok [CScriptNum.serialize n] := by
  unfold CScript.pushInt64
  by_cases small : n = -1 ∨ (1 ≤ n ∧ n ≤ 16)
  · rw [if_pos small, List.nil_append]
    have decoded := decodeOp_smallNumber small
    have code : (UInt8.ofNat ((n + ((OP_1.toNat : Int) - 1)) % 256).toNat).toNat = (n + 80).toNat := by
      rw [UInt8.toNat_ofNat_of_lt' (by change _ < 256; omega)]
      change ((n + (81 - 1)) % 256).toNat = _
      omega
    have notPush : ¬UInt8.ofNat ((n + ((OP_1.toNat : Int) - 1)) % 256).toNat ≤ OP_PUSHDATA4 := by
      rw [UInt8.le_iff_toNat_le, code]
      change ¬_ ≤ 78
      omega
    have le16 : UInt8.ofNat ((n + ((OP_1.toNat : Int) - 1)) % 256).toNat ≤ OP_16 := by
      rw [UInt8.le_iff_toNat_le, code]
      change _ ≤ 96
      omega
    exact evalScript_of_ops crypto checker (ops_of_getOp (getOp_of_not_push [] notPush) rfl)
      (by simp [MAX_SCRIPT_SIZE]) (evalStep_pushNumber crypto checker rfl decoded notPush le16 rfl
        (by simp [Machine.start])) rfl
  · rw [if_neg small]
    by_cases zero : n = 0
    · rw [if_pos zero, List.nil_append, zero, CScriptNum.serialize_zero]
      have read : getOp [OP_0] = some ⟨OP_0, [], []⟩ := rfl
      exact evalScript_of_ops crypto checker (ops_of_getOp read rfl) (by decide)
        (evalStep_push crypto checker rfl (by decide) (by decide) rfl (by decide)) rfl
    · rw [if_neg zero]
      have short : (CScriptNum.serialize n).length ≤ 8 := by
        apply (CScriptNum.length_serialize_le_iff n 8).2
        unfold INT64_MIN INT64_MAX at inRange
        omega
      obtain ⟨opcode, reads, isPush, minimal⟩ := ops_pushVector (CScriptNum.serialize n) (by omega)
      have plain : pushedByNumber (CScriptNum.serialize n) = false :=
        Bool.eq_false_iff.2 fun pushed => small (smallNumber_of_pushedByNumber pushed)
      have fits : (CScript.pushVector [] (CScriptNum.serialize n)).length ≤ MAX_SCRIPT_SIZE := by
        rw [length_pushVector_of_lt (by omega)]
        unfold MAX_SCRIPT_SIZE
        omega
      exact evalScript_of_ops crypto checker reads fits
        (evalStep_push crypto checker rfl isPush
          (show (CScriptNum.serialize n).length ≤ MAX_SCRIPT_ELEMENT_SIZE by unfold MAX_SCRIPT_ELEMENT_SIZE; omega)
          (minimal plain) (by simp [Machine.start])) rfl

end Run

/-! ## Writing and reading pushes agree -/

theorem pushVector_getOp_evalScript :
    (∀ b : valtype, b.length < 2 ^ 32 → ∃ opcode,
      CScript.ops (CScript.pushVector [] b) = ([⟨opcode, b, []⟩], true) ∧
        (pushedByNumber b = false → checkMinimalPush b opcode = true)) ∧
    (∀ (crypto : Crypto) (checker : BaseSignatureChecker) (n : Int) (flags : UInt32)
      (sigversion : SigVersion), INT64_MIN < n → n ≤ INT64_MAX →
      evalScript crypto checker [] (CScript.pushInt64 [] n) flags sigversion = .ok [CScriptNum.serialize n]) := by
  refine ⟨fun b short => ?_, fun crypto checker n flags sigversion above below =>
    evalScript_pushInt64 crypto checker n ⟨above, below⟩ flags sigversion⟩
  obtain ⟨opcode, reads, -, minimal⟩ := ops_pushVector b short
  exact ⟨opcode, reads, minimal⟩


/-- The push of three bytes reads back as one operation, and `1000` pushed as a number
evaluates to its serialization. -/
theorem pushVector_getOp_evalScript_threeBytes :
    (∃ opcode, CScript.ops (CScript.pushVector [] [1, 2, 3]) = ([⟨opcode, [1, 2, 3], []⟩], true) ∧
      (pushedByNumber [1, 2, 3] = false → checkMinimalPush [1, 2, 3] opcode = true)) ∧
    ∀ (crypto : Crypto) (checker : BaseSignatureChecker) (flags : UInt32) (sigversion : SigVersion),
      evalScript crypto checker [] (CScript.pushInt64 [] 1000) flags sigversion = .ok [CScriptNum.serialize 1000] :=
  ⟨pushVector_getOp_evalScript.1 [1, 2, 3] (by decide),
    fun crypto checker flags sigversion =>
      pushVector_getOp_evalScript.2 crypto checker 1000 flags sigversion (by decide) (by decide)⟩

end Dogecoin.Script
