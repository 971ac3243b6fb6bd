import Dogecoin.Script.SoftFork

/-!
# `EvalScript` and `VerifyScript` stop cleanly

The interpreter has three ways to stop other than with a script error: a
C++ exception, which `EvalScript` catches as `SCRIPT_ERR_UNKNOWN_ERROR`, and
a failed assertion, `Stop.abort`.  The assertions sit in the arithmetic of
`CScriptNum` and in `VerifyScript`.  This module shows that none fires.

* Every number that reaches arithmetic is decoded from at most four bytes,
  so its magnitude is below `2 ^ 31`.  Sums, differences and negations of
  such numbers stay far inside `int64_t`.
* `VerifyScript` asserts its flag rules, which hold for consistent flags.
  It asserts a non-empty stack before the pay-to-script-hash part.  That
  part only runs after the scriptPubKey succeeded on this stack, and a
  pay-to-script-hash scriptPubKey starts with `OP_HASH160`, which fails on an
  empty stack.

So `EvalScript` and `VerifyScript` stop only with script errors.  Along the
loop, every turn that succeeds leaves at most 1000 elements on the two
stacks.  A successful `EvalScript` closes every `IF` and `NOTIF` with an
`ENDIF`, and no `ELSE` or `ENDIF` comes outside a branch.
-/

namespace Dogecoin.Script

open Dogecoin.Primitives ExceptSpec LittleEndian

/-! ## Numbers of four bytes -/

/-- A number that four bytes can encode: its magnitude is below `2 ^ 31`. -/
def CScriptNum.Fits (bn : CScriptNum) : Prop :=
  bn.m_value.natAbs < 2 ^ 31

/-- The sign bit is the top bit, so `n` bytes encode magnitudes below `2 ^ (8 * n - 1)`. -/
theorem natAbs_setVch_lt {vch : valtype} (nonempty : vch ≠ []) :
    (CScriptNum.setVch vch).natAbs < 2 ^ (8 * vch.length - 1) := by
  obtain ⟨init, back, rfl⟩ := (List.eq_nil_or_concat vch).resolve_left nonempty
  rw [List.concat_eq_append]
  have below := leValue_lt init
  have width : 8 * (init ++ [back]).length - 1 = 8 * init.length + 7 := by
    simp only [List.length_append, List.length_singleton]
    omega
  simp only [CScriptNum.setVch, List.getLast?_concat, width]
  split
  · rw [Int.natAbs_neg, Int.natAbs_natCast]
    exact Nat.mod_lt _ (Nat.two_pow_pos _)
  · rename_i signClear
    have clear : back.toNat &&& 2 ^ 7 = 0 := by
      have := congrArg UInt8.toNat (not_not.1 signClear)
      simpa [UInt8.toNat_and] using this
    have small := lt_of_and_two_pow_eq_zero back.toNat_lt clear
    have scaled : 256 ^ init.length * back.toNat ≤ 256 ^ init.length * 127 :=
      Nat.mul_le_mul_left _ (by omega)
    rw [Int.natAbs_natCast, leValue_append_singleton, Nat.pow_add, Nat.pow_mul]
    change _ < 256 ^ init.length * 128
    omega

theorem ofVch_fits {vch : valtype} {fRequireMinimal : Bool} {nMaxNumSize : Nat}
    {bn : CScriptNum} (four : nMaxNumSize ≤ 4)
    (decoded : CScriptNum.ofVch vch fRequireMinimal nMaxNumSize = .ok bn) : bn.Fits := by
  unfold CScriptNum.ofVch at decoded
  split at decoded
  · cases decoded
  · rename_i short
    split at decoded
    · cases decoded
    · cases decoded
      unfold CScriptNum.Fits
      by_cases empty : vch = []
      · subst empty
        simp [CScriptNum.setVch]
      · calc (CScriptNum.setVch vch).natAbs < 2 ^ (8 * vch.length - 1) := natAbs_setVch_lt empty
          _ ≤ 2 ^ 31 := Nat.pow_le_pow_right (by decide) (by omega)

/-- The unary operations never overflow on numbers of four bytes. -/
theorem UnaryOp.apply_of_fits (op : UnaryOp) {bn : CScriptNum} (fits : bn.Fits) :
    ∃ result, op.apply bn = .ok result := by
  unfold CScriptNum.Fits at fits
  cases op with
  | add1 =>
      rw [UnaryOp.apply, CScriptNum.addAssign, if_pos (by unfold INT64_MAX; omega)]
      exact ⟨_, rfl⟩
  | sub1 =>
      rw [UnaryOp.apply, CScriptNum.subAssign, if_pos (by unfold INT64_MIN; omega)]
      exact ⟨_, rfl⟩
  | negate =>
      rw [UnaryOp.apply, CScriptNum.neg, if_neg (by unfold INT64_MIN; omega)]
      exact ⟨_, rfl⟩
  | abs =>
      rw [UnaryOp.apply, CScriptNum.neg, if_neg (show ¬bn.m_value = INT64_MIN by
        unfold INT64_MIN; omega)]
      split <;> exact ⟨_, rfl⟩
  | not => exact ⟨_, rfl⟩
  | zeroNotEqual => exact ⟨_, rfl⟩

/-- The binary operations never overflow on numbers of four bytes. -/
theorem BinaryOp.apply_of_fits (op : BinaryOp) {bn1 bn2 : CScriptNum} (fits1 : bn1.Fits)
    (fits2 : bn2.Fits) : ∃ result, op.apply bn1 bn2 = .ok result := by
  unfold CScriptNum.Fits at fits1 fits2
  cases op with
  | add =>
      rw [BinaryOp.apply, CScriptNum.add, CScriptNum.checked,
        if_pos (by unfold INT64_MIN INT64_MAX; omega)]
      exact ⟨_, rfl⟩
  | sub =>
      rw [BinaryOp.apply, CScriptNum.sub, CScriptNum.checked,
        if_pos (by unfold INT64_MIN INT64_MAX; omega)]
      exact ⟨_, rfl⟩
  | _ => exact ⟨_, rfl⟩

/-! ## Stops -/

/-- A stop other than a failed assertion. -/
def NoAbort (stop : Stop) : Prop :=
  stop ≠ .abort

/-- A stop that reports a script error, neither an exception nor an assertion. -/
def IsScriptError : Stop → Prop
  | .error _ => True
  | _ => False

theorem noAbort_error (serror : ScriptError) : NoAbort (.error serror) :=
  Stop.noConfusion

theorem noAbort_thrown (what : String) : NoAbort (.thrown what) :=
  Stop.noConfusion

theorem IsScriptError.noAbort {stop : Stop} (isError : IsScriptError stop) : NoAbort stop := by
  cases stop with
  | error serror => exact noAbort_error serror
  | thrown => exact isError.elim
  | abort => exact isError.elim

theorem failIf_isScriptError (condition : Bool) (serror : ScriptError) :
    Raises IsScriptError (failIf condition serror) :=
  Raises.ite (fun _ => Raises.throw trivial) fun _ => Raises.pure ()

theorem failIf_noAbort (condition : Bool) (serror : ScriptError) :
    Raises NoAbort (failIf condition serror) :=
  (failIf_isScriptError condition serror).mono fun _ => IsScriptError.noAbort

theorem invalidStackOperation_noAbort {α : Type} :
    Raises NoAbort (invalidStackOperation : Except Stop α) :=
  Raises.throw (noAbort_error _)

/-- The decoder throws, but never asserts. -/
theorem ofVch_noAbort (vch : valtype) (fRequireMinimal : Bool) (nMaxNumSize : Nat) :
    Raises NoAbort (CScriptNum.ofVch vch fRequireMinimal nMaxNumSize) :=
  Raises.ite (fun _ => Raises.throw (noAbort_thrown _)) fun _ =>
    Raises.ite (fun _ => Raises.throw (noAbort_thrown _)) fun _ => Raises.pure _

/-- The end of the `VERIFY` opcodes: pop on success, fail with a script error, or push. -/
theorem verifyResult_noAbort {α : Type} (verify success : Bool) (popped pushed : α)
    (serror : ScriptError) :
    Raises NoAbort (if verify then (if success then pure popped else throw (.error serror))
      else pure pushed) :=
  Raises.ite (fun _ => Raises.ite (fun _ => Raises.pure _) fun _ => Raises.throw (noAbort_error _))
    fun _ => Raises.pure _

/-! ## The branches of the `switch` -/

section Branches

variable (crypto : Crypto) (checker : BaseSignatureChecker)

theorem checkSignatureEncoding_noAbort (vchSig : valtype) (flags : UInt32) :
    Raises NoAbort (checkSignatureEncoding crypto vchSig flags) := by
  unfold checkSignatureEncoding isLowDERSignature
  refine Raises.ite (fun _ => Raises.pure ()) fun _ => (failIf_noAbort _ _).bind fun _ _ => ?_
  refine (Raises.ite (fun _ => ?_) fun _ => Raises.pure ()).bind fun _ _ => failIf_noAbort _ _
  exact (failIf_noAbort _ _).bind fun _ _ => failIf_noAbort _ _

theorem checkPubKeyEncoding_noAbort (vchPubKey : valtype) (flags : UInt32)
    (sigversion : SigVersion) : Raises NoAbort (checkPubKeyEncoding vchPubKey flags sigversion) :=
  (failIf_noAbort _ _).bind fun _ _ => failIf_noAbort _ _

theorem opCheckLockTimeVerify_noAbort (flags : UInt32) (m : Machine) :
    Raises NoAbort (opCheckLockTimeVerify checker flags m) := by
  unfold opCheckLockTimeVerify checkLockTimeOperand
  refine Raises.ite (fun _ => (failIf_noAbort _ _).bind fun _ _ => Raises.pure _) fun _ => ?_
  cases m.stack with
  | nil => exact invalidStackOperation_noAbort
  | cons top _ =>
      exact (ofVch_noAbort _ _ _).bind fun _ _ => (failIf_noAbort _ _).bind fun _ _ =>
        (failIf_noAbort _ _).bind fun _ _ => Raises.pure _

theorem opCheckSequenceVerify_noAbort (flags : UInt32) (m : Machine) :
    Raises NoAbort (opCheckSequenceVerify checker flags m) := by
  unfold opCheckSequenceVerify checkSequenceOperand
  refine Raises.ite (fun _ => (failIf_noAbort _ _).bind fun _ _ => Raises.pure _) fun _ => ?_
  cases m.stack with
  | nil => exact invalidStackOperation_noAbort
  | cons top _ =>
      exact (ofVch_noAbort _ _ _).bind fun _ _ => (failIf_noAbort _ _).bind fun _ _ =>
        Raises.ite (fun _ => Raises.pure _) fun _ => (failIf_noAbort _ _).bind fun _ _ =>
          Raises.pure _

theorem opIf_noAbort (flags : UInt32) (sigversion : SigVersion) (fExec notIf : Bool)
    (m : Machine) : Raises NoAbort (opIf flags sigversion fExec notIf m) := by
  unfold opIf checkMinimalIf
  refine Raises.ite (fun _ => ?_) fun _ => Raises.pure _
  cases m.stack with
  | nil => exact Raises.throw (noAbort_error _)
  | cons vch rest =>
      refine (Raises.ite (fun _ => ?_) fun _ => Raises.pure ()).bind fun _ _ => Raises.pure _
      exact (failIf_noAbort _ _).bind fun _ _ => failIf_noAbort _ _

theorem opPickOrRoll_noAbort (fRequireMinimal roll : Bool) (m : Machine) :
    Raises NoAbort (opPickOrRoll fRequireMinimal roll m) := by
  unfold opPickOrRoll
  rcases m.stack with _ | ⟨top, _ | ⟨next, rest⟩⟩
  · exact invalidStackOperation_noAbort
  · exact invalidStackOperation_noAbort
  · exact (ofVch_noAbort _ _ _).bind fun _ _ => (failIf_noAbort _ _).bind fun _ _ => Raises.pure _

theorem opEqual_noAbort (verify : Bool) (m : Machine) : Raises NoAbort (opEqual verify m) := by
  unfold opEqual
  rcases m.stack with _ | ⟨vch2, _ | ⟨vch1, rest⟩⟩
  · exact invalidStackOperation_noAbort
  · exact invalidStackOperation_noAbort
  · exact verifyResult_noAbort _ _ _ _ _

/-- The operand decoded from four bytes, the operation cannot overflow. -/
theorem opUnary_noAbort (fRequireMinimal : Bool) (op : UnaryOp) (m : Machine) :
    Raises NoAbort (opUnary fRequireMinimal op m) := by
  unfold opUnary
  cases m.stack with
  | nil => exact invalidStackOperation_noAbort
  | cons top rest =>
      refine (ofVch_noAbort _ _ _).bind fun bn decoded => ?_
      obtain ⟨result, applied⟩ := op.apply_of_fits (ofVch_fits (Nat.le_refl _) decoded)
      exact (Raises.of_eq_ok applied).bind fun _ _ => Raises.pure _

theorem opBinary_noAbort (fRequireMinimal : Bool) (op : BinaryOp) (m : Machine) :
    Raises NoAbort (opBinary fRequireMinimal op m) := by
  unfold opBinary
  rcases m.stack with _ | ⟨vch2, _ | ⟨vch1, rest⟩⟩
  · exact invalidStackOperation_noAbort
  · exact invalidStackOperation_noAbort
  · refine (ofVch_noAbort _ _ _).bind fun bn1 decoded1 => (ofVch_noAbort _ _ _).bind
      fun bn2 decoded2 => ?_
    obtain ⟨result, applied⟩ :=
      op.apply_of_fits (ofVch_fits (Nat.le_refl _) decoded1) (ofVch_fits (Nat.le_refl _) decoded2)
    exact (Raises.of_eq_ok applied).bind fun _ _ => verifyResult_noAbort _ _ _ _ _

theorem opWithin_noAbort (fRequireMinimal : Bool) (m : Machine) :
    Raises NoAbort (opWithin fRequireMinimal m) := by
  unfold opWithin
  rcases m.stack with _ | ⟨vch3, _ | ⟨vch2, _ | ⟨vch1, rest⟩⟩⟩
  · exact invalidStackOperation_noAbort
  · exact invalidStackOperation_noAbort
  · exact invalidStackOperation_noAbort
  · exact (ofVch_noAbort _ _ _).bind fun _ _ => (ofVch_noAbort _ _ _).bind fun _ _ =>
      (ofVch_noAbort _ _ _).bind fun _ _ => Raises.pure _

theorem opCheckSig_noAbort (flags : UInt32) (sigversion : SigVersion) (verify : Bool)
    (m : Machine) : Raises NoAbort (opCheckSig crypto checker flags sigversion verify m) := by
  unfold opCheckSig
  rcases m.stack with _ | ⟨vchPubKey, _ | ⟨vchSig, rest⟩⟩
  · exact invalidStackOperation_noAbort
  · exact invalidStackOperation_noAbort
  · exact (checkSignatureEncoding_noAbort crypto _ _).bind fun _ _ =>
      (checkPubKeyEncoding_noAbort _ _ _).bind fun _ _ => (failIf_noAbort _ _).bind fun _ _ =>
        verifyResult_noAbort _ _ _ _ _

theorem matchSignatures_noAbort (flags : UInt32) (sigversion : SigVersion) (scriptCode : CScript)
    (sigs keys : List valtype) :
    Raises NoAbort (matchSignatures crypto checker flags sigversion scriptCode sigs keys) := by
  induction keys generalizing sigs with
  | nil => cases sigs <;> exact Raises.pure _
  | cons vchPubKey keys ih =>
      cases sigs with
      | nil => exact Raises.pure _
      | cons vchSig sigs =>
          simp only [matchSignatures]
          exact (checkSignatureEncoding_noAbort crypto _ _).bind fun _ _ =>
            (checkPubKeyEncoding_noAbort _ _ _).bind fun _ _ =>
              Raises.ite (fun _ => Raises.pure _) fun _ => ih _

theorem popArguments_noAbort (nullFail : Bool) (count ikey2 : Nat) (stack : List valtype) :
    Raises NoAbort (popArguments nullFail count ikey2 stack) := by
  induction count generalizing ikey2 stack with
  | zero => exact Raises.pure _
  | succ count ih =>
      cases stack with
      | nil => exact Raises.throw (noAbort_thrown _)
      | cons top rest =>
          simp only [popArguments]
          exact (failIf_noAbort _ _).bind fun _ _ => ih _ _

theorem opCheckMultiSig_noAbort (flags : UInt32) (sigversion : SigVersion) (verify : Bool)
    (m : Machine) : Raises NoAbort (opCheckMultiSig crypto checker flags sigversion verify m) := by
  unfold opCheckMultiSig
  refine (failIf_noAbort _ _).bind fun _ _ => (ofVch_noAbort _ _ _).bind fun _ _ => ?_
  refine (failIf_noAbort _ _).bind fun _ _ => (failIf_noAbort _ _).bind fun _ _ =>
    (failIf_noAbort _ _).bind fun _ _ => (ofVch_noAbort _ _ _).bind fun _ _ => ?_
  refine (failIf_noAbort _ _).bind fun _ _ => (failIf_noAbort _ _).bind fun _ _ => ?_
  refine (matchSignatures_noAbort crypto checker _ _ _ _ _).bind fun _ _ =>
    (popArguments_noAbort _ _ _ _).bind fun stack _ => ?_
  cases stack with
  | nil => exact invalidStackOperation_noAbort
  | cons dummy rest => exact (failIf_noAbort _ _).bind fun _ _ => verifyResult_noAbort _ _ _ _ _

/-- No branch of the `switch` asserts. -/
theorem execute_noAbort (flags : UInt32) (sigversion : SigVersion) (fExec : Bool) (op : Op)
    (m : Machine) : Raises NoAbort (execute crypto checker flags sigversion fExec op m) := by
  unfold execute
  generalize decodeOp op.opcode = instr
  cases instr with
  | checkLockTimeVerify => exact opCheckLockTimeVerify_noAbort checker flags m
  | checkSequenceVerify => exact opCheckSequenceVerify_noAbort checker flags m
  | upgradableNop => exact (failIf_noAbort _ _).bind fun _ _ => Raises.pure _
  | conditional notIf => exact opIf_noAbort flags sigversion fExec notIf m
  | pickOrRoll roll => exact opPickOrRoll_noAbort _ roll m
  | equal verify => exact opEqual_noAbort verify m
  | unary op => exact opUnary_noAbort _ op m
  | binary op => exact opBinary_noAbort _ op m
  | within => exact opWithin_noAbort _ m
  | checkSig verify => exact opCheckSig_noAbort crypto checker flags sigversion verify m
  | checkMultiSig verify => exact opCheckMultiSig_noAbort crypto checker flags sigversion verify m
  | _ =>
      dsimp only
      (repeat' split) <;> first
        | exact Raises.pure _
        | exact Raises.throw (noAbort_error _)

/-! ## The loop and `EvalScript` -/

theorem dispatch_noAbort (flags : UInt32) (sigversion : SigVersion) (fExec : Bool) (op : Op)
    (m : Machine) : Raises NoAbort (dispatch crypto checker flags sigversion fExec op m) :=
  Raises.ite (fun _ => (failIf_noAbort _ _).bind fun _ _ => Raises.pure _) fun _ =>
    Raises.ite (fun _ => execute_noAbort crypto checker flags sigversion fExec op m) fun _ =>
      Raises.pure _

theorem evalStep_noAbort (flags : UInt32) (sigversion : SigVersion) (m : Machine) (op : Op) :
    Raises NoAbort (evalStep crypto checker flags sigversion m op) :=
  (failIf_noAbort _ _).bind fun _ _ => (failIf_noAbort _ _).bind fun _ _ =>
    (failIf_noAbort _ _).bind fun _ _ =>
      (dispatch_noAbort crypto checker flags sigversion _ op _).bind fun _ _ =>
        (failIf_noAbort _ _).bind fun _ _ => Raises.pure _

/-- `catch (...)` turns what is not an assertion into a script error. -/
theorem catchAll_isScriptError {α : Type} {x : Except Stop α} (raises : Raises NoAbort x) :
    Raises IsScriptError (catchAll x) := by
  refine Raises.tryCatch fun stop raised => ?_
  cases stop with
  | error serror => exact Raises.throw trivial
  | thrown what => exact Raises.throw trivial
  | abort => exact absurd rfl (raises .abort raised)

/-- `EvalScript` stops only with a script error. -/
theorem evalScript_isScriptError (stack : List valtype) (script : CScript) (flags : UInt32)
    (sigversion : SigVersion) :
    Raises IsScriptError (evalScript crypto checker stack script flags sigversion) := by
  refine (failIf_isScriptError _ _).bind fun _ _ => (catchAll_isScriptError ?_).bind fun _ _ =>
    (failIf_isScriptError _ _).bind fun _ _ => Raises.pure _
  exact (Raises.foldlM (evalStep_noAbort crypto checker flags sigversion) _ _).bind fun _ _ =>
    (failIf_noAbort _ _).bind fun _ _ => Raises.pure _

/-- `catch (...)` returns only what the loop returned. -/
theorem catchAll_eq_ok {α : Type} {x : Except Stop α} {a : α} (caught : catchAll x = .ok a) :
    x = .ok a := by
  cases x with
  | error stop => cases stop <;> cases caught
  | ok value => exact caught

/-! ## `VerifyScript` -/

/-- A pay-to-script-hash script starts with `OP_HASH160`, which fails on the empty stack. -/
theorem evalScript_nonempty_of_isPayToScriptHash {stack : List valtype} {script : CScript}
    {flags : UInt32} {sigversion : SigVersion} {result : List valtype}
    (p2sh : CScript.isPayToScriptHash script = true)
    (returned : evalScript crypto checker stack script flags sigversion = .ok result) :
    stack ≠ [] := by
  rintro rfl
  obtain ⟨rest, rfl⟩ := head_of_isPayToScriptHash p2sh
  have first : (CScript.ops (OP_HASH160 :: rest)).1 =
      ⟨OP_HASH160, [], rest⟩ :: (CScript.ops rest).1 := by
    rw [ops_cons]
    rfl
  have fails : evalStep crypto checker flags sigversion (Machine.start [] (OP_HASH160 :: rest))
      ⟨OP_HASH160, [], rest⟩ = .error (.error .INVALID_STACK_OPERATION) := rfl
  unfold evalScript evalLoop at returned
  rw [first, List.foldlM_cons, fails] at returned
  obtain ⟨_, -, returned⟩ := bind_eq_ok.1 returned
  obtain ⟨_, caught, -⟩ := bind_eq_ok.1 returned
  cases caught

theorem checkTrue_isScriptError (stack : List valtype) : Raises IsScriptError (checkTrue stack) := by
  unfold checkTrue
  cases stack with
  | nil => exact Raises.throw trivial
  | cons top _ => exact failIf_isScriptError _ _

theorem witnessScript_isScriptError (witness : CScriptWitness) (program : valtype) :
    Raises IsScriptError (witnessScript crypto witness program) := by
  unfold witnessScript
  refine Raises.ite (fun _ => ?_) fun _ => Raises.ite
    (fun _ => (failIf_isScriptError _ _).bind fun _ _ => Raises.pure _) fun _ => Raises.throw trivial
  cases witness.stack.reverse with
  | nil => exact Raises.throw trivial
  | cons scriptPubKey stack => exact (failIf_isScriptError _ _).bind fun _ _ => Raises.pure _

theorem verifyWitnessProgram_isScriptError (witness : CScriptWitness) (witversion : Nat)
    (program : valtype) (flags : UInt32) :
    Raises IsScriptError (verifyWitnessProgram crypto checker witness witversion program flags) := by
  unfold verifyWitnessProgram
  refine Raises.ite (fun _ => ?_) fun _ =>
    Raises.ite (fun _ => Raises.throw trivial) fun _ => Raises.pure ()
  refine (witnessScript_isScriptError crypto witness program).bind fun (stack, scriptPubKey) _ =>
    (failIf_isScriptError _ _).bind fun _ _ =>
      (evalScript_isScriptError crypto checker stack scriptPubKey flags .WITNESS_V0).bind
        fun _ _ => ?_
  split
  · exact failIf_isScriptError _ _
  · exact Raises.throw trivial

theorem bareWitness_isScriptError (scriptSig scriptPubKey : CScript) (witness : CScriptWitness)
    (flags : UInt32) (stack : List valtype) :
    Raises IsScriptError (bareWitness crypto checker scriptSig scriptPubKey witness flags stack) := by
  unfold bareWitness
  refine Raises.ite (fun _ => ?_) fun _ => Raises.pure _
  rcases CScript.isWitnessProgram scriptPubKey with _ | ⟨witnessversion, witnessprogram⟩
  · exact Raises.pure _
  · exact (failIf_isScriptError _ _).bind fun _ _ =>
      (verifyWitnessProgram_isScriptError crypto checker witness witnessversion witnessprogram
        flags).bind fun _ _ => Raises.pure _

/-- On a non-empty stack, the pay-to-script-hash part does not assert. -/
theorem payToScriptHash_isScriptError {stackCopy : List valtype} (nonempty : stackCopy ≠ [])
    (scriptSig : CScript) (witness : CScriptWitness) (flags : UInt32) (hadWitness : Bool) :
    Raises IsScriptError
      (payToScriptHash crypto checker scriptSig witness flags stackCopy hadWitness) := by
  unfold payToScriptHash
  refine (failIf_isScriptError _ _).bind fun _ _ => ?_
  cases stackCopy with
  | nil => exact absurd rfl nonempty
  | cons pubKeySerialized rest =>
      refine (evalScript_isScriptError crypto checker _ _ _ _).bind fun stack _ =>
        (checkTrue_isScriptError stack).bind fun _ _ => Raises.ite (fun _ => ?_) fun _ =>
          Raises.pure _
      rcases CScript.isWitnessProgram pubKeySerialized with _ | ⟨witnessversion, witnessprogram⟩
      · exact Raises.pure _
      · exact (failIf_isScriptError _ _).bind fun _ _ =>
          (verifyWitnessProgram_isScriptError crypto checker witness witnessversion witnessprogram
            flags).bind fun _ _ => Raises.pure _

theorem checkCleanStack_isScriptError {flags : UInt32} (consistent : FlagsConsistent flags)
    (stack : List valtype) : Raises IsScriptError (checkCleanStack flags stack) := by
  unfold checkCleanStack
  refine Raises.ite (fun clean => ?_) fun _ => Raises.pure ()
  obtain ⟨p2sh, witness⟩ := consistent.cleanStack clean
  rw [p2sh, witness]
  exact (Raises.of_ok ()).bind fun _ _ => (Raises.of_ok ()).bind fun _ _ => failIf_isScriptError _ _

theorem checkWitnessUsed_isScriptError {flags : UInt32} (consistent : FlagsConsistent flags)
    (hadWitness : Bool) (witness : CScriptWitness) :
    Raises IsScriptError (checkWitnessUsed flags hadWitness witness) := by
  unfold checkWitnessUsed
  refine Raises.ite (fun witnessOn => ?_) fun _ => Raises.pure ()
  rw [consistent.witness witnessOn]
  exact (Raises.of_ok ()).bind fun _ _ => failIf_isScriptError _ _

/--
With consistent flags `VerifyScript` stops only with a script error.  The
pay-to-script-hash part runs on the stack the scriptPubKey succeeded on.
-/
theorem verifyScript_isScriptError {flags : UInt32} (consistent : FlagsConsistent flags)
    (scriptSig scriptPubKey : CScript) (witness : CScriptWitness) :
    Raises IsScriptError (verifyScript crypto checker scriptSig scriptPubKey witness flags) := by
  unfold verifyScript
  refine (failIf_isScriptError _ _).bind fun _ _ =>
    (evalScript_isScriptError crypto checker _ _ _ _).bind fun stack _ => ?_
  refine (evalScript_isScriptError crypto checker _ _ _ _).bind fun _ pubKeyRun =>
    (checkTrue_isScriptError _).bind fun _ _ =>
      (bareWitness_isScriptError crypto checker _ _ _ _ _).bind fun (_, _) _ => ?_
  refine (Raises.ite (fun run => ?_) fun _ => Raises.pure _).bind fun (stack, hadWitness) _ =>
    (checkCleanStack_isScriptError consistent stack).bind fun _ _ =>
      checkWitnessUsed_isScriptError consistent hadWitness witness
  obtain ⟨p2sh, isP2SH⟩ := Bool.and_eq_true_iff.1 run
  rw [if_pos p2sh]
  exact payToScriptHash_isScriptError crypto checker
    (evalScript_nonempty_of_isPayToScriptHash crypto checker isP2SH pubKeyRun) _ _ _ _

/-! ## The stack limit -/

/-- A turn of the loop that succeeds: the operation ran, and the stacks are within the limit. -/
theorem evalStep_eq_ok {flags : UInt32} {sigversion : SigVersion} {m m' : Machine} {op : Op}
    (stepped : evalStep crypto checker flags sigversion m op = .ok m') :
    (∃ nOpCount, dispatch crypto checker flags sigversion (m.vfExec.count false == 0) op
        { m with nOpCount } = .ok m') ∧
      m'.stack.length + m'.altstack.length ≤ 1000 := by
  unfold evalStep at stepped
  obtain ⟨_, -, stepped⟩ := bind_eq_ok.1 stepped
  obtain ⟨_, -, stepped⟩ := bind_eq_ok.1 stepped
  obtain ⟨_, -, stepped⟩ := bind_eq_ok.1 stepped
  obtain ⟨m'', dispatched, stepped⟩ := bind_eq_ok.1 stepped
  obtain ⟨_, bounded, done⟩ := bind_eq_ok.1 stepped
  cases done
  exact ⟨⟨_, dispatched⟩, by simpa using bounded⟩

/-- After the last operation of a run that succeeds, the two stacks hold at most 1000 elements. -/
theorem foldlM_evalStep_stack_le {flags : UInt32} {sigversion : SigVersion} {ops : List Op}
    (nonempty : ops ≠ []) {m m' : Machine}
    (run : ops.foldlM (evalStep crypto checker flags sigversion) m = .ok m') :
    m'.stack.length + m'.altstack.length ≤ 1000 := by
  obtain ⟨init, last, rfl⟩ := (List.eq_nil_or_concat ops).resolve_left nonempty
  rw [List.concat_eq_append, List.foldlM_append] at run
  obtain ⟨_, -, run⟩ := bind_eq_ok.1 run
  simp only [List.foldlM_cons, List.foldlM_nil, bind_pure] at run
  exact (evalStep_eq_ok crypto checker run).2

end Branches

/-! ## Balanced branches -/

/--
The open branches after `op`, from `depth` open: `IF` and `NOTIF` open one,
`ENDIF` closes one, and `ELSE` and `ENDIF` need one open.
-/
def branchStep (depth : Nat) (op : Op) : Option Nat :=
  if op.opcode = OP_IF ∨ op.opcode = OP_NOTIF then some (depth + 1)
  else if op.opcode = OP_ELSE then (if depth = 0 then none else some depth)
  else if op.opcode = OP_ENDIF then (if depth = 0 then none else some (depth - 1))
  else some depth

/-- The open branches after `ops`, or `none` when an `ELSE` or `ENDIF` finds none open. -/
def branchDepth (depth : Nat) (ops : List Op) : Option Nat :=
  ops.foldlM branchStep depth

/-- The branches of the `switch` that open, switch or close a branch. -/
def Instr.isBranching : Instr → Bool
  | .conditional _ | .elseBranch | .endIf => true
  | _ => false

theorem branchStep_of_opens {op : Op} (depth : Nat)
    (opens : op.opcode = OP_IF ∨ op.opcode = OP_NOTIF) : branchStep depth op = some (depth + 1) := by
  rw [branchStep, if_pos opens]

theorem branchStep_of_else {op : Op} (depth : Nat) (isElse : op.opcode = OP_ELSE) :
    branchStep (depth + 1) op = some (depth + 1) := by
  rw [branchStep, if_neg (by rw [isElse]; decide), if_pos isElse, if_neg (Nat.succ_ne_zero depth)]

theorem branchStep_of_endIf {op : Op} (depth : Nat) (isEndIf : op.opcode = OP_ENDIF) :
    branchStep (depth + 1) op = some depth := by
  rw [branchStep, if_neg (by rw [isEndIf]; decide), if_neg (by rw [isEndIf]; decide),
    if_pos isEndIf, if_neg (Nat.succ_ne_zero depth)]
  rfl

/-- An operation other than `IF`, `NOTIF`, `ELSE` and `ENDIF` leaves the branches as they are. -/
theorem branchStep_of_ne {op : Op} (depth : Nat)
    (other : ∀ opcode, (opcode = OP_IF ∨ opcode = OP_NOTIF ∨ opcode = OP_ELSE ∨
      opcode = OP_ENDIF) → op.opcode ≠ opcode) : branchStep depth op = some depth := by
  have opens : ¬(op.opcode = OP_IF ∨ op.opcode = OP_NOTIF) := by
    rintro (same | same)
    · exact other _ (.inl rfl) same
    · exact other _ (.inr (.inl rfl)) same
  rw [branchStep, if_neg opens, if_neg (other _ (.inr (.inr (.inl rfl)))),
    if_neg (other _ (.inr (.inr (.inr rfl))))]

/-- Outside `OP_IF` to `OP_ENDIF` an operation leaves the branches as they are. -/
theorem branchStep_of_outside {op : Op} (depth : Nat)
    (outside : ¬(OP_IF ≤ op.opcode ∧ op.opcode ≤ OP_ENDIF)) : branchStep depth op = some depth := by
  refine branchStep_of_ne depth fun opcode listed same => outside ?_
  rw [same]
  rcases listed with rfl | rfl | rfl | rfl <;> decide

/-- An opcode that decodes to a named branch other than a number is one of its `case` labels. -/
theorem mem_caseLabels_of_decodeOp {opcode : UInt8} {instr : Instr}
    (decoded : decodeOp opcode = instr) (notBad : instr ≠ .bad)
    (notNumber : ∀ n, instr ≠ .pushNumber n) : (opcode, instr) ∈ caseLabels := by
  unfold decodeOp at decoded
  split at decoded
  · exact absurd decoded.symm (notNumber _)
  · cases found : caseLabels.lookup opcode with
    | none =>
        rw [found] at decoded
        exact absurd decoded.symm notBad
    | some named =>
        rw [found, Option.getD_some] at decoded
        subst decoded
        obtain ⟨front, back, split, -⟩ := List.lookup_eq_some_iff.1 found
        rw [split]
        exact List.mem_append_right _ List.mem_cons_self

theorem decodeOp_eq_conditional {opcode : UInt8} {notIf : Bool}
    (decoded : decodeOp opcode = .conditional notIf) : opcode = OP_IF ∨ opcode = OP_NOTIF := by
  have labelled := mem_caseLabels_of_decodeOp decoded Instr.noConfusion fun _ => Instr.noConfusion
  simp only [caseLabels, List.mem_cons, Prod.mk.injEq, reduceCtorEq, and_false, false_or,
    or_false, List.not_mem_nil, Instr.conditional.injEq] at labelled
  rcases labelled with ⟨isIf, -⟩ | ⟨isNotIf, -⟩
  · exact .inl isIf
  · exact .inr isNotIf

theorem decodeOp_eq_elseBranch {opcode : UInt8} (decoded : decodeOp opcode = .elseBranch) :
    opcode = OP_ELSE := by
  have labelled := mem_caseLabels_of_decodeOp decoded Instr.noConfusion fun _ => Instr.noConfusion
  simpa [caseLabels] using labelled

theorem decodeOp_eq_endIf {opcode : UInt8} (decoded : decodeOp opcode = .endIf) :
    opcode = OP_ENDIF := by
  have labelled := mem_caseLabels_of_decodeOp decoded Instr.noConfusion fun _ => Instr.noConfusion
  simpa [caseLabels] using labelled

/-- An operation whose branch of the `switch` is not `IF`, `ELSE` or `ENDIF` leaves the branches. -/
theorem branchStep_of_decodeOp {op : Op} {instr : Instr} (decoded : decodeOp op.opcode = instr)
    (plain : instr.isBranching = false) (depth : Nat) : branchStep depth op = some depth := by
  refine branchStep_of_ne depth fun opcode listed same => ?_
  have branching : (decodeOp opcode).isBranching = true := by
    rcases listed with rfl | rfl | rfl | rfl <;> decide
  rw [← same, decoded, plain] at branching
  cases branching

section Run

variable (crypto : Crypto) (checker : BaseSignatureChecker)

/-! ### What the branches of the `switch` do to `vfExec` -/

/-- The end of the `VERIFY` opcodes returns one of its two results. -/
theorem verifyResult_returns {α : Type} {holds : α → Prop} (verify success : Bool)
    {popped pushed : α} (serror : ScriptError) (poppedHolds : holds popped)
    (pushedHolds : holds pushed) :
    Returns holds (if verify then (if success then pure popped else throw (.error serror))
      else pure pushed : Except Stop α) :=
  Returns.ite (fun _ => Returns.ite (fun _ => Returns.pure poppedHolds) fun _ => Returns.throw _)
    fun _ => Returns.pure pushedHolds

theorem opCheckLockTimeVerify_vfExec (flags : UInt32) (m : Machine) :
    Returns (fun m' => m'.vfExec = m.vfExec) (opCheckLockTimeVerify checker flags m) := by
  unfold opCheckLockTimeVerify
  refine Returns.ite (fun _ => Returns.bind fun _ _ => Returns.pure rfl) fun _ m' returned => ?_
  rw [checkLockTimeOperand_unchanged checker returned]

theorem opCheckSequenceVerify_vfExec (flags : UInt32) (m : Machine) :
    Returns (fun m' => m'.vfExec = m.vfExec) (opCheckSequenceVerify checker flags m) := by
  unfold opCheckSequenceVerify
  refine Returns.ite (fun _ => Returns.bind fun _ _ => Returns.pure rfl) fun _ m' returned => ?_
  rw [checkSequenceOperand_unchanged checker returned]

/-- `IF` and `NOTIF` push whether their branch is taken. -/
theorem opIf_vfExec (flags : UInt32) (sigversion : SigVersion) (fExec notIf : Bool) (m : Machine) :
    Returns (fun m' => ∃ fValue, m'.vfExec = fValue :: m.vfExec)
      (opIf flags sigversion fExec notIf m) := by
  unfold opIf
  refine Returns.ite (fun _ => ?_) fun _ => Returns.pure ⟨false, rfl⟩
  cases m.stack with
  | nil => exact Returns.throw _
  | cons vch rest => exact Returns.bind fun _ _ => Returns.pure ⟨_, rfl⟩

theorem opPickOrRoll_vfExec (fRequireMinimal roll : Bool) (m : Machine) :
    Returns (fun m' => m'.vfExec = m.vfExec) (opPickOrRoll fRequireMinimal roll m) := by
  unfold opPickOrRoll
  rcases m.stack with _ | ⟨top, _ | ⟨next, rest⟩⟩
  · exact Returns.throw _
  · exact Returns.throw _
  · exact Returns.bind fun _ _ => Returns.bind fun _ _ => Returns.pure rfl

theorem opEqual_vfExec (verify : Bool) (m : Machine) :
    Returns (fun m' => m'.vfExec = m.vfExec) (opEqual verify m) := by
  unfold opEqual
  rcases m.stack with _ | ⟨vch2, _ | ⟨vch1, rest⟩⟩
  · exact Returns.throw _
  · exact Returns.throw _
  · exact verifyResult_returns _ _ _ rfl rfl

theorem opUnary_vfExec (fRequireMinimal : Bool) (op : UnaryOp) (m : Machine) :
    Returns (fun m' => m'.vfExec = m.vfExec) (opUnary fRequireMinimal op m) := by
  unfold opUnary
  cases m.stack with
  | nil => exact Returns.throw _
  | cons top rest => exact Returns.bind fun _ _ => Returns.bind fun _ _ => Returns.pure rfl

theorem opBinary_vfExec (fRequireMinimal : Bool) (op : BinaryOp) (m : Machine) :
    Returns (fun m' => m'.vfExec = m.vfExec) (opBinary fRequireMinimal op m) := by
  unfold opBinary
  rcases m.stack with _ | ⟨vch2, _ | ⟨vch1, rest⟩⟩
  · exact Returns.throw _
  · exact Returns.throw _
  · exact Returns.bind fun _ _ => Returns.bind fun _ _ => Returns.bind fun _ _ =>
      verifyResult_returns _ _ _ rfl rfl

theorem opWithin_vfExec (fRequireMinimal : Bool) (m : Machine) :
    Returns (fun m' => m'.vfExec = m.vfExec) (opWithin fRequireMinimal m) := by
  unfold opWithin
  rcases m.stack with _ | ⟨vch3, _ | ⟨vch2, _ | ⟨vch1, rest⟩⟩⟩
  · exact Returns.throw _
  · exact Returns.throw _
  · exact Returns.throw _
  · exact Returns.bind fun _ _ => Returns.bind fun _ _ => Returns.bind fun _ _ => Returns.pure rfl

theorem opCheckSig_vfExec (flags : UInt32) (sigversion : SigVersion) (verify : Bool) (m : Machine) :
    Returns (fun m' => m'.vfExec = m.vfExec) (opCheckSig crypto checker flags sigversion verify m) := by
  unfold opCheckSig
  rcases m.stack with _ | ⟨vchPubKey, _ | ⟨vchSig, rest⟩⟩
  · exact Returns.throw _
  · exact Returns.throw _
  · exact Returns.bind fun _ _ => Returns.bind fun _ _ => Returns.bind fun _ _ =>
      verifyResult_returns _ _ _ rfl rfl

theorem opCheckMultiSig_vfExec (flags : UInt32) (sigversion : SigVersion) (verify : Bool)
    (m : Machine) :
    Returns (fun m' => m'.vfExec = m.vfExec)
      (opCheckMultiSig crypto checker flags sigversion verify m) := by
  unfold opCheckMultiSig
  repeat refine Returns.bind fun _ _ => ?_
  split
  · exact Returns.throw _
  · exact Returns.bind fun _ _ => verifyResult_returns _ _ _ rfl rfl

/-- One branch of the `switch` moves the open branches as `branchStep` does. -/
theorem execute_branchStep (flags : UInt32) (sigversion : SigVersion) (fExec : Bool) (op : Op)
    (m : Machine) :
    Returns (fun m' => branchStep m.vfExec.length op = some m'.vfExec.length)
      (execute crypto checker flags sigversion fExec op m) := by
  have keeps : ∀ {instr : Instr}, decodeOp op.opcode = instr → instr.isBranching = false →
      ∀ m' : Machine, m'.vfExec = m.vfExec → branchStep m.vfExec.length op = some m'.vfExec.length :=
    fun decoded plain m' same => by rw [same, branchStep_of_decodeOp decoded plain]
  unfold execute
  generalize decoded : decodeOp op.opcode = instr
  cases instr with
  | conditional notIf =>
      refine (opIf_vfExec flags sigversion fExec notIf m).mono fun m' ⟨_, pushed⟩ => ?_
      rw [pushed, List.length_cons, branchStep_of_opens _ (decodeOp_eq_conditional decoded)]
  | elseBranch =>
      dsimp only
      cases vfExec : m.vfExec with
      | nil => exact Returns.throw _
      | cons fValue rest => exact Returns.pure (branchStep_of_else _ (decodeOp_eq_elseBranch decoded))
  | endIf =>
      dsimp only
      cases vfExec : m.vfExec with
      | nil => exact Returns.throw _
      | cons fValue rest => exact Returns.pure (branchStep_of_endIf _ (decodeOp_eq_endIf decoded))
  | upgradableNop => exact Returns.bind fun _ _ => Returns.pure (keeps decoded rfl m rfl)
  | checkLockTimeVerify =>
      exact (opCheckLockTimeVerify_vfExec checker flags m).mono (keeps decoded rfl)
  | checkSequenceVerify =>
      exact (opCheckSequenceVerify_vfExec checker flags m).mono (keeps decoded rfl)
  | pickOrRoll roll => exact (opPickOrRoll_vfExec _ roll m).mono (keeps decoded rfl)
  | equal verify => exact (opEqual_vfExec verify m).mono (keeps decoded rfl)
  | unary kind => exact (opUnary_vfExec _ kind m).mono (keeps decoded rfl)
  | binary kind => exact (opBinary_vfExec _ kind m).mono (keeps decoded rfl)
  | within => exact (opWithin_vfExec _ m).mono (keeps decoded rfl)
  | checkSig verify =>
      exact (opCheckSig_vfExec crypto checker flags sigversion verify m).mono (keeps decoded rfl)
  | checkMultiSig verify =>
      exact (opCheckMultiSig_vfExec crypto checker flags sigversion verify m).mono
        (keeps decoded rfl)
  | _ =>
      dsimp only
      (repeat' split) <;> first
        | exact Returns.throw _
        | exact Returns.pure (keeps decoded rfl _ rfl)

theorem dispatch_branchStep (flags : UInt32) (sigversion : SigVersion) (fExec : Bool) (op : Op)
    (m : Machine) :
    Returns (fun m' => branchStep m.vfExec.length op = some m'.vfExec.length)
      (dispatch crypto checker flags sigversion fExec op m) := by
  unfold dispatch
  refine Returns.ite (fun push => Returns.bind fun _ _ => Returns.pure ?_) fun _ =>
    Returns.ite (fun _ => execute_branchStep crypto checker flags sigversion fExec op m)
      fun skip => Returns.pure ?_
  · have pushed : op.opcode ≤ OP_PUSHDATA4 := of_decide_eq_true (Bool.and_eq_true_iff.1 push).2
    exact branchStep_of_outside _ fun ⟨low, _⟩ => absurd (UInt8.le_trans low pushed) (by decide)
  · simp only [Bool.or_eq_true, Bool.and_eq_true, decide_eq_true_eq, not_or] at skip
    exact branchStep_of_outside _ skip.2

/-- The run lemma: a run moves the open branches as `branchDepth` does. -/
theorem foldlM_evalStep_branchDepth {flags : UInt32} {sigversion : SigVersion} {ops : List Op}
    {m m' : Machine} (run : ops.foldlM (evalStep crypto checker flags sigversion) m = .ok m') :
    branchDepth m.vfExec.length ops = some m'.vfExec.length := by
  induction ops generalizing m with
  | nil =>
      cases run
      rfl
  | cons op ops ih =>
      rw [List.foldlM_cons] at run
      obtain ⟨m'', stepped, run⟩ := bind_eq_ok.1 run
      obtain ⟨⟨_, dispatched⟩, -⟩ := evalStep_eq_ok crypto checker stepped
      rw [branchDepth, List.foldlM_cons,
        dispatch_branchStep crypto checker flags sigversion _ op _ m'' dispatched]
      exact ih run

/-- `EvalScript` succeeds only when every `IF` and `NOTIF` is closed, and no `ELSE` or `ENDIF` is outside a branch. -/
theorem evalScript_branchesClosed {stack : List valtype} {script : CScript} {flags : UInt32}
    {sigversion : SigVersion} {result : List valtype}
    (returned : evalScript crypto checker stack script flags sigversion = .ok result) :
    branchDepth 0 (CScript.ops script).1 = some 0 := by
  unfold evalScript at returned
  obtain ⟨_, -, returned⟩ := bind_eq_ok.1 returned
  obtain ⟨m, looped, returned⟩ := bind_eq_ok.1 returned
  obtain ⟨_, closed, -⟩ := bind_eq_ok.1 returned
  have looped := catchAll_eq_ok looped
  unfold evalLoop at looped
  obtain ⟨m', run, looped⟩ := bind_eq_ok.1 looped
  obtain ⟨_, -, done⟩ := bind_eq_ok.1 looped
  cases done
  have empty : m.vfExec = [] := by simpa using closed
  have depth := foldlM_evalStep_branchDepth crypto checker run
  rwa [empty] at depth

end Run

/-! ## Stopping cleanly -/

/--
Under consistent flags, `EvalScript` and `VerifyScript` stop only with
script errors.  Every turn of the loop that succeeds leaves at most 1000
elements on the two stacks.  A successful `EvalScript` has closed its
branches.  The loop reads at most one operation for every byte.
-/
theorem verifyScript_stops_cleanly (crypto : Crypto) (checker : BaseSignatureChecker)
    {flags : UInt32} (consistent : FlagsConsistent flags) :
    (∀ stack script sigversion,
      Raises IsScriptError (evalScript crypto checker stack script flags sigversion)) ∧
    (∀ scriptSig scriptPubKey witness,
      Raises IsScriptError (verifyScript crypto checker scriptSig scriptPubKey witness flags)) ∧
    (∀ stack script sigversion (pre post : List Op) (m : Machine),
      (CScript.ops script).1 = pre ++ post → pre ≠ [] →
        pre.foldlM (evalStep crypto checker flags sigversion) (Machine.start stack script) = .ok m →
          m.stack.length + m.altstack.length ≤ 1000) ∧
    (∀ stack script sigversion result,
      evalScript crypto checker stack script flags sigversion = .ok result →
        branchDepth 0 (CScript.ops script).1 = some 0) ∧
    (∀ script : CScript, (CScript.ops script).1.length ≤ script.length) :=
  ⟨fun stack script sigversion => evalScript_isScriptError crypto checker stack script flags sigversion,
    verifyScript_isScriptError crypto checker consistent,
    fun _ _ _ _ _ _ _ nonempty run => foldlM_evalStep_stack_le crypto checker nonempty run,
    fun _ _ _ _ returned => evalScript_branchesClosed crypto checker returned,
    length_ops_le⟩

/-- The pay-to-script-hash scriptPubKey of every redeem script under `constantCrypto`. -/
def zeroHashP2SH : CScript :=
  [OP_HASH160, 0x14] ++ List.replicate 20 0 ++ [OP_EQUAL]

/-- With an empty scriptSig, the scriptPubKey fails before the assertion of the pay-to-script-hash part. -/
theorem verifyScript_stops_cleanly_emptyScriptSig :
    FlagsConsistent (SCRIPT_VERIFY_P2SH ||| SCRIPT_VERIFY_WITNESS) ∧
      Raises IsScriptError (verifyScript constantCrypto rejectingChecker [] zeroHashP2SH ⟨[]⟩
        (SCRIPT_VERIFY_P2SH ||| SCRIPT_VERIFY_WITNESS)) ∧
      verifyScript constantCrypto rejectingChecker [] zeroHashP2SH ⟨[]⟩
        (SCRIPT_VERIFY_P2SH ||| SCRIPT_VERIFY_WITNESS) = .error (.error .INVALID_STACK_OPERATION) := by
  have consistent : FlagsConsistent (SCRIPT_VERIFY_P2SH ||| SCRIPT_VERIFY_WITNESS) :=
    ⟨by decide, by decide⟩
  exact ⟨consistent,
    (verifyScript_stops_cleanly constantCrypto rejectingChecker consistent).2.1 [] zeroHashP2SH ⟨[]⟩,
    by decide⟩

end Dogecoin.Script
