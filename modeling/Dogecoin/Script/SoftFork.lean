import Dogecoin.Script.Verify
import Dogecoin.Lib.ExceptSpec

/-!
# Which flag changes are soft forks

A flag is a soft fork when it only adds rules: whatever verifies with it
also verifies without it.  For `VerifyScript` this holds between a flag set
`G` and any subset `F` of it that keeps the assertions of `VerifyScript`, with
one exception.  Under `DISCOURAGE_UPGRADABLE_NOPS`, `OP_CHECKLOCKTIMEVERIFY`
and `OP_CHECKSEQUENCEVERIFY` fail as upgradable NOPs while their own flags
are off.  So turning their flag on lets through a script that failed.  Take
the script that pushes `2^31` and runs `OP_CHECKSEQUENCEVERIFY`.  Its
operand carries the disable flag, so with `DISCOURAGE_UPGRADABLE_NOPS` and
`CHECKSEQUENCEVERIFY` it passes for every checker.  With
`DISCOURAGE_UPGRADABLE_NOPS` alone it fails.

`Weakening F G` is the condition that excludes the exception: `F ⊆ G`, and
where `F` discourages upgradable NOPs it keeps the lock-time flags that `G`
has.  Under it each part of the interpreter is more `Lenient` with `F` than
with `G`.  Every check that `F` makes, `G` makes too, and where both succeed
they compute the same thing.  The lemmas follow the interpreter upwards:
the checks on signatures and keys, the branches of the `switch`, one turn of
the loop, `EvalScript`, the witness program, and `VerifyScript`.  When `F`
has `WITNESS`, the two runs of `VerifyScript` take the same branches.
When it lacks it, `F` skips the witness and clean-stack parts.  Those parts
only add checks.
-/

namespace Dogecoin.Script

open Dogecoin.Primitives ExceptSpec

/-! ## Flag sets -/

/-- The flags of `F` are flags of `G`. -/
def FlagsSubset (F G : UInt32) : Prop :=
  F &&& G = F

instance (F G : UInt32) : Decidable (FlagsSubset F G) :=
  inferInstanceAs (Decidable (F &&& G = F))

theorem FlagsSubset.mono {F G : UInt32} (subset : FlagsSubset F G) {flag : UInt32}
    (set : hasFlag F flag = true) : hasFlag G flag = true := by
  simp only [hasFlag, bne_iff_ne, ne_eq] at set ⊢
  intro cleared
  apply set
  rw [← subset, UInt32.and_assoc, cleared, UInt32.and_zero]

/-- The flags `VerifyScript` asserts: `CLEANSTACK` needs `P2SH` and `WITNESS`, `WITNESS` needs `P2SH`. -/
structure FlagsConsistent (flags : UInt32) : Prop where
  cleanStack : hasFlag flags SCRIPT_VERIFY_CLEANSTACK = true →
    hasFlag flags SCRIPT_VERIFY_P2SH = true ∧ hasFlag flags SCRIPT_VERIFY_WITNESS = true
  witness : hasFlag flags SCRIPT_VERIFY_WITNESS = true → hasFlag flags SCRIPT_VERIFY_P2SH = true

/--
`F` is `G` with flags dropped, but not a lock-time flag of `G` while `F`
discourages upgradable NOPs.
-/
structure Weakening (F G : UInt32) : Prop where
  subset : FlagsSubset F G
  lockTime : hasFlag F SCRIPT_VERIFY_DISCOURAGE_UPGRADABLE_NOPS = true →
    hasFlag G SCRIPT_VERIFY_CHECKLOCKTIMEVERIFY = true →
      hasFlag F SCRIPT_VERIFY_CHECKLOCKTIMEVERIFY = true
  sequence : hasFlag F SCRIPT_VERIFY_DISCOURAGE_UPGRADABLE_NOPS = true →
    hasFlag G SCRIPT_VERIFY_CHECKSEQUENCEVERIFY = true →
      hasFlag F SCRIPT_VERIFY_CHECKSEQUENCEVERIFY = true

theorem and_weaker {a a' b : Bool} (weaker : a' = true → a = true) :
    (a' && b) = true → (a && b) = true := by
  simp only [Bool.and_eq_true]
  exact fun ⟨holds, other⟩ => ⟨weaker holds, other⟩

theorem and_weaker_right {a b b' : Bool} (weaker : b' = true → b = true) :
    (a && b') = true → (a && b) = true := by
  simp only [Bool.and_eq_true]
  exact fun ⟨other, holds⟩ => ⟨other, weaker holds⟩

/-! ## Checks -/

theorem failIf_lenient {c c' : Bool} {serror serror' : ScriptError}
    (weaker : c' = true → c = true) : Lenient (failIf c serror) (failIf c' serror') :=
  Lenient.ite_throw weaker fun _ => Lenient.refl _

/-- Decoding a number with the minimal-encoding rule off accepts more. -/
theorem ofVch_lenient (vch : valtype) (nMaxNumSize : Nat) {minimal minimal' : Bool}
    (weaker : minimal' = true → minimal = true) :
    Lenient (CScriptNum.ofVch vch minimal nMaxNumSize)
      (CScriptNum.ofVch vch minimal' nMaxNumSize) := by
  unfold CScriptNum.ofVch
  exact Lenient.ite (fun _ => Lenient.refl _) fun _ =>
    Lenient.ite_throw (and_weaker weaker) fun _ => Lenient.refl _

section Weaker

variable (crypto : Crypto) (checker : BaseSignatureChecker) {F G : UInt32}

theorem checkSignatureEncoding_lenient (subset : FlagsSubset F G) (vchSig : valtype) :
    Lenient (checkSignatureEncoding crypto vchSig G) (checkSignatureEncoding crypto vchSig F) := by
  unfold checkSignatureEncoding
  refine Lenient.ite (fun _ => Lenient.refl _) fun _ => ?_
  exact (failIf_lenient (and_weaker subset.mono)).bind fun _ _ =>
    (Lenient.when subset.mono _).bind fun _ _ => failIf_lenient (and_weaker subset.mono)

theorem checkPubKeyEncoding_lenient (subset : FlagsSubset F G) (vchPubKey : valtype)
    (sigversion : SigVersion) :
    Lenient (checkPubKeyEncoding vchPubKey G sigversion)
      (checkPubKeyEncoding vchPubKey F sigversion) := by
  unfold checkPubKeyEncoding
  exact (failIf_lenient (and_weaker subset.mono)).bind fun _ _ =>
    failIf_lenient (and_weaker (and_weaker subset.mono))

theorem checkMinimalIf_lenient (subset : FlagsSubset F G) (sigversion : SigVersion)
    (vch : valtype) :
    Lenient (checkMinimalIf G sigversion vch) (checkMinimalIf F sigversion vch) := by
  unfold checkMinimalIf
  refine Lenient.when ?_ _
  simp only [Bool.and_eq_true]
  exact fun ⟨witness, set⟩ => ⟨witness, subset.mono set⟩

/-! ## The branches of the `switch` -/

/-- The lock-time opcodes never change the machine. -/
theorem checkLockTimeOperand_unchanged {fRequireMinimal : Bool} {m m' : Machine}
    (returned : checkLockTimeOperand checker fRequireMinimal m = .ok m') : m' = m := by
  unfold checkLockTimeOperand at returned
  split at returned
  · cases returned
  · obtain ⟨_, _, checked⟩ := bind_eq_ok.1 returned
    obtain ⟨_, _, checked⟩ := bind_eq_ok.1 checked
    obtain ⟨_, _, done⟩ := bind_eq_ok.1 checked
    exact (Except.ok.inj done).symm

theorem checkSequenceOperand_unchanged {fRequireMinimal : Bool} {m m' : Machine}
    (returned : checkSequenceOperand checker fRequireMinimal m = .ok m') : m' = m := by
  unfold checkSequenceOperand at returned
  split at returned
  · cases returned
  · obtain ⟨_, _, checked⟩ := bind_eq_ok.1 returned
    obtain ⟨_, _, checked⟩ := bind_eq_ok.1 checked
    split at checked
    · exact (Except.ok.inj checked).symm
    · obtain ⟨_, _, done⟩ := bind_eq_ok.1 checked
      exact (Except.ok.inj done).symm

theorem checkLockTimeOperand_lenient {minimal minimal' : Bool}
    (weaker : minimal' = true → minimal = true) (m : Machine) :
    Lenient (checkLockTimeOperand checker minimal m) (checkLockTimeOperand checker minimal' m) := by
  unfold checkLockTimeOperand
  cases m.stack with
  | nil => exact Lenient.refl _
  | cons top rest => exact (ofVch_lenient top 5 weaker).bind fun _ _ => Lenient.refl _

theorem checkSequenceOperand_lenient {minimal minimal' : Bool}
    (weaker : minimal' = true → minimal = true) (m : Machine) :
    Lenient (checkSequenceOperand checker minimal m) (checkSequenceOperand checker minimal' m) := by
  unfold checkSequenceOperand
  cases m.stack with
  | nil => exact Lenient.refl _
  | cons top rest => exact (ofVch_lenient top 5 weaker).bind fun _ _ => Lenient.refl _

/--
The shape of `OP_CHECKLOCKTIMEVERIFY` and `OP_CHECKSEQUENCEVERIFY`: a NOP
unless `flag` is set, a check of the operand once it is.  Under `F` and `G`
both check, or `F` runs a NOP that changes nothing, or both reject an
upgradable NOP.
-/
theorem lockTimeNop_lenient {flag : UInt32} {operand : Bool → Machine → Except Stop Machine}
    (unchanged : ∀ {minimal m m'}, operand minimal m = .ok m' → m' = m)
    (lenient : ∀ {minimal minimal' : Bool}, (minimal' = true → minimal = true) →
      ∀ m, Lenient (operand minimal m) (operand minimal' m))
    (subset : FlagsSubset F G)
    (kept : hasFlag F SCRIPT_VERIFY_DISCOURAGE_UPGRADABLE_NOPS = true → hasFlag G flag = true →
      hasFlag F flag = true) (m : Machine) :
    Lenient
      (if !hasFlag G flag then do
        failIf (hasFlag G SCRIPT_VERIFY_DISCOURAGE_UPGRADABLE_NOPS) .DISCOURAGE_UPGRADABLE_NOPS
        pure m
      else operand (hasFlag G SCRIPT_VERIFY_MINIMALDATA) m)
      (if !hasFlag F flag then do
        failIf (hasFlag F SCRIPT_VERIFY_DISCOURAGE_UPGRADABLE_NOPS) .DISCOURAGE_UPGRADABLE_NOPS
        pure m
      else operand (hasFlag F SCRIPT_VERIFY_MINIMALDATA) m) := by
  cases enabledF : hasFlag F flag with
  | true =>
      rw [subset.mono enabledF]
      exact lenient subset.mono m
  | false =>
      cases discouragedF : hasFlag F SCRIPT_VERIFY_DISCOURAGE_UPGRADABLE_NOPS with
      | false =>
          intro m' returned
          have same : m' = m := by
            split at returned
            · obtain ⟨_, _, done⟩ := bind_eq_ok.1 returned
              exact (Except.ok.inj done).symm
            · exact unchanged returned
          rw [same]
          rfl
      | true =>
          have disabledG : hasFlag G flag = false := by
            cases enabledG : hasFlag G flag with
            | false => rfl
            | true => exact absurd (kept discouragedF enabledG) (by rw [enabledF]; decide)
          rw [disabledG, subset.mono discouragedF]
          exact Lenient.of_error _ _

theorem opCheckLockTimeVerify_lenient (weaker : Weakening F G) (m : Machine) :
    Lenient (opCheckLockTimeVerify checker G m) (opCheckLockTimeVerify checker F m) :=
  lockTimeNop_lenient (checkLockTimeOperand_unchanged checker)
    (checkLockTimeOperand_lenient checker) weaker.subset weaker.lockTime m

theorem opCheckSequenceVerify_lenient (weaker : Weakening F G) (m : Machine) :
    Lenient (opCheckSequenceVerify checker G m) (opCheckSequenceVerify checker F m) :=
  lockTimeNop_lenient (checkSequenceOperand_unchanged checker)
    (checkSequenceOperand_lenient checker) weaker.subset weaker.sequence m

theorem opIf_lenient (subset : FlagsSubset F G) (sigversion : SigVersion) (fExec notIf : Bool)
    (m : Machine) :
    Lenient (opIf G sigversion fExec notIf m) (opIf F sigversion fExec notIf m) := by
  unfold opIf
  refine Lenient.ite (fun _ => ?_) fun _ => Lenient.refl _
  cases m.stack with
  | nil => exact Lenient.refl _
  | cons vch rest =>
      exact (checkMinimalIf_lenient subset sigversion vch).bind fun _ _ => Lenient.refl _

theorem opPickOrRoll_lenient {minimal minimal' : Bool} (weaker : minimal' = true → minimal = true)
    (roll : Bool) (m : Machine) :
    Lenient (opPickOrRoll minimal roll m) (opPickOrRoll minimal' roll m) := by
  unfold opPickOrRoll
  rcases m.stack with _ | ⟨top, _ | ⟨next, rest⟩⟩
  · exact Lenient.refl _
  · exact Lenient.refl _
  · exact (ofVch_lenient top _ weaker).bind fun _ _ => Lenient.refl _

theorem opUnary_lenient {minimal minimal' : Bool} (weaker : minimal' = true → minimal = true)
    (op : UnaryOp) (m : Machine) :
    Lenient (opUnary minimal op m) (opUnary minimal' op m) := by
  unfold opUnary
  cases m.stack with
  | nil => exact Lenient.refl _
  | cons top rest => exact (ofVch_lenient top _ weaker).bind fun _ _ => Lenient.refl _

theorem opBinary_lenient {minimal minimal' : Bool} (weaker : minimal' = true → minimal = true)
    (op : BinaryOp) (m : Machine) :
    Lenient (opBinary minimal op m) (opBinary minimal' op m) := by
  unfold opBinary
  rcases m.stack with _ | ⟨vch2, _ | ⟨vch1, rest⟩⟩
  · exact Lenient.refl _
  · exact Lenient.refl _
  · exact (ofVch_lenient vch1 _ weaker).bind fun _ _ =>
      (ofVch_lenient vch2 _ weaker).bind fun _ _ => Lenient.refl _

theorem opWithin_lenient {minimal minimal' : Bool} (weaker : minimal' = true → minimal = true)
    (m : Machine) : Lenient (opWithin minimal m) (opWithin minimal' m) := by
  unfold opWithin
  rcases m.stack with _ | ⟨vch3, _ | ⟨vch2, _ | ⟨vch1, rest⟩⟩⟩
  · exact Lenient.refl _
  · exact Lenient.refl _
  · exact Lenient.refl _
  · exact (ofVch_lenient vch1 _ weaker).bind fun _ _ =>
      (ofVch_lenient vch2 _ weaker).bind fun _ _ =>
        (ofVch_lenient vch3 _ weaker).bind fun _ _ => Lenient.refl _

theorem opCheckSig_lenient (subset : FlagsSubset F G) (sigversion : SigVersion) (verify : Bool)
    (m : Machine) :
    Lenient (opCheckSig crypto checker G sigversion verify m)
      (opCheckSig crypto checker F sigversion verify m) := by
  unfold opCheckSig
  rcases m.stack with _ | ⟨vchPubKey, _ | ⟨vchSig, rest⟩⟩
  · exact Lenient.refl _
  · exact Lenient.refl _
  · exact (checkSignatureEncoding_lenient crypto subset vchSig).bind fun _ _ =>
      (checkPubKeyEncoding_lenient subset vchPubKey sigversion).bind fun _ _ =>
        (failIf_lenient (and_weaker (and_weaker_right subset.mono))).bind fun _ _ =>
          Lenient.refl _

/-- The signature loop decides the same with fewer flags, whenever it decides. -/
theorem matchSignatures_lenient (subset : FlagsSubset F G) (sigversion : SigVersion)
    (scriptCode : CScript) (sigs keys : List valtype) :
    Lenient (matchSignatures crypto checker G sigversion scriptCode sigs keys)
      (matchSignatures crypto checker F sigversion scriptCode sigs keys) := by
  induction keys generalizing sigs with
  | nil => cases sigs <;> exact Lenient.refl _
  | cons vchPubKey keys ih =>
      cases sigs with
      | nil => exact Lenient.refl _
      | cons vchSig sigs =>
          simp only [matchSignatures]
          exact (checkSignatureEncoding_lenient crypto subset vchSig).bind fun _ _ =>
            (checkPubKeyEncoding_lenient subset vchPubKey sigversion).bind fun _ _ =>
              Lenient.ite (fun _ => Lenient.refl _) fun _ => ih _

theorem popArguments_lenient {nullFail nullFail' : Bool}
    (weaker : nullFail' = true → nullFail = true) (count ikey2 : Nat) (stack : List valtype) :
    Lenient (popArguments nullFail count ikey2 stack) (popArguments nullFail' count ikey2 stack) := by
  induction count generalizing ikey2 stack with
  | zero => exact Lenient.refl _
  | succ count ih =>
      cases stack with
      | nil => exact Lenient.refl _
      | cons top rest =>
          simp only [popArguments]
          exact (failIf_lenient (and_weaker (and_weaker weaker))).bind fun _ _ => ih _ _

theorem opCheckMultiSig_lenient (subset : FlagsSubset F G) (sigversion : SigVersion)
    (verify : Bool) (m : Machine) :
    Lenient (opCheckMultiSig crypto checker G sigversion verify m)
      (opCheckMultiSig crypto checker F sigversion verify m) := by
  unfold opCheckMultiSig
  refine (Lenient.refl _).bind fun _ _ => (ofVch_lenient _ _ subset.mono).bind fun _ _ => ?_
  refine (Lenient.refl _).bind fun _ _ => (Lenient.refl _).bind fun _ _ =>
    (Lenient.refl _).bind fun _ _ => (ofVch_lenient _ _ subset.mono).bind fun _ _ => ?_
  refine (Lenient.refl _).bind fun _ _ => (Lenient.refl _).bind fun _ _ => ?_
  refine (matchSignatures_lenient crypto checker subset sigversion _ _ _).bind fun _ _ => ?_
  refine (popArguments_lenient (and_weaker_right subset.mono) _ _ _).bind fun stack _ => ?_
  cases stack with
  | nil => exact Lenient.refl _
  | cons dummy rest => exact (failIf_lenient (and_weaker subset.mono)).bind fun _ _ => Lenient.refl _

/-- One branch of the `switch`: only the branches that read the flags differ. -/
theorem execute_lenient (weaker : Weakening F G) (sigversion : SigVersion) (fExec : Bool) (op : Op)
    (m : Machine) :
    Lenient (execute crypto checker G sigversion fExec op m)
      (execute crypto checker F sigversion fExec op m) := by
  unfold execute
  generalize decodeOp op.opcode = instr
  cases instr with
  | checkLockTimeVerify => exact opCheckLockTimeVerify_lenient checker weaker m
  | checkSequenceVerify => exact opCheckSequenceVerify_lenient checker weaker m
  | upgradableNop => exact (failIf_lenient weaker.subset.mono).bind fun _ _ => Lenient.refl _
  | conditional notIf => exact opIf_lenient weaker.subset sigversion fExec notIf m
  | pickOrRoll roll => exact opPickOrRoll_lenient weaker.subset.mono roll m
  | unary op => exact opUnary_lenient weaker.subset.mono op m
  | binary op => exact opBinary_lenient weaker.subset.mono op m
  | within => exact opWithin_lenient weaker.subset.mono m
  | checkSig verify => exact opCheckSig_lenient crypto checker weaker.subset sigversion verify m
  | checkMultiSig verify =>
      exact opCheckMultiSig_lenient crypto checker weaker.subset sigversion verify m
  | _ => exact Lenient.refl _

/-! ## The loop and `EvalScript` -/

theorem dispatch_lenient (weaker : Weakening F G) (sigversion : SigVersion) (fExec : Bool) (op : Op)
    (m : Machine) :
    Lenient (dispatch crypto checker G sigversion fExec op m)
      (dispatch crypto checker F sigversion fExec op m) := by
  unfold dispatch
  refine Lenient.ite (fun _ => ?_) fun _ =>
    Lenient.ite (fun _ => execute_lenient crypto checker weaker sigversion fExec op m) fun _ =>
      Lenient.refl _
  exact (failIf_lenient (and_weaker weaker.subset.mono)).bind fun _ _ => Lenient.refl _

theorem evalStep_lenient (weaker : Weakening F G) (sigversion : SigVersion) (m : Machine) (op : Op) :
    Lenient (evalStep crypto checker G sigversion m op) (evalStep crypto checker F sigversion m op) := by
  unfold evalStep
  exact (Lenient.refl _).bind fun _ _ => (Lenient.refl _).bind fun _ _ =>
    (Lenient.refl _).bind fun _ _ =>
      (dispatch_lenient crypto checker weaker sigversion _ op _).bind fun _ _ => Lenient.refl _

/-- `catch (...)` never turns an exception into a result. -/
theorem catchAll_lenient {α : Type} {x y : Except Stop α} (inner : Lenient x y) :
    Lenient (catchAll x) (catchAll y) :=
  Lenient.tryCatch (fun stop _ => by cases stop <;> simp) inner

theorem evalScript_lenient (weaker : Weakening F G) (stack : List valtype) (script : CScript)
    (sigversion : SigVersion) :
    Lenient (evalScript crypto checker stack script G sigversion)
      (evalScript crypto checker stack script F sigversion) := by
  unfold evalScript evalLoop
  refine (Lenient.refl _).bind fun _ _ => (catchAll_lenient ?_).bind fun _ _ => Lenient.refl _
  exact (Lenient.foldlM (evalStep_lenient crypto checker weaker sigversion) _ _).bind fun _ _ =>
    Lenient.refl _

theorem verifyWitnessProgram_lenient (weaker : Weakening F G) (witness : CScriptWitness)
    (witversion : Nat) (program : valtype) :
    Lenient (verifyWitnessProgram crypto checker witness witversion program G)
      (verifyWitnessProgram crypto checker witness witversion program F) := by
  unfold verifyWitnessProgram
  refine Lenient.ite (fun _ => ?_) fun _ =>
    Lenient.ite_throw weaker.subset.mono fun _ => Lenient.refl _
  exact (Lenient.refl _).bind fun (stack, scriptPubKey) _ => (Lenient.refl _).bind fun _ _ =>
    (evalScript_lenient crypto checker weaker stack scriptPubKey .WITNESS_V0).bind fun _ _ =>
      Lenient.refl _

/-! ## Witness programs and the end of `VerifyScript` -/

theorem bareWitness_lenient (weaker : Weakening F G)
    (witnessF : hasFlag F SCRIPT_VERIFY_WITNESS = true) (scriptSig scriptPubKey : CScript)
    (witness : CScriptWitness) (stack : List valtype) :
    Lenient (bareWitness crypto checker scriptSig scriptPubKey witness G stack)
      (bareWitness crypto checker scriptSig scriptPubKey witness F stack) := by
  unfold bareWitness
  rw [if_pos (weaker.subset.mono witnessF), if_pos witnessF]
  rcases CScript.isWitnessProgram scriptPubKey with _ | ⟨witnessversion, witnessprogram⟩
  · exact Lenient.refl _
  · exact (Lenient.refl _).bind fun _ _ =>
      (verifyWitnessProgram_lenient crypto checker weaker witness witnessversion
        witnessprogram).bind fun _ _ => Lenient.refl _

theorem bareWitness_of_witness_off (witnessF : hasFlag F SCRIPT_VERIFY_WITNESS = false)
    (scriptSig scriptPubKey : CScript) (witness : CScriptWitness) (stack : List valtype) :
    bareWitness crypto checker scriptSig scriptPubKey witness F stack = .ok (stack, false) := by
  simp only [bareWitness, witnessF, Bool.false_eq_true, ↓reduceIte, pure_eq_ok]

theorem payToScriptHash_lenient (weaker : Weakening F G)
    (witnessF : hasFlag F SCRIPT_VERIFY_WITNESS = true) (scriptSig : CScript)
    (witness : CScriptWitness) (stackCopy : List valtype) (hadWitness : Bool) :
    Lenient (payToScriptHash crypto checker scriptSig witness G stackCopy hadWitness)
      (payToScriptHash crypto checker scriptSig witness F stackCopy hadWitness) := by
  unfold payToScriptHash
  simp only [witnessF, weaker.subset.mono witnessF, ↓reduceIte]
  refine (Lenient.refl _).bind fun _ _ => ?_
  cases stackCopy with
  | nil => exact Lenient.refl _
  | cons pubKeySerialized rest =>
      refine (evalScript_lenient crypto checker weaker rest pubKeySerialized .BASE).bind
        fun _ _ => (Lenient.refl _).bind fun _ _ => ?_
      rcases CScript.isWitnessProgram pubKeySerialized with _ | ⟨witnessversion, witnessprogram⟩
      · exact Lenient.refl _
      · exact (Lenient.refl _).bind fun _ _ =>
          (verifyWitnessProgram_lenient crypto checker weaker witness witnessversion
            witnessprogram).bind fun _ _ => Lenient.refl _

/-- Without `WITNESS` the pay-to-script-hash part only runs the redeem script. -/
theorem payToScriptHash_of_witness_off (weaker : Weakening F G)
    (witnessF : hasFlag F SCRIPT_VERIFY_WITNESS = false) {scriptSig : CScript}
    {witness : CScriptWitness} {stackCopy : List valtype} {hadWitness : Bool}
    {result : List valtype × Bool}
    (returned : payToScriptHash crypto checker scriptSig witness G stackCopy hadWitness = .ok result)
    (hadWitness' : Bool) :
    ∃ stack, payToScriptHash crypto checker scriptSig witness F stackCopy hadWitness' =
      .ok (stack, hadWitness') := by
  unfold payToScriptHash at returned ⊢
  obtain ⟨_, pushOnly, returned⟩ := bind_eq_ok.1 returned
  cases stackCopy with
  | nil => cases returned
  | cons pubKeySerialized rest =>
      obtain ⟨stack, redeemed, returned⟩ := bind_eq_ok.1 returned
      obtain ⟨_, topTrue, -⟩ := bind_eq_ok.1 returned
      refine ⟨stack, bind_eq_ok.2 ⟨_, pushOnly, bind_eq_ok.2 ⟨stack,
        evalScript_lenient crypto checker weaker rest _ _ _ redeemed, bind_eq_ok.2 ⟨_, topTrue, ?_⟩⟩⟩⟩
      simp only [witnessF, Bool.false_eq_true, ↓reduceIte, pure_eq_ok]

/-- With `CLEANSTACK` in `F` its assertions hold, so both sides check the same. -/
theorem checkCleanStack_lenient (consistent : FlagsConsistent F) (subset : FlagsSubset F G)
    (stack : List valtype) : Lenient (checkCleanStack G stack) (checkCleanStack F stack) := by
  unfold checkCleanStack
  cases cleanF : hasFlag F SCRIPT_VERIFY_CLEANSTACK with
  | false => exact Lenient.to_unit _
  | true =>
      obtain ⟨p2shF, witnessF⟩ := consistent.cleanStack cleanF
      simp only [subset.mono cleanF, subset.mono p2shF, subset.mono witnessF, p2shF, witnessF,
        ↓reduceIte]
      exact Lenient.refl _

theorem checkWitnessUsed_lenient (consistent : FlagsConsistent F) (subset : FlagsSubset F G)
    (hadWitness : Bool) (witness : CScriptWitness) :
    Lenient (checkWitnessUsed G hadWitness witness) (checkWitnessUsed F hadWitness witness) := by
  unfold checkWitnessUsed
  cases witnessF : hasFlag F SCRIPT_VERIFY_WITNESS with
  | false => exact Lenient.to_unit _
  | true =>
      have p2shF := consistent.witness witnessF
      simp only [subset.mono witnessF, subset.mono p2shF, p2shF, ↓reduceIte]
      exact Lenient.refl _

/-- With `WITNESS` in `F`, both runs of `VerifyScript` take the same branches. -/
theorem verifyScript_lenient_of_witness_on (consistent : FlagsConsistent F)
    (weaker : Weakening F G) (witnessF : hasFlag F SCRIPT_VERIFY_WITNESS = true)
    (scriptSig scriptPubKey : CScript) (witness : CScriptWitness) :
    Lenient (verifyScript crypto checker scriptSig scriptPubKey witness G)
      (verifyScript crypto checker scriptSig scriptPubKey witness F) := by
  have p2shF := consistent.witness witnessF
  unfold verifyScript
  simp only [p2shF, weaker.subset.mono p2shF, Bool.true_and, ↓reduceIte]
  refine (failIf_lenient (and_weaker weaker.subset.mono)).bind fun _ _ => ?_
  refine (evalScript_lenient crypto checker weaker [] scriptSig .BASE).bind fun stack _ => ?_
  refine (evalScript_lenient crypto checker weaker stack scriptPubKey .BASE).bind fun _ _ =>
    (Lenient.refl _).bind fun _ _ => ?_
  refine (bareWitness_lenient crypto checker weaker witnessF _ _ _ _).bind
    fun (_, hadWitness) _ => ?_
  refine (Lenient.ite (fun _ => payToScriptHash_lenient crypto checker weaker witnessF _ _ _ _)
    fun _ => Lenient.refl _).bind fun (stack, hadWitness) _ => ?_
  exact (checkCleanStack_lenient consistent weaker.subset stack).bind fun _ _ =>
    checkWitnessUsed_lenient consistent weaker.subset hadWitness witness

/--
The pay-to-script-hash part of `VerifyScript`, on the stack the scriptSig
left: without `WITNESS` in `F` it succeeds with `F` where it succeeds with
`G`, and keeps the witness unused.
-/
theorem payToScriptHashPart_of_witness_off (weaker : Weakening F G)
    (witnessF : hasFlag F SCRIPT_VERIFY_WITNESS = false) {scriptSig scriptPubKey : CScript}
    {witness : CScriptWitness} {stack stackG : List valtype} {hadWitness : Bool}
    {result : List valtype × Bool} (stackF : List valtype)
    (returned : (if hasFlag G SCRIPT_VERIFY_P2SH && CScript.isPayToScriptHash scriptPubKey then
        payToScriptHash crypto checker scriptSig witness G
          (if hasFlag G SCRIPT_VERIFY_P2SH then stack else []) hadWitness
      else pure (stackG, hadWitness)) = .ok result) :
    ∃ stack', (if hasFlag F SCRIPT_VERIFY_P2SH && CScript.isPayToScriptHash scriptPubKey then
        payToScriptHash crypto checker scriptSig witness F
          (if hasFlag F SCRIPT_VERIFY_P2SH then stack else []) false
      else pure (stackF, false)) = .ok (stack', false) := by
  by_cases run : (hasFlag F SCRIPT_VERIFY_P2SH && CScript.isPayToScriptHash scriptPubKey) = true
  · have p2shF := (Bool.and_eq_true_iff.1 run).1
    rw [if_pos (and_weaker weaker.subset.mono run), if_pos (weaker.subset.mono p2shF)] at returned
    rw [if_pos run, if_pos p2shF]
    exact payToScriptHash_of_witness_off crypto checker weaker witnessF returned false
  · rw [if_neg run]
    exact ⟨stackF, rfl⟩

/--
Without `WITNESS` in `F`, the run with `F` skips the witness programs and
the clean-stack rule, which only add checks.
-/
theorem verifyScript_lenient_of_witness_off (consistent : FlagsConsistent F)
    (weaker : Weakening F G) (witnessF : hasFlag F SCRIPT_VERIFY_WITNESS = false)
    (scriptSig scriptPubKey : CScript) (witness : CScriptWitness) :
    Lenient (verifyScript crypto checker scriptSig scriptPubKey witness G)
      (verifyScript crypto checker scriptSig scriptPubKey witness F) := by
  have cleanF : hasFlag F SCRIPT_VERIFY_CLEANSTACK = false := by
    cases clean : hasFlag F SCRIPT_VERIFY_CLEANSTACK with
    | false => rfl
    | true => exact absurd (consistent.cleanStack clean).2 (by rw [witnessF]; decide)
  intro _ verified
  unfold verifyScript at verified ⊢
  obtain ⟨_, pushOnly, verified⟩ := bind_eq_ok.1 verified
  obtain ⟨stack, sigRun, verified⟩ := bind_eq_ok.1 verified
  obtain ⟨stack', pubKeyRun, verified⟩ := bind_eq_ok.1 verified
  obtain ⟨_, topTrue, verified⟩ := bind_eq_ok.1 verified
  obtain ⟨⟨_, hadWitness⟩, -, verified⟩ := bind_eq_ok.1 verified
  obtain ⟨_, p2sh, -⟩ := bind_eq_ok.1 verified
  refine bind_eq_ok.2 ⟨_, failIf_lenient (and_weaker weaker.subset.mono) _ pushOnly, ?_⟩
  refine bind_eq_ok.2 ⟨stack, evalScript_lenient crypto checker weaker _ _ _ _ sigRun, ?_⟩
  refine bind_eq_ok.2 ⟨stack', evalScript_lenient crypto checker weaker _ _ _ _ pubKeyRun, ?_⟩
  refine bind_eq_ok.2 ⟨_, topTrue, ?_⟩
  refine bind_eq_ok.2 ⟨_, bareWitness_of_witness_off crypto checker witnessF _ _ _ _, ?_⟩
  obtain ⟨result, p2shF⟩ :=
    payToScriptHashPart_of_witness_off crypto checker weaker witnessF stack' p2sh
  refine bind_eq_ok.2 ⟨_, p2shF, ?_⟩
  simp only [checkCleanStack, checkWitnessUsed, cleanF, witnessF, Bool.false_eq_true, ↓reduceIte,
    pure_eq_ok, ok_bind]

/--
`VerifyScript` accepts with `F` whatever it accepts with `G`, for a
consistent `F` that weakens `G`.
-/
theorem verifyScript_weakening (consistent : FlagsConsistent F) (weaker : Weakening F G)
    (scriptSig scriptPubKey : CScript) (witness : CScriptWitness)
    (verified : verifyScript crypto checker scriptSig scriptPubKey witness G = .ok ()) :
    verifyScript crypto checker scriptSig scriptPubKey witness F = .ok () := by
  cases witnessF : hasFlag F SCRIPT_VERIFY_WITNESS with
  | true =>
      exact verifyScript_lenient_of_witness_on crypto checker consistent weaker witnessF _ _ _ _
        verified
  | false =>
      exact verifyScript_lenient_of_witness_off crypto checker consistent weaker witnessF _ _ _ _
        verified

end Weaker

/-! ## Turning on `CHECKSEQUENCEVERIFY` -/

/-- Hashes that ignore their input. -/
def constantCrypto : Crypto where
  ripemd160 _ := Vector.replicate 20 0
  sha1 _ := Vector.replicate 20 0
  sha256 _ := Vector.replicate 32 0
  checkLowS _ := true

/-- A checker that rejects every signature and lock time. -/
def rejectingChecker : BaseSignatureChecker where
  checkSig _ _ _ _ := false
  checkLockTime _ := false
  checkSequence _ := false

/-- Push `2^31`, the disable flag of a relative lock time, and run `OP_CHECKSEQUENCEVERIFY`. -/
def csvScript : CScript :=
  [0x05, 0x00, 0x00, 0x00, 0x80, 0x00, 0xb2]

theorem verifyScript_weakening_csv :
    FlagsConsistent SCRIPT_VERIFY_CHECKSEQUENCEVERIFY ∧
      Weakening SCRIPT_VERIFY_CHECKSEQUENCEVERIFY
        (SCRIPT_VERIFY_DISCOURAGE_UPGRADABLE_NOPS ||| SCRIPT_VERIFY_CHECKSEQUENCEVERIFY |||
          SCRIPT_VERIFY_MINIMALDATA) ∧
      verifyScript constantCrypto rejectingChecker [] csvScript ⟨[]⟩
        SCRIPT_VERIFY_CHECKSEQUENCEVERIFY = .ok () := by
  have consistent : FlagsConsistent SCRIPT_VERIFY_CHECKSEQUENCEVERIFY := ⟨by decide, by decide⟩
  have weaker : Weakening SCRIPT_VERIFY_CHECKSEQUENCEVERIFY
      (SCRIPT_VERIFY_DISCOURAGE_UPGRADABLE_NOPS ||| SCRIPT_VERIFY_CHECKSEQUENCEVERIFY |||
        SCRIPT_VERIFY_MINIMALDATA) := ⟨by decide, by decide, by decide⟩
  exact ⟨consistent, weaker,
    verifyScript_weakening constantCrypto rejectingChecker consistent weaker [] csvScript ⟨[]⟩
      (by decide)⟩

/--
Monotonicity in the flags alone fails: `csvScript` passes with
`DISCOURAGE_UPGRADABLE_NOPS` and `CHECKSEQUENCEVERIFY`, and fails with
`DISCOURAGE_UPGRADABLE_NOPS` alone.
-/
theorem verifyScript_flags_counterexample :
    ¬ ∀ (crypto : Crypto) (checker : BaseSignatureChecker) (scriptSig scriptPubKey : CScript)
        (witness : CScriptWitness) (F G : UInt32), FlagsSubset F G → FlagsConsistent F →
        FlagsConsistent G →
        verifyScript crypto checker scriptSig scriptPubKey witness G = .ok () →
          verifyScript crypto checker scriptSig scriptPubKey witness F = .ok () := by
  intro monotone
  have accepted := monotone constantCrypto rejectingChecker [] csvScript ⟨[]⟩
    SCRIPT_VERIFY_DISCOURAGE_UPGRADABLE_NOPS
    (SCRIPT_VERIFY_DISCOURAGE_UPGRADABLE_NOPS ||| SCRIPT_VERIFY_CHECKSEQUENCEVERIFY)
    (by decide) ⟨by decide, by decide⟩ ⟨by decide, by decide⟩ (by decide)
  revert accepted
  decide

end Dogecoin.Script
