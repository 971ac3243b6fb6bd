import Dogecoin.Script.Push

/-!
# Standard scripts: `Solver` and the script builders

`Solver` (script/standard.cpp) classifies a locking script.  It tries three
fast paths first: pay-to-script-hash by its exact bytes, a witness program,
and a data-carrying `OP_RETURN` output.  Then it compares the script with
each template of `mTemplates` in the order of the multimap, that is of
`txnouttype`: pay-to-pubkey, pay-to-pubkey-hash, bare multisig.  The
comparison reads one operation of the script and one of the template at a
time.  A template opcode `OP_PUBKEY`, `OP_PUBKEYHASH` or `OP_SMALLINTEGER`
matches a push of a key, of a 20-byte hash or a small-number opcode.
`OP_PUBKEYS` takes every following push of 33 to 65 bytes, greedily.  Every
other opcode must match exactly, with its data.

`GetScriptForDestination` and `GetScriptForMultisig` build the scripts that
`Solver` is meant to recognise.  From them it returns the key hash, the
script hash, and the small numbers around the keys
(`solver_getScriptFor`).  None of the three builders' outputs takes an
earlier fast path or template, and the greedy loop over the keys stops at
the push of the key count.
-/

namespace Dogecoin.Script

open Dogecoin.Primitives

/-! ## Template opcodes and output types -/

def OP_SMALLINTEGER : UInt8 := 0xfa
def OP_PUBKEYS : UInt8 := 0xfb
def OP_PUBKEYHASH : UInt8 := 0xfd
def OP_PUBKEY : UInt8 := 0xfe
def OP_INVALIDOPCODE : UInt8 := 0xff

/-- `txnouttype`, in the order of its declaration, which is the order of `mTemplates`. -/
inductive txnouttype
  | TX_NONSTANDARD | TX_PUBKEY | TX_PUBKEYHASH | TX_SCRIPTHASH | TX_MULTISIG | TX_NULL_DATA
  | TX_WITNESS_V0_SCRIPTHASH | TX_WITNESS_V0_KEYHASH
deriving DecidableEq, Repr

/-! ## Destinations -/

/-- `uint160`: twenty bytes, in memory order. -/
structure uint160 where
  data : List UInt8
  size_eq : data.length = 20
deriving DecidableEq

/-- The constructor `uint160(const std::vector<unsigned char>&)`, which asserts the size. -/
def uint160.ofVector (vch : valtype) : Except Stop uint160 :=
  if size : vch.length = 20 then pure ⟨vch, size⟩ else throw .abort

/-- `CKeyID`: the hash of a public key. -/
structure CKeyID where
  id : uint160
deriving DecidableEq

/-- `CScriptID`: the hash of a script. -/
structure CScriptID where
  id : uint160
deriving DecidableEq

/-- `CPubKey`, by its bytes `begin()` to `end()`. -/
structure CPubKey where
  vch : valtype
deriving DecidableEq

/-- `CTxDestination`. -/
inductive CTxDestination
  | noDestination
  | keyID (keyID : CKeyID)
  | scriptID (scriptID : CScriptID)
deriving DecidableEq

/-! ## The comparison with a template -/

/--
Where `GetOp2` leaves `pc` when it fails: after the opcode, and after a size
it could read but whose data does not fit.
-/
def getOpFailedAt (pc : CScript) : CScript :=
  match pc with
  | [] => []
  | opcode :: pc =>
      match pushSize opcode pc with
      | none => pc
      | some (_, pc) => pc

set_option linter.unusedVariables false in
/--
The `while` loop of `Solver` at an `OP_PUBKEYS` of the template: the pushes of
33 to 65 bytes from `op1` on, and the operation after them.  When `GetOp`
fails the operation is `OP_INVALIDOPCODE` with no data, where it stopped.
-/
def takePubKeys (op1 : Op) : List valtype × Op :=
  if op1.vchPushValue.length ≥ 33 ∧ op1.vchPushValue.length ≤ 65 then
    match read : getOp op1.after with
    | none => ([op1.vchPushValue], ⟨OP_INVALIDOPCODE, [], getOpFailedAt op1.after⟩)
    | some next =>
        let taken := takePubKeys next
        (op1.vchPushValue :: taken.1, taken.2)
  else ([], op1)
termination_by op1.after.length
decreasing_by exact getOp_shorter read

/--
One comparison of `Solver`: the operation `op1` of the script against `op2` of
the template, and the solutions after it, or `none` at a `break`.
-/
def compareOps (op1 op2 : Op) (vSolutions : List valtype) : Option (List valtype) :=
  if op2.opcode = OP_PUBKEY then
    if op1.vchPushValue.length < 33 ∨ op1.vchPushValue.length > 65 then none
    else some (vSolutions ++ [op1.vchPushValue])
  else if op2.opcode = OP_PUBKEYHASH then
    -- `sizeof(uint160)`
    if op1.vchPushValue.length ≠ 20 then none
    else some (vSolutions ++ [op1.vchPushValue])
  else if op2.opcode = OP_SMALLINTEGER then
    if op1.opcode = OP_0 ∨ (OP_1 ≤ op1.opcode ∧ op1.opcode ≤ OP_16) then
      some (vSolutions ++ [[UInt8.ofNat (decodeOP_N op1.opcode)]])
    else none
  else if op1.opcode ≠ op2.opcode ∨ op1.vchPushValue ≠ op2.vchPushValue then none
  else some vSolutions

set_option linter.unusedVariables false in
/--
The `while (true)` loop of `Solver` over the script from `pc1` and a template
from `pc2`: the solutions when both end together, or `none` at a `break`.
-/
def matchTemplate (pc1 pc2 : CScript) (vSolutions : List valtype) : Option (List valtype) :=
  if pc1 = [] ∧ pc2 = [] then some vSolutions
  else
    match getOp pc1 with
    | none => none
    | some op1 =>
        match read2 : getOp pc2 with
        | none => none
        | some op2 =>
            if op2.opcode = OP_PUBKEYS then
              -- the greedy loop, then the next opcode of the template falls through
              let taken := takePubKeys op1
              match read2' : getOp op2.after with
              | none => none
              | some op2' =>
                  match compareOps taken.2 op2' (vSolutions ++ taken.1) with
                  | none => none
                  | some vSolutions => matchTemplate taken.2.after op2'.after vSolutions
            else
              match compareOps op1 op2 vSolutions with
              | none => none
              | some vSolutions => matchTemplate op1.after op2.after vSolutions
termination_by pc2.length
decreasing_by
  · exact Nat.lt_trans (getOp_shorter read2') (getOp_shorter read2)
  · exact getOp_shorter read2

/-- `mTemplates`, in the order of the multimap. -/
def mTemplates : List (txnouttype × CScript) :=
  [(.TX_PUBKEY, [OP_PUBKEY, OP_CHECKSIG]),
   (.TX_PUBKEYHASH, [OP_DUP, OP_HASH160, OP_PUBKEYHASH, OP_EQUALVERIFY, OP_CHECKSIG]),
   (.TX_MULTISIG, [OP_SMALLINTEGER, OP_PUBKEYS, OP_SMALLINTEGER, OP_CHECKMULTISIG])]

/--
The loop of `Solver` over the templates: the first that matches, with the
additional checks of a multisig match.  A failed check returns `false` with
the type and the solutions set.
-/
def scanTemplates (script1 : CScript) : List (txnouttype × CScript) → Bool × txnouttype × List valtype
  | [] => (false, .TX_NONSTANDARD, [])
  | (tplate, script2) :: rest =>
      match matchTemplate script1 script2 [] with
      | none => scanTemplates script1 rest
      | some vSolutions =>
          if tplate = .TX_MULTISIG then
            let m := (vSolutions.headD []).headD 0
            let n := (vSolutions.getLastD []).headD 0
            -- the solutions hold the two numbers, so `size() - 2` does not wrap
            if m < 1 ∨ n < 1 ∨ m > n ∨ vSolutions.length - 2 ≠ n.toNat then (false, tplate, vSolutions)
            else (true, tplate, vSolutions)
          else (true, tplate, vSolutions)

/--
`Solver(scriptPubKey, typeRet, vSolutionsRet)`: whether it recognises the
script, and `typeRet` and `vSolutionsRet` after it; `typeRet` is the caller's
value where `Solver` leaves it.
-/
def solver (typeRet : txnouttype) (scriptPubKey : CScript) : Bool × txnouttype × List valtype :=
  if CScript.isPayToScriptHash scriptPubKey then (true, .TX_SCRIPTHASH, [(scriptPubKey.drop 2).take 20])
  else
    match CScript.isWitnessProgram scriptPubKey with
    | some (witnessversion, witnessprogram) =>
        if witnessversion = 0 ∧ witnessprogram.length = 20 then
          (true, .TX_WITNESS_V0_KEYHASH, [witnessprogram])
        else if witnessversion = 0 ∧ witnessprogram.length = 32 then
          (true, .TX_WITNESS_V0_SCRIPTHASH, [witnessprogram])
        else (false, typeRet, [])
    | none =>
        if scriptPubKey.length ≥ 1 ∧ scriptPubKey.getD 0 0 = OP_RETURN ∧
            CScript.isPushOnly (scriptPubKey.drop 1) = true then
          (true, .TX_NULL_DATA, [])
        else scanTemplates scriptPubKey mTemplates

/--
`ExtractDestination(scriptPubKey, addressRet)`: the destination, or `none` where
it returns `false`.  `isValid` and `getID` are `CPubKey::IsValid` and
`CPubKey::GetID`; the solutions of the three types it reads hold one element.
-/
def extractDestination (isValid : valtype → Bool) (getID : valtype → CKeyID) (scriptPubKey : CScript) :
    Except Stop (Option CTxDestination) :=
  -- `whichType` is not initialised, and read only after `Solver` succeeds
  let (solved, whichType, vSolutions) := solver .TX_NONSTANDARD scriptPubKey
  if !solved then pure none
  else
    match whichType with
    | .TX_PUBKEY =>
        let pubKey := vSolutions.getD 0 []
        if !isValid pubKey then pure none else pure (some (.keyID (getID pubKey)))
    | .TX_PUBKEYHASH => do
        let id ← uint160.ofVector (vSolutions.getD 0 [])
        pure (some (.keyID ⟨id⟩))
    | .TX_SCRIPTHASH => do
        let id ← uint160.ofVector (vSolutions.getD 0 [])
        pure (some (.scriptID ⟨id⟩))
    | _ => pure none

/-! ## The builders -/

/-- `GetScriptForDestination`, through `CScriptVisitor`. -/
def getScriptForDestination : CTxDestination → CScript
  | .noDestination => []
  | .keyID keyID =>
      CScript.pushVector [OP_DUP, OP_HASH160] keyID.id.data ++ [OP_EQUALVERIFY, OP_CHECKSIG]
  | .scriptID scriptID => CScript.pushVector [OP_HASH160] scriptID.id.data ++ [OP_EQUAL]

/-- `CScript::EncodeOP_N`, which asserts `0 <= n <= 16`. -/
def encodeOP_N (n : Int) : Except Stop UInt8 :=
  if 0 ≤ n ∧ n ≤ 16 then pure (if n = 0 then OP_0 else UInt8.ofNat (OP_1.toNat + n.toNat - 1))
  else throw .abort

/-- `GetScriptForMultisig(nRequired, keys)`. -/
def getScriptForMultisig (nRequired : Int) (keys : List CPubKey) : Except Stop CScript := do
  let required ← encodeOP_N nRequired
  let script := keys.foldl (fun script key => CScript.pushVector script key.vch) [required]
  let count ← encodeOP_N keys.length
  pure (script ++ [count, OP_CHECKMULTISIG])

/-! ## Reading the builders' scripts -/

/-- A push of fewer than 76 bytes is its length and its bytes. -/
theorem pushVector_of_lt (script b : CScript) (direct : b.length < 76) :
    CScript.pushVector script b = script ++ UInt8.ofNat b.length :: b := by
  rw [CScript.pushVector, if_pos (show b.length < OP_PUSHDATA1.toNat from direct)]
  simp

theorem getOp_push {b : valtype} (direct : b.length < 76) (rest : CScript) :
    getOp (UInt8.ofNat b.length :: (b ++ rest)) = some ⟨UInt8.ofNat b.length, b, rest⟩ := by
  have code : (UInt8.ofNat b.length).toNat = b.length := toNat_ofNat_length (by omega)
  have isPush : UInt8.ofNat b.length ≤ OP_PUSHDATA4 := by
    rw [UInt8.le_iff_toNat_le, code]
    exact Nat.le_of_lt (Nat.lt_of_lt_of_le direct (by decide))
  have sized : pushSize (UInt8.ofNat b.length) (b ++ rest) = some (b.length, b ++ rest) := by
    unfold pushSize
    rw [if_pos (by rw [UInt8.lt_iff_toNat_lt, code]; exact direct), code]
  exact @getOp_of_pushSize (UInt8.ofNat b.length) [] b rest isPush sized

/-- The pushes of `GetScriptForMultisig`, one after another. -/
theorem foldl_pushVector (keys : List CPubKey) (direct : ∀ key ∈ keys, key.vch.length < 76) :
    ∀ script : CScript, keys.foldl (fun script key => CScript.pushVector script key.vch) script =
      script ++ (keys.map (·.vch)).flatMap fun b => UInt8.ofNat b.length :: b := by
  induction keys with
  | nil => intro script; simp
  | cons key keys ih =>
      intro script
      rw [List.foldl_cons, pushVector_of_lt _ _ (direct key List.mem_cons_self),
        ih (fun other member => direct other (List.mem_cons_of_mem _ member)), List.map_cons, List.flatMap_cons,
        List.append_assoc]

/-! ## The comparison loop, one step at a time -/

section Compare

variable {op1 op2 : Op} {vSolutions : List valtype}

theorem compareOps_exact {opcode : UInt8} {vch : valtype} {after after' : CScript} (notPubKey : opcode ≠ OP_PUBKEY)
    (notHash : opcode ≠ OP_PUBKEYHASH) (notSmall : opcode ≠ OP_SMALLINTEGER) :
    compareOps ⟨opcode, vch, after⟩ ⟨opcode, vch, after'⟩ vSolutions = some vSolutions := by
  rw [compareOps, if_neg notPubKey, if_neg notHash, if_neg notSmall, if_neg (by simp)]

theorem compareOps_mismatch (notPubKey : op2.opcode ≠ OP_PUBKEY) (notHash : op2.opcode ≠ OP_PUBKEYHASH)
    (notSmall : op2.opcode ≠ OP_SMALLINTEGER) (differs : op1.opcode ≠ op2.opcode) :
    compareOps op1 op2 vSolutions = none := by
  rw [compareOps, if_neg notPubKey, if_neg notHash, if_neg notSmall, if_pos (.inl differs)]

theorem compareOps_pubKey_of_short (pubKey : op2.opcode = OP_PUBKEY) (short : op1.vchPushValue.length < 33) :
    compareOps op1 op2 vSolutions = none := by
  rw [compareOps, if_pos pubKey, if_pos (.inl short)]

theorem compareOps_pubKeyHash (hash : op2.opcode = OP_PUBKEYHASH) (sized : op1.vchPushValue.length = 20) :
    compareOps op1 op2 vSolutions = some (vSolutions ++ [op1.vchPushValue]) := by
  rw [compareOps, if_neg (by rw [hash]; decide), if_pos hash, if_neg (by rw [sized]; decide)]

theorem compareOps_smallInteger (small : op2.opcode = OP_SMALLINTEGER)
    (number : OP_1 ≤ op1.opcode ∧ op1.opcode ≤ OP_16) :
    compareOps op1 op2 vSolutions = some (vSolutions ++ [[UInt8.ofNat (decodeOP_N op1.opcode)]]) := by
  rw [compareOps, if_neg (by rw [small]; decide), if_neg (by rw [small]; decide), if_pos small,
    if_pos (.inr number)]

end Compare

section Match

variable {pc1 pc2 : CScript} {op1 op2 : Op} (vSolutions : List valtype)

/-- One round of the loop at a template opcode other than `OP_PUBKEYS`. -/
theorem matchTemplate_step (read1 : getOp pc1 = some op1) (read2 : getOp pc2 = some op2)
    (plain : op2.opcode ≠ OP_PUBKEYS) :
    matchTemplate pc1 pc2 vSolutions =
      (compareOps op1 op2 vSolutions).bind fun vSolutions => matchTemplate op1.after op2.after vSolutions := by
  have started : pc1 ≠ [] := fun ended => by rw [ended] at read1; cases read1
  rw [matchTemplate, if_neg fun ended => started ended.1]
  simp only [read1]
  split
  · rename_i failed
    rw [read2] at failed
    cases failed
  · rename_i op read
    rw [read2] at read
    cases read
    rw [if_neg plain]
    cases compareOps op1 op2 vSolutions <;> rfl

/-- One round of the loop at `OP_PUBKEYS`: the greedy loop, then the next opcode of the template. -/
theorem matchTemplate_pubKeys {op2' : Op} (read1 : getOp pc1 = some op1) (read2 : getOp pc2 = some op2)
    (keys : op2.opcode = OP_PUBKEYS) (read2' : getOp op2.after = some op2') :
    matchTemplate pc1 pc2 vSolutions =
      (compareOps (takePubKeys op1).2 op2' (vSolutions ++ (takePubKeys op1).1)).bind
        fun vSolutions => matchTemplate (takePubKeys op1).2.after op2'.after vSolutions := by
  have started : pc1 ≠ [] := fun ended => by rw [ended] at read1; cases read1
  rw [matchTemplate, if_neg fun ended => started ended.1]
  simp only [read1]
  split
  · rename_i failed
    rw [read2] at failed
    cases failed
  · rename_i op read
    rw [read2] at read
    cases read
    rw [if_pos keys]
    split
    · rename_i failed
      rw [read2'] at failed
      cases failed
    · rename_i op' read
      rw [read2'] at read
      cases read
      cases compareOps (takePubKeys op1).2 op2' (vSolutions ++ (takePubKeys op1).1) <;> rfl

theorem matchTemplate_nil : matchTemplate [] [] vSolutions = some vSolutions := by
  rw [matchTemplate, if_pos ⟨rfl, rfl⟩]

/-- An opcode of the template that is no wildcard matches itself. -/
theorem matchTemplate_exact {opcode : UInt8} (notPush : ¬opcode ≤ OP_PUSHDATA4)
    (plain : opcode ∉ [OP_PUBKEYS, OP_PUBKEY, OP_PUBKEYHASH, OP_SMALLINTEGER]) :
    matchTemplate (opcode :: pc1) (opcode :: pc2) vSolutions = matchTemplate pc1 pc2 vSolutions := by
  simp only [List.mem_cons, List.not_mem_nil, or_false, not_or] at plain
  rw [matchTemplate_step vSolutions (getOp_of_not_push pc1 notPush) (getOp_of_not_push pc2 notPush) plain.1,
    compareOps_exact plain.2.1 plain.2.2.1 plain.2.2.2]
  rfl

/-- ... and breaks the loop at any other opcode. -/
theorem matchTemplate_mismatch {opcode opcode' : UInt8} (notPush : ¬opcode ≤ OP_PUSHDATA4)
    (notPush' : ¬opcode' ≤ OP_PUSHDATA4) (plain : opcode' ∉ [OP_PUBKEYS, OP_PUBKEY, OP_PUBKEYHASH, OP_SMALLINTEGER])
    (differs : opcode ≠ opcode') : matchTemplate (opcode :: pc1) (opcode' :: pc2) vSolutions = none := by
  simp only [List.mem_cons, List.not_mem_nil, or_false, not_or] at plain
  rw [matchTemplate_step vSolutions (getOp_of_not_push pc1 notPush) (getOp_of_not_push pc2 notPush') plain.1,
    compareOps_mismatch plain.2.1 plain.2.2.1 plain.2.2.2 differs]
  rfl

/-- `OP_PUBKEY` breaks the loop at an opcode that pushes nothing. -/
theorem matchTemplate_pubKey_of_not_push {opcode : UInt8} (notPush : ¬opcode ≤ OP_PUSHDATA4) :
    matchTemplate (opcode :: pc1) (OP_PUBKEY :: pc2) vSolutions = none := by
  rw [matchTemplate_step vSolutions (getOp_of_not_push pc1 notPush) (@getOp_of_not_push OP_PUBKEY pc2 (by decide))
    (show OP_PUBKEY ≠ OP_PUBKEYS by decide), compareOps_pubKey_of_short rfl (show ([] : valtype).length < 33 by decide)]
  rfl

/-- `OP_PUBKEYHASH` takes a push of twenty bytes. -/
theorem matchTemplate_pubKeyHash {b : valtype} (sized : b.length = 20) :
    matchTemplate (UInt8.ofNat b.length :: (b ++ pc1)) (OP_PUBKEYHASH :: pc2) vSolutions =
      matchTemplate pc1 pc2 (vSolutions ++ [b]) := by
  rw [matchTemplate_step vSolutions (getOp_push (by omega) pc1) (@getOp_of_not_push OP_PUBKEYHASH pc2 (by decide))
    (show OP_PUBKEYHASH ≠ OP_PUBKEYS by decide), compareOps_pubKeyHash rfl sized]
  rfl

theorem not_push_of_number {opcode : UInt8} (number : OP_1 ≤ opcode ∧ opcode ≤ OP_16) :
    ¬opcode ≤ OP_PUSHDATA4 := fun isPush => by
  have low := UInt8.le_iff_toNat_le.1 number.1
  have high := UInt8.le_iff_toNat_le.1 isPush
  have one : OP_1.toNat = 81 := rfl
  have four : OP_PUSHDATA4.toNat = 78 := rfl
  omega

/-- `OP_SMALLINTEGER` takes the number of `OP_1` to `OP_16`. -/
theorem matchTemplate_smallInteger {opcode : UInt8} (number : OP_1 ≤ opcode ∧ opcode ≤ OP_16) :
    matchTemplate (opcode :: pc1) (OP_SMALLINTEGER :: pc2) vSolutions =
      matchTemplate pc1 pc2 (vSolutions ++ [[UInt8.ofNat (decodeOP_N opcode)]]) := by
  rw [matchTemplate_step vSolutions (getOp_of_not_push pc1 (not_push_of_number number))
    (@getOp_of_not_push OP_SMALLINTEGER pc2 (by decide)) (show OP_SMALLINTEGER ≠ OP_PUBKEYS by decide),
    compareOps_smallInteger rfl number]
  rfl

end Match

/-! ## The greedy loop over the keys -/

theorem takePubKeys_of_key (op1 : Op) {next : Op}
    (sized : op1.vchPushValue.length ≥ 33 ∧ op1.vchPushValue.length ≤ 65) (read : getOp op1.after = some next) :
    takePubKeys op1 = (op1.vchPushValue :: (takePubKeys next).1, (takePubKeys next).2) := by
  rw [takePubKeys, if_pos sized]
  split
  · rename_i failed
    rw [read] at failed
    cases failed
  · rename_i op found
    rw [read] at found
    cases found
    rfl

theorem takePubKeys_of_not_key {op1 : Op}
    (notKey : ¬(op1.vchPushValue.length ≥ 33 ∧ op1.vchPushValue.length ≤ 65)) : takePubKeys op1 = ([], op1) := by
  rw [takePubKeys, if_neg notKey]

/-- The greedy loop takes the pushes of the keys, and stops at the operation after them. -/
theorem takePubKeys_pushes {rest : CScript} {op : Op} (read : getOp rest = some op)
    (notKey : ¬(op.vchPushValue.length ≥ 33 ∧ op.vchPushValue.length ≤ 65)) (key : valtype) (keys : List valtype)
    (sized : ∀ k ∈ key :: keys, k.length ≥ 33 ∧ k.length ≤ 65) :
    takePubKeys ⟨UInt8.ofNat key.length, key, (keys.flatMap fun k => UInt8.ofNat k.length :: k) ++ rest⟩ =
      (key :: keys, op) := by
  induction keys generalizing key with
  | nil =>
      rw [List.flatMap_nil, List.nil_append, takePubKeys_of_key _ (sized key List.mem_cons_self) read,
        takePubKeys_of_not_key notKey]
  | cons k keys ih =>
      have short := sized k (List.mem_cons_of_mem _ List.mem_cons_self)
      have next : getOp (((k :: keys).flatMap fun k => UInt8.ofNat k.length :: k) ++ rest) =
          some ⟨UInt8.ofNat k.length, k, (keys.flatMap fun k => UInt8.ofNat k.length :: k) ++ rest⟩ := by
        simp only [List.flatMap_cons, List.cons_append, List.append_assoc]
        exact getOp_push (by omega) _
      rw [takePubKeys_of_key _ (sized key List.mem_cons_self) next,
        ih k fun other member => sized other (List.mem_cons_of_mem _ member)]

/-- `OP_PUBKEYS OP_SMALLINTEGER` takes the pushes of the keys and the number after them. -/
theorem matchTemplate_pubKeys_pushes {pc1 pc2 : CScript} {vSolutions : List valtype} {opcode : UInt8}
    (number : OP_1 ≤ opcode ∧ opcode ≤ OP_16) (key : valtype) (keys : List valtype)
    (sized : ∀ k ∈ key :: keys, k.length ≥ 33 ∧ k.length ≤ 65) :
    matchTemplate (((key :: keys).flatMap fun k => UInt8.ofNat k.length :: k) ++ opcode :: pc1)
        (OP_PUBKEYS :: OP_SMALLINTEGER :: pc2) vSolutions =
      matchTemplate pc1 pc2 (vSolutions ++ (key :: keys) ++ [[UInt8.ofNat (decodeOP_N opcode)]]) := by
  have short := sized key List.mem_cons_self
  have first : getOp (((key :: keys).flatMap fun k => UInt8.ofNat k.length :: k) ++ opcode :: pc1) =
      some ⟨UInt8.ofNat key.length, key, (keys.flatMap fun k => UInt8.ofNat k.length :: k) ++ opcode :: pc1⟩ := by
    simp only [List.flatMap_cons, List.cons_append, List.append_assoc]
    exact getOp_push (by omega) _
  have taken := takePubKeys_pushes (getOp_of_not_push pc1 (not_push_of_number number)) (by simp) key keys sized
  rw [matchTemplate_pubKeys vSolutions first (@getOp_of_not_push OP_PUBKEYS (OP_SMALLINTEGER :: pc2) (by decide)) rfl
    (@getOp_of_not_push OP_SMALLINTEGER pc2 (by decide)), taken, compareOps_smallInteger rfl number]
  rfl

/-! ## The builders' scripts -/

/--
A script that starts with neither `OP_HASH160` nor `OP_RETURN`, and whose
second byte is not the length of the rest, takes none of the fast paths.
-/
theorem solver_of_templates (typeRet : txnouttype) {opcode second : UInt8} {rest : CScript}
    (notHash : opcode ≠ OP_HASH160) (notReturn : opcode ≠ OP_RETURN) (notProgram : second.toNat ≠ rest.length) :
    solver typeRet (opcode :: second :: rest) = scanTemplates (opcode :: second :: rest) mTemplates := by
  have notP2SH : CScript.isPayToScriptHash (opcode :: second :: rest) = false := by
    rw [CScript.isPayToScriptHash, List.getD_cons_zero, beq_false_of_ne notHash, Bool.and_false, Bool.false_and,
      Bool.false_and]
  have noProgram : CScript.isWitnessProgram (opcode :: second :: rest) = none := by
    have secondByte : (opcode :: second :: rest).getD 1 0 = second := rfl
    have mismatch : ¬((opcode :: second :: rest).getD 1 0).toNat + 2 = (opcode :: second :: rest).length := by
      rw [secondByte, List.length_cons, List.length_cons]
      omega
    unfold CScript.isWitnessProgram
    rw [if_neg mismatch]
    split_ifs <;> rfl
  rw [solver, if_neg (by rw [notP2SH]; decide), noProgram]
  dsimp only
  rw [if_neg fun nullData => notReturn nullData.2.1]

theorem getScriptForDestination_keyID (keyID : CKeyID) :
    getScriptForDestination (.keyID keyID) =
      OP_DUP :: OP_HASH160 :: UInt8.ofNat keyID.id.data.length :: (keyID.id.data ++ [OP_EQUALVERIFY, OP_CHECKSIG]) := by
  rw [getScriptForDestination, pushVector_of_lt _ _ (by rw [keyID.id.size_eq]; decide)]
  simp

theorem getScriptForDestination_scriptID (scriptID : CScriptID) :
    getScriptForDestination (.scriptID scriptID) =
      OP_HASH160 :: UInt8.ofNat scriptID.id.data.length :: (scriptID.id.data ++ [OP_EQUAL]) := by
  rw [getScriptForDestination, pushVector_of_lt _ _ (by rw [scriptID.id.size_eq]; decide)]
  simp

/-- `Solver` reads a pay-to-pubkey-hash script through its template, with the key hash. -/
theorem solver_keyID (typeRet : txnouttype) (keyID : CKeyID) :
    solver typeRet (getScriptForDestination (.keyID keyID)) = (true, .TX_PUBKEYHASH, [keyID.id.data]) := by
  have sized := keyID.id.size_eq
  have notProgram : OP_HASH160.toNat ≠
      (UInt8.ofNat keyID.id.data.length :: (keyID.id.data ++ [OP_EQUALVERIFY, OP_CHECKSIG])).length := by
    simp only [List.length_cons, List.length_append, sized]
    decide
  rw [getScriptForDestination_keyID,
    solver_of_templates typeRet (show OP_DUP ≠ OP_HASH160 by decide) (show OP_DUP ≠ OP_RETURN by decide) notProgram,
    mTemplates, scanTemplates, matchTemplate_pubKey_of_not_push [] (show ¬OP_DUP ≤ OP_PUSHDATA4 by decide),
    scanTemplates, matchTemplate_exact [] (show ¬OP_DUP ≤ OP_PUSHDATA4 by decide) (by decide),
    matchTemplate_exact [] (show ¬OP_HASH160 ≤ OP_PUSHDATA4 by decide) (by decide), matchTemplate_pubKeyHash [] sized,
    matchTemplate_exact _ (show ¬OP_EQUALVERIFY ≤ OP_PUSHDATA4 by decide) (by decide),
    matchTemplate_exact _ (show ¬OP_CHECKSIG ≤ OP_PUSHDATA4 by decide) (by decide), matchTemplate_nil]
  rfl

/-- `Solver` takes a pay-to-script-hash script by its fast path, with the script hash. -/
theorem solver_scriptID (typeRet : txnouttype) (scriptID : CScriptID) :
    solver typeRet (getScriptForDestination (.scriptID scriptID)) = (true, .TX_SCRIPTHASH, [scriptID.id.data]) := by
  have sized := scriptID.id.size_eq
  have length : (OP_HASH160 :: UInt8.ofNat scriptID.id.data.length :: (scriptID.id.data ++ [OP_EQUAL])).length =
      23 := by
    simp [sized]
  have second : (OP_HASH160 :: UInt8.ofNat scriptID.id.data.length :: (scriptID.id.data ++ [OP_EQUAL])).getD 1 0 =
      0x14 := by
    change UInt8.ofNat scriptID.id.data.length = 0x14
    rw [sized]
    rfl
  have last : (OP_HASH160 :: UInt8.ofNat scriptID.id.data.length :: (scriptID.id.data ++ [OP_EQUAL])).getD 22 0 =
      OP_EQUAL := by
    change (scriptID.id.data ++ [OP_EQUAL]).getD 20 0 = OP_EQUAL
    rw [List.getD_append_right _ _ _ _ (by omega), sized]
    rfl
  have p2sh : CScript.isPayToScriptHash
      (OP_HASH160 :: UInt8.ofNat scriptID.id.data.length :: (scriptID.id.data ++ [OP_EQUAL])) = true := by
    rw [CScript.isPayToScriptHash, length, second, last]
    rfl
  rw [getScriptForDestination_scriptID, solver, if_pos p2sh, List.drop_succ_cons, List.drop_succ_cons,
    List.drop_zero, List.take_left' sized]

theorem uint160.ofVector_data (id : uint160) : uint160.ofVector id.data = .ok id := by
  rw [uint160.ofVector, dif_pos id.size_eq]
  rfl

/-- `ExtractDestination` gives back the key hash of a pay-to-pubkey-hash script. -/
theorem extractDestination_keyID (isValid : valtype → Bool) (getID : valtype → CKeyID) (keyID : CKeyID) :
    extractDestination isValid getID (getScriptForDestination (.keyID keyID)) = .ok (some (.keyID keyID)) := by
  rw [extractDestination, solver_keyID]
  dsimp only
  rw [if_neg (by decide), List.getD_cons_zero, uint160.ofVector_data]
  rfl

/-- `ExtractDestination` gives back the script hash of a pay-to-script-hash script. -/
theorem extractDestination_scriptID (isValid : valtype → Bool) (getID : valtype → CKeyID) (scriptID : CScriptID) :
    extractDestination isValid getID (getScriptForDestination (.scriptID scriptID)) =
      .ok (some (.scriptID scriptID)) := by
  rw [extractDestination, solver_scriptID]
  dsimp only
  rw [if_neg (by decide), List.getD_cons_zero, uint160.ofVector_data]
  rfl

/-! ## Bare multisig -/

section Numbers

variable {n : Nat} (positive : 1 ≤ n) (small : n ≤ 16)
include positive small

theorem toNat_ofNat_number : (UInt8.ofNat (80 + n)).toNat = 80 + n :=
  UInt8.toNat_ofNat_of_lt' (show 80 + n < 256 by omega)

/-- `EncodeOP_N` of `1` to `16`. -/
theorem encodeOP_N_of_pos : encodeOP_N n = .ok (UInt8.ofNat (80 + n)) := by
  have one : OP_1.toNat = 81 := rfl
  rw [encodeOP_N, if_pos ⟨by omega, by omega⟩, if_neg (by omega), one, Int.toNat_natCast,
    show 81 + n - 1 = 80 + n by omega]
  rfl

theorem number_ofNat : OP_1 ≤ UInt8.ofNat (80 + n) ∧ UInt8.ofNat (80 + n) ≤ OP_16 := by
  rw [UInt8.le_iff_toNat_le, UInt8.le_iff_toNat_le, toNat_ofNat_number positive small]
  exact ⟨by change 81 ≤ _; omega, by change _ ≤ 96; omega⟩

theorem decodeOP_N_ofNat : decodeOP_N (UInt8.ofNat (80 + n)) = n := by
  have code := toNat_ofNat_number positive small
  have notZero : UInt8.ofNat (80 + n) ≠ OP_0 := fun zero => by
    rw [zero] at code
    change 0 = 80 + n at code
    omega
  rw [decodeOP_N, if_neg notZero, code]
  change 80 + n - (81 - 1) = n
  omega

end Numbers

/-- The script of `GetScriptForMultisig`: `OP_m`, the pushes of the keys, `OP_n OP_CHECKMULTISIG`. -/
theorem getScriptForMultisig_eq {m : Nat} {keys : List CPubKey} (positive : 1 ≤ m) (required : m ≤ keys.length)
    (few : keys.length ≤ 16) (direct : ∀ key ∈ keys, key.vch.length < 76) :
    getScriptForMultisig m keys = .ok (UInt8.ofNat (80 + m) ::
      ((keys.map (·.vch)).flatMap (fun b => UInt8.ofNat b.length :: b) ++
        [UInt8.ofNat (80 + keys.length), OP_CHECKMULTISIG])) := by
  rw [getScriptForMultisig, encodeOP_N_of_pos positive (by omega), ExceptSpec.ok_bind, foldl_pushVector keys direct,
    encodeOP_N_of_pos (by omega) few, ExceptSpec.ok_bind]
  rfl

/--
`Solver` reads a bare multisig script through its template: the pay-to-pubkey
template breaks at `OP_m`, the pay-to-pubkey-hash one at `OP_DUP`, and the
multisig one takes the number, the keys and the count.
-/
theorem solver_multisig (typeRet : txnouttype) {m : Nat} {key : CPubKey} {keys : List CPubKey} (positive : 1 ≤ m)
    (required : m ≤ keys.length + 1) (few : keys.length + 1 ≤ 16)
    (sized : ∀ k ∈ key :: keys, k.vch.length ≥ 33 ∧ k.vch.length ≤ 65) :
    solver typeRet (UInt8.ofNat (80 + m) :: (((key :: keys).map (·.vch)).flatMap (fun b => UInt8.ofNat b.length :: b) ++
        [UInt8.ofNat (80 + (keys.length + 1)), OP_CHECKMULTISIG])) =
      (true, .TX_MULTISIG, [[UInt8.ofNat m]] ++ (key :: keys).map (·.vch) ++ [[UInt8.ofNat (keys.length + 1)]]) := by
  have sizedBytes : ∀ b ∈ key.vch :: keys.map (·.vch), b.length ≥ 33 ∧ b.length ≤ 65 := by
    intro b member
    rw [← List.map_cons, List.mem_map] at member
    obtain ⟨k, inKeys, rfl⟩ := member
    exact sized k inKeys
  have short := sized key List.mem_cons_self
  have number := number_ofNat positive (by omega)
  have count := number_ofNat (n := keys.length + 1) (by omega) few
  have split : (key.vch :: keys.map (·.vch)).flatMap (fun b => UInt8.ofNat b.length :: b) ++
        [UInt8.ofNat (80 + (keys.length + 1)), OP_CHECKMULTISIG] =
      UInt8.ofNat key.vch.length :: (key.vch ++ ((keys.map (·.vch)).flatMap (fun b => UInt8.ofNat b.length :: b) ++
        [UInt8.ofNat (80 + (keys.length + 1)), OP_CHECKMULTISIG])) := by
    simp
  have notProgram : (UInt8.ofNat key.vch.length).toNat ≠ (key.vch ++ ((keys.map (·.vch)).flatMap
      (fun b => UInt8.ofNat b.length :: b) ++ [UInt8.ofNat (80 + (keys.length + 1)), OP_CHECKMULTISIG])).length := by
    rw [toNat_ofNat_length (by omega), List.length_append, List.length_append]
    simp
  have code := toNat_ofNat_number positive (by omega)
  have notHash : UInt8.ofNat (80 + m) ≠ OP_HASH160 := fun same => by
    rw [same] at code
    change 169 = 80 + m at code
    omega
  have notReturn : UInt8.ofNat (80 + m) ≠ OP_RETURN := fun same => by
    rw [same] at code
    change 106 = 80 + m at code
    omega
  have notDup : UInt8.ofNat (80 + m) ≠ OP_DUP := fun same => by
    rw [same] at code
    change 118 = 80 + m at code
    omega
  rw [List.map_cons, split, solver_of_templates typeRet notHash notReturn notProgram, mTemplates, scanTemplates,
    matchTemplate_pubKey_of_not_push [] (not_push_of_number number), scanTemplates,
    matchTemplate_mismatch [] (not_push_of_number number) (by decide) (by decide) notDup, scanTemplates,
    matchTemplate_smallInteger [] number, ← split, List.nil_append,
    matchTemplate_pubKeys_pushes count _ _ sizedBytes,
    matchTemplate_exact _ (show ¬OP_CHECKMULTISIG ≤ OP_PUSHDATA4 by decide) (by decide), matchTemplate_nil,
    decodeOP_N_ofNat positive (by omega), decodeOP_N_ofNat (by omega) few]
  dsimp only
  have mCode : (UInt8.ofNat m).toNat = m := UInt8.toNat_ofNat_of_lt' (show m < 256 by omega)
  have nCode : (UInt8.ofNat (keys.length + 1)).toNat = keys.length + 1 :=
    UInt8.toNat_ofNat_of_lt' (show keys.length + 1 < 256 by omega)
  have first : (([[UInt8.ofNat m]] ++ key.vch :: keys.map (·.vch) ++ [[UInt8.ofNat (keys.length + 1)]]).headD
      []).headD 0 = UInt8.ofNat m := rfl
  have last : (([[UInt8.ofNat m]] ++ key.vch :: keys.map (·.vch) ++ [[UInt8.ofNat (keys.length + 1)]]).getLastD
      []).headD 0 = UInt8.ofNat (keys.length + 1) := by
    rw [List.getLastD_eq_getLast?, List.getLast?_append, List.getLast?_singleton]
    rfl
  have length : ([[UInt8.ofNat m]] ++ key.vch :: keys.map (·.vch) ++ [[UInt8.ofNat (keys.length + 1)]]).length - 2 =
      keys.length + 1 := by
    simp
  have checks : ¬(UInt8.ofNat m < 1 ∨ UInt8.ofNat (keys.length + 1) < 1 ∨
      UInt8.ofNat m > UInt8.ofNat (keys.length + 1) ∨ keys.length + 1 ≠ (UInt8.ofNat (keys.length + 1)).toNat) := by
    rw [UInt8.lt_iff_toNat_lt, UInt8.lt_iff_toNat_lt, gt_iff_lt, UInt8.lt_iff_toNat_lt, mCode, nCode]
    change ¬(m < 1 ∨ keys.length + 1 < 1 ∨ keys.length + 1 < m ∨ keys.length + 1 ≠ keys.length + 1)
    omega
  rw [if_pos rfl, first, last, length, if_neg checks]

/--
`Solver` recognises exactly what the builders build: the key hash of
`GetScriptForDestination(CKeyID)`, the script hash of
`GetScriptForDestination(CScriptID)`, both read back by `ExtractDestination`,
and for `1 <= m <= n <= 16` keys of 33 or 65 bytes the number, the keys and
the count of `GetScriptForMultisig(m, keys)`.
-/
theorem solver_getScriptFor :
    (∀ (keyID : CKeyID) (typeRet : txnouttype) (isValid : valtype → Bool) (getID : valtype → CKeyID),
      solver typeRet (getScriptForDestination (.keyID keyID)) = (true, .TX_PUBKEYHASH, [keyID.id.data]) ∧
        extractDestination isValid getID (getScriptForDestination (.keyID keyID)) = .ok (some (.keyID keyID))) ∧
    (∀ (scriptID : CScriptID) (typeRet : txnouttype) (isValid : valtype → Bool) (getID : valtype → CKeyID),
      solver typeRet (getScriptForDestination (.scriptID scriptID)) = (true, .TX_SCRIPTHASH, [scriptID.id.data]) ∧
        extractDestination isValid getID (getScriptForDestination (.scriptID scriptID)) =
          .ok (some (.scriptID scriptID))) ∧
    ∀ (m : Nat) (keys : List CPubKey), 1 ≤ m → m ≤ keys.length → keys.length ≤ 16 →
      (∀ key ∈ keys, key.vch.length = 33 ∨ key.vch.length = 65) →
      ∃ script, getScriptForMultisig m keys = .ok script ∧ ∀ typeRet : txnouttype,
        solver typeRet script = (true, .TX_MULTISIG, [[UInt8.ofNat m]] ++ keys.map (·.vch) ++ [[UInt8.ofNat keys.length]]) := by
  refine ⟨fun keyID typeRet isValid getID => ⟨solver_keyID typeRet keyID, extractDestination_keyID isValid getID keyID⟩,
    fun scriptID typeRet isValid getID =>
      ⟨solver_scriptID typeRet scriptID, extractDestination_scriptID isValid getID scriptID⟩, ?_⟩
  intro m keys positive required few lengths
  have sized (key : CPubKey) (member : key ∈ keys) : key.vch.length ≥ 33 ∧ key.vch.length ≤ 65 := by
    rcases lengths key member with length | length <;> omega
  cases keys with
  | nil =>
      rw [List.length_nil] at required
      omega
  | cons key keys =>
      refine ⟨_, getScriptForMultisig_eq positive required few fun k member => by have := sized k member; omega,
        fun typeRet => ?_⟩
      rw [List.length_cons] at required few ⊢
      exact solver_multisig typeRet positive required few sized

theorem solver_getScriptFor_oneOfOne :
    ∃ script, getScriptForMultisig 1 [⟨List.replicate 33 2⟩] = .ok script ∧ ∀ typeRet : txnouttype,
      solver typeRet script = (true, .TX_MULTISIG, [[UInt8.ofNat 1]] ++ [List.replicate 33 2] ++ [[UInt8.ofNat 1]]) :=
  solver_getScriptFor.2.2 1 [⟨List.replicate 33 2⟩] (by decide) (by decide) (by decide)
    (fun key member => by rw [List.mem_singleton] at member; rw [member]; decide)

end Dogecoin.Script
