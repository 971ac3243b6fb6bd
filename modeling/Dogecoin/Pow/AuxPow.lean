import Dogecoin.Pow.Header
import Dogecoin.Pow.Params
import Dogecoin.Arith.Compact
import Dogecoin.Lib.ExceptSpec

/-!
# Checking the proof of work of a header

`CheckDogecoinProofOfWork` (dogecoin.cpp) checks a header's chain ID and,
for a header without auxpow, its own proof of work (`CheckProofOfWork`,
pow.cpp).  For a merge-mined header it runs `CAuxPow::check` (auxpow.cpp),
which follows the two merkle branches (`CMerkleTx::CheckMerkleBranch`,
merkletx.cpp), finds the chain merkle root in the parent coinbase's script
and reads the tree size and nonce after it, and then the proof of work of
the parent header (`CheckAuxProofOfWork`).

The hash functions are parameters.  Two reads in `CAuxPow::check` are not
bounds-checked by the language: `tx->vin[0]` and the `memcpy`s from the
script.  Each is a `ReadFault` here.  `check_raises` says that only the
first can fault, and only when the checks before it pass and the coinbase
has no input; `emptyVinHeader_faults` is a header read from its
bytes on which the check of the main chain faults.
-/

namespace Dogecoin.Pow

open Dogecoin.Primitives Dogecoin.Arith LittleEndian ExceptSpec

/-- The reads of `CAuxPow::check` that the source does not guard. -/
inductive ReadFault
  /-- `tx->vin[0]` of a coinbase without inputs. -/
  | vinOutOfRange
  /-- A `memcpy` from past the end of the coinbase script. -/
  | scriptOutOfRange
deriving DecidableEq, Repr

/-- `pchMergedMiningHeader`: the bytes `fa be 'm' 'm'` before a chain merkle root. -/
def pchMergedMiningHeader : List UInt8 := [0xfa, 0xbe, 0x6d, 0x6d]

/-- `std::search`: where `needle` first starts in `hay`, and `hay.length` where it does not. -/
def search {α : Type} [BEq α] : List α → List α → Nat
  | [], _ => 0
  | hay@(_ :: rest), needle => if needle.isPrefixOf hay then 0 else search rest needle + 1

/-- `memcpy` of four bytes from `pos` of `script`, then `le32toh`. -/
def readLE32At (script : List UInt8) (pos : Nat) : Except ReadFault UInt32 :=
  if pos + 4 ≤ script.length then pure (UInt32.ofNat (leValue ((script.drop pos).take 4)))
  else throw .scriptOutOfRange

theorem readLE32At_raises {script : List UInt8} {pos : Nat} (inside : pos + 4 ≤ script.length) :
    Raises (fun _ => False) (readLE32At script pos) := by
  unfold readLE32At
  rw [if_pos inside]
  exact Raises.pure _

/--
`CAuxPow::getExpectedIndex`: the slot of the chain merkle tree that the
nonce and the chain ID choose, in `uint32_t` arithmetic.
-/
def getExpectedIndex (nNonce : UInt32) (nChainId : Int32) (h : Nat) : Int32 :=
  let rand := nNonce
  let rand := rand * 1103515245 + 12345
  let rand := rand + nChainId.toUInt32
  let rand := rand * 1103515245 + 12345
  (rand % ((1 : UInt32) <<< UInt32.ofNat h)).toInt32

/-! ## The coinbase script -/

/--
`CAuxPow::check` once `pc` is past the chain merkle root: the size of the
chain merkle tree and the nonce, in the eight bytes after it.
-/
def checkTreeSizeAndNonce (script : List UInt8) (pc merkleHeight : Nat)
    (nChainIndex nChainId : Int32) : Except ReadFault Bool :=
  -- "Aux PoW missing chain merkle tree size and nonce in parent coinbase"
  if (script.length : Int) - pc < 8 then pure false
  else do
    let nSize ← readLE32At script pc
    -- "Aux PoW merkle branch size does not match parent coinbase"
    if nSize ≠ (1 : UInt32) <<< UInt32.ofNat merkleHeight then pure false
    else do
      let nNonce ← readLE32At script (pc + 4)
      -- "Aux PoW wrong index"
      pure (nChainIndex == getExpectedIndex nNonce nChainId merkleHeight)

/-- `CAuxPow::check` on the coinbase script: where the chain merkle root stands in it. -/
def checkCoinbaseScript (script vchRootHash : List UInt8) (merkleHeight : Nat)
    (nChainIndex nChainId : Int32) : Except ReadFault Bool :=
  let pcHead := search script pchMergedMiningHeader
  let pc := search script vchRootHash
  -- "Aux PoW missing chain merkle root in parent coinbase"
  if pc = script.length then pure false
  else if pcHead ≠ script.length then
    -- "Multiple merged mining headers in coinbase"
    if search (script.drop (pcHead + 1)) pchMergedMiningHeader ≠ (script.drop (pcHead + 1)).length
    then pure false
    -- "Merged mining header is not just before chain merkle root"
    else if pcHead + pchMergedMiningHeader.length ≠ pc then pure false
    else checkTreeSizeAndNonce script (pc + vchRootHash.length) merkleHeight nChainIndex nChainId
  -- without the header, the chain merkle root must start in the first 20 bytes
  else if pc > 20 then pure false
  else checkTreeSizeAndNonce script (pc + vchRootHash.length) merkleHeight nChainIndex nChainId

/-- The guard before the `memcpy`s keeps both inside the script. -/
theorem checkTreeSizeAndNonce_raises (script : List UInt8) (pc merkleHeight : Nat)
    (nChainIndex nChainId : Int32) :
    Raises (fun _ => False) (checkTreeSizeAndNonce script pc merkleHeight nChainIndex nChainId) := by
  unfold checkTreeSizeAndNonce
  refine Raises.ite (fun _ => Raises.pure _) fun room => ?_
  have first : pc + 4 ≤ script.length := by omega
  have second : pc + 4 + 4 ≤ script.length := by omega
  refine (readLE32At_raises first).bind fun _ _ => ?_
  exact Raises.ite (fun _ => Raises.pure _) fun _ =>
    (readLE32At_raises second).bind fun _ _ => Raises.pure _

theorem checkCoinbaseScript_raises (script vchRootHash : List UInt8) (merkleHeight : Nat)
    (nChainIndex nChainId : Int32) :
    Raises (fun _ => False)
      (checkCoinbaseScript script vchRootHash merkleHeight nChainIndex nChainId) := by
  have tail := checkTreeSizeAndNonce_raises script (search script vchRootHash + vchRootHash.length)
    merkleHeight nChainIndex nChainId
  unfold checkCoinbaseScript
  refine Raises.ite (fun _ => Raises.pure _) fun _ => ?_
  refine Raises.ite (fun _ => ?_) fun _ => Raises.ite (fun _ => Raises.pure _) fun _ => tail
  exact Raises.ite (fun _ => Raises.pure _) fun _ => Raises.ite (fun _ => Raises.pure _) fun _ => tail

/-! ## The auxpow -/

section Hashes

-- `Hash(a, b)`: the double SHA-256 of two hashes, one after the other
variable (hashPair : UInt256 → UInt256 → UInt256)

/-- The loop of `CMerkleTx::CheckMerkleBranch`: one hash per branch entry, on the side the bit of `nIndex` says. -/
def merkleBranchWalk : UInt256 → List UInt256 → Int32 → UInt256
  | hash, [], _ => hash
  | hash, it :: rest, nIndex =>
      merkleBranchWalk (if nIndex &&& 1 ≠ 0 then hashPair it hash else hashPair hash it) rest
        (nIndex >>> 1)

/-- `CMerkleTx::CheckMerkleBranch`: the root that `vMerkleBranch` leads to from `hash` at `nIndex`. -/
def checkMerkleBranch (hash : UInt256) (vMerkleBranch : List UInt256) (nIndex : Int32) : UInt256 :=
  if nIndex = -1 then 0 else merkleBranchWalk hashPair hash vMerkleBranch nIndex

-- `CTransaction::GetTxHash`: the hash of a transaction without its witness
variable (txHash : CMutableTransaction → UInt256)

/--
`CAuxPow::check`: the auxpow commits to the block `hashAuxBlock` of the
chain `nChainId`.  Each failed check is the source's `return error(...)`.
-/
def CAuxPow.check (auxpow : CAuxPow) (hashAuxBlock : UInt256) (nChainId : Int32)
    (params : Params) : Except ReadFault Bool :=
  -- "AuxPow is not a generate"
  if auxpow.nIndex ≠ 0 then pure false
  -- "Aux PoW parent has our chain ID"
  else if params.fStrictChainId ∧ auxpow.parentBlock.getChainId = nChainId then pure false
  -- "Aux PoW chain merkle branch too long"
  else if auxpow.vChainMerkleBranch.length > 30 then pure false
  else
    -- the chain merkle root, its bytes most significant first as the coinbase holds them
    let nRootHash :=
      checkMerkleBranch hashPair hashAuxBlock auxpow.vChainMerkleBranch auxpow.nChainIndex
    let vchRootHash := (writeUInt256 nRootHash).reverse
    -- "Aux POW merkle root incorrect"
    if checkMerkleBranch hashPair (txHash auxpow.tx) auxpow.vMerkleBranch auxpow.nIndex ≠
        auxpow.parentBlock.hashMerkleRoot then pure false
    else
      match auxpow.tx.vin with
      | [] => throw .vinOutOfRange
      | txin :: _ =>
          checkCoinbaseScript txin.scriptSig vchRootHash auxpow.vChainMerkleBranch.length
            auxpow.nChainIndex nChainId

/-- The checks of `CAuxPow::check` before it reads `tx->vin[0]`. -/
def CAuxPow.PassesBranchChecks (auxpow : CAuxPow) (nChainId : Int32) (params : Params) : Prop :=
  auxpow.nIndex = 0 ∧ ¬(params.fStrictChainId ∧ auxpow.parentBlock.getChainId = nChainId) ∧
    auxpow.vChainMerkleBranch.length ≤ 30 ∧
    checkMerkleBranch hashPair (txHash auxpow.tx) auxpow.vMerkleBranch auxpow.nIndex =
      auxpow.parentBlock.hashMerkleRoot

instance (auxpow : CAuxPow) (nChainId : Int32) (params : Params) :
    Decidable (auxpow.PassesBranchChecks hashPair txHash nChainId params) :=
  inferInstanceAs (Decidable (_ ∧ _ ∧ _ ∧ _))

/-- `CAuxPow::check` faults only at `tx->vin[0]`, once the checks before it pass, on a coinbase without inputs. -/
theorem check_raises (auxpow : CAuxPow) (hashAuxBlock : UInt256) (nChainId : Int32)
    (params : Params) :
    Raises (fun fault => fault = .vinOutOfRange ∧
        auxpow.PassesBranchChecks hashPair txHash nChainId params ∧ auxpow.tx.vin = [])
      (auxpow.check hashPair txHash hashAuxBlock nChainId params) := by
  unfold CAuxPow.check
  refine Raises.ite (fun _ => Raises.pure _) fun generate => ?_
  refine Raises.ite (fun _ => Raises.pure _) fun notOurs => ?_
  refine Raises.ite (fun _ => Raises.pure _) fun short => ?_
  refine Raises.ite (fun _ => Raises.pure _) fun root => ?_
  have passes : auxpow.PassesBranchChecks hashPair txHash nChainId params :=
    ⟨not_not.1 generate, notOurs, Nat.le_of_not_gt short, not_not.1 root⟩
  split
  · rename_i empty
    exact Raises.throw ⟨rfl, passes, empty⟩
  · exact (checkCoinbaseScript_raises _ _ _ _ _).mono nofun

/-- Where the checks before `tx->vin[0]` pass on a coinbase without inputs, `CAuxPow::check` faults there. -/
theorem check_of_emptyVin {auxpow : CAuxPow} {nChainId : Int32} {params : Params}
    (passes : auxpow.PassesBranchChecks hashPair txHash nChainId params) (empty : auxpow.tx.vin = [])
    (hashAuxBlock : UInt256) :
    auxpow.check hashPair txHash hashAuxBlock nChainId params = .error .vinOutOfRange := by
  obtain ⟨generate, notOurs, short, root⟩ := passes
  unfold CAuxPow.check
  rw [if_neg (not_not.2 generate), if_neg notOurs, if_neg (Nat.not_lt.2 short),
    if_neg (not_not.2 root)]
  rw [empty]
  rfl

theorem check_eq_error_iff (auxpow : CAuxPow) (hashAuxBlock : UInt256) (nChainId : Int32)
    (params : Params) (fault : ReadFault) :
    auxpow.check hashPair txHash hashAuxBlock nChainId params = .error fault ↔
      fault = .vinOutOfRange ∧ auxpow.PassesBranchChecks hashPair txHash nChainId params ∧
        auxpow.tx.vin = [] := by
  constructor
  · exact check_raises hashPair txHash auxpow hashAuxBlock nChainId params fault
  · rintro ⟨rfl, passes, empty⟩
    exact check_of_emptyVin hashPair txHash passes empty hashAuxBlock

/-! ## The proof of work -/

-- `GetSha256Hash`, `GetScryptHash` and `GetLyra2Re2Hash` of a header
variable (sha256Hash scryptHash lyra2Re2Hash : CPureBlockHeader → UInt256)

/--
The range check of `CheckProofOfWork` and `CheckAuxProofOfWork`: `nBits`
encodes, without sign or overflow, a target that is neither zero nor above
the limit.
-/
def solutionInRange (nBits : UInt32) (params : Params) : Bool :=
  let solutionHash := setCompact nBits
  !(solutionHash.fNegative || solutionHash.value == 0 || solutionHash.fOverflow ||
    decide (solutionHash.value > params.powLimit.toNat))

/-- `CheckProofOfWork`: on the inu chain all three hashes meet the target, the SHA-256 one doubled. -/
def checkProofOfWork (nameOfChain : ChainName) (block : CPureBlockHeader) (nBits : UInt32)
    (params : Params) : Bool :=
  let solutionHash := (setCompact nBits).value
  if !solutionInRange nBits params then false
  else if nameOfChain = .inu then
    decide ((scryptHash block).toNat ≤ solutionHash) &&
      decide ((lyra2Re2Hash block).toNat ≤ solutionHash) &&
      decide ((sha256Hash block).toNat ≤ (solutionHash <<< 1) % 2 ^ 256)
  else decide ((scryptHash block).toNat ≤ solutionHash)

/-- `CheckAuxProofOfWork`: the parent header's scrypt hash meets the target; never on the inu chain. -/
def checkAuxProofOfWork (nameOfChain : ChainName) (auxpow : CAuxPow) (nBits : UInt32)
    (params : Params) : Bool :=
  if nameOfChain = .inu then false
  else if !solutionInRange nBits params then false
  else decide ((scryptHash auxpow.parentBlock).toNat ≤ (setCompact nBits).value)

/-- The chain ID check of `CheckDogecoinProofOfWork`, for every header but a legacy one. -/
def CBlockHeader.hasWrongChainId (block : CBlockHeader) (params : Params) : Bool :=
  !block.isLegacy && params.fStrictChainId && block.getChainId != params.nAuxpowChainId

/-- `CheckDogecoinProofOfWork`. -/
def checkDogecoinProofOfWork (nameOfChain : ChainName) (block : CBlockHeader) (params : Params) :
    Except ReadFault Bool :=
  -- "block does not have Dogecoin chain ID"
  if block.hasWrongChainId params then pure false
  -- "no auxpow on a block with auxpow in version"
  else if block.isAuxpowInVersion && block.auxpow.isNone then pure false
  -- "auxpow on a block with non-auxpow version"
  else if block.auxpow.isSome && !block.isAuxpowInVersion then pure false
  else
    match block.auxpow with
    | none => pure (checkProofOfWork sha256Hash scryptHash lyra2Re2Hash nameOfChain
        block.toCPureBlockHeader block.nBits params)
    | some auxpow => do
        -- "auxpow is not valid"
        let valid ← auxpow.check hashPair txHash (sha256Hash block.toCPureBlockHeader)
          block.getChainId params
        -- "aux proof of work failed"
        pure (valid && checkAuxProofOfWork scryptHash nameOfChain auxpow block.nBits params)

/-- `CheckDogecoinProofOfWork` faults exactly where the `CAuxPow::check` of a consistent header does. -/
theorem checkDogecoinProofOfWork_eq_error_iff (nameOfChain : ChainName) (block : CBlockHeader)
    (params : Params) (fault : ReadFault) :
    checkDogecoinProofOfWork hashPair txHash sha256Hash scryptHash lyra2Re2Hash nameOfChain block
        params = .error fault ↔
      block.hasWrongChainId params = false ∧ block.isAuxpowInVersion = true ∧
        ∃ auxpow, block.auxpow = some auxpow ∧
          auxpow.check hashPair txHash (sha256Hash block.toCPureBlockHeader) block.getChainId
            params = .error fault := by
  unfold checkDogecoinProofOfWork
  by_cases wrong : block.hasWrongChainId params = true
  · rw [if_pos wrong]
    simp [wrong]
  have right : block.hasWrongChainId params = false := Bool.eq_false_iff.2 wrong
  rw [if_neg wrong]
  cases present : block.auxpow with
  | none =>
    cases bit : block.isAuxpowInVersion <;> simp
  | some auxpow =>
    cases bit : block.isAuxpowInVersion
    · simp
    · simp only [Option.isNone_some, Option.isSome_some, Bool.and_false, Bool.not_true,
        Bool.false_eq_true, if_false, right, true_and, Option.some.injEq, exists_eq_left']
      rw [bind_eq_error]
      constructor
      · rintro (raised | ⟨valid, _, returned⟩)
        · exact raised
        · cases returned
      · exact Or.inl

/--
Checking the proof of work of a header faults exactly at `tx->vin[0]` of an
auxpow coinbase without inputs, once the checks before it pass; the reads
from the coinbase script never fault.
-/
theorem checkDogecoinProofOfWork_faults_iff :
    (∀ (auxpow : CAuxPow) (hashAuxBlock : UInt256) (nChainId : Int32) (params : Params)
        (fault : ReadFault),
      auxpow.check hashPair txHash hashAuxBlock nChainId params = .error fault ↔
        fault = .vinOutOfRange ∧ auxpow.PassesBranchChecks hashPair txHash nChainId params ∧
          auxpow.tx.vin = []) ∧
    ∀ (nameOfChain : ChainName) (block : CBlockHeader) (params : Params) (fault : ReadFault),
      checkDogecoinProofOfWork hashPair txHash sha256Hash scryptHash lyra2Re2Hash nameOfChain block
          params = .error fault ↔
        fault = .vinOutOfRange ∧ block.hasWrongChainId params = false ∧
          block.isAuxpowInVersion = true ∧
          ∃ auxpow, block.auxpow = some auxpow ∧
            auxpow.PassesBranchChecks hashPair txHash block.getChainId params ∧
            auxpow.tx.vin = [] := by
  refine ⟨check_eq_error_iff hashPair txHash, fun nameOfChain block params fault => ?_⟩
  rw [checkDogecoinProofOfWork_eq_error_iff]
  constructor
  · rintro ⟨chainId, bit, auxpow, present, raised⟩
    obtain ⟨rfl, passes, empty⟩ := (check_eq_error_iff hashPair txHash _ _ _ _ _).1 raised
    exact ⟨rfl, chainId, bit, auxpow, present, passes, empty⟩
  · rintro ⟨rfl, chainId, bit, auxpow, present, passes, empty⟩
    exact ⟨chainId, bit, auxpow, present, check_of_emptyVin hashPair txHash passes empty _⟩

/-! ## A header that a peer can send -/

/-- A coinbase without inputs or outputs: `UnserializeTransaction` reads it from nine bytes and four more. -/
def emptyCoinbase : CMutableTransaction := ⟨1, [], [], 0⟩

/--
A merge-mined header of the main chain whose auxpow has `emptyCoinbase`,
empty branches, and a parent block whose merkle root is the coinbase's hash.
-/
def emptyVinHeader : CBlockHeader :=
  { nVersion := 0x00620104, hashPrevBlock := 0, hashMerkleRoot := 0, nTime := 0,
    nBits := 0x1e0fffff, nNonce := 0,
    auxpow := some
      { tx := emptyCoinbase, hashBlock := 0, vMerkleBranch := [], nIndex := 0,
        vChainMerkleBranch := [], nChainIndex := 0,
        parentBlock := ⟨1, 0, txHash emptyCoinbase, 0, 0, 0⟩ } }

/--
On every stream, the bytes of `emptyVinHeader` are read back as it, and at
every height from 371337 the main chain checks it with parameters under
which `CheckDogecoinProofOfWork` reads `tx->vin[0]` of its coinbase, which
has no input.
-/
theorem emptyVinHeader_faults (nVersionStream : Nat) :
    (CBlockHeader.unserialize nVersionStream).run
        ((emptyVinHeader txHash).serialize nVersionStream) =
      some (emptyVinHeader txHash, []) ∧
    CMainParams.pConsensusRoot.getConsensus 371337 = some CMainParams.auxpowConsensus ∧
    checkDogecoinProofOfWork hashPair txHash sha256Hash scryptHash lyra2Re2Hash .main
        (emptyVinHeader txHash) CMainParams.auxpowConsensus = .error .vinOutOfRange := by
  have bit : (⟨0x00620104, 0, 0, 0, 0x1e0fffff, 0⟩ : CPureBlockHeader).isAuxpowInVersion = true := by
    decide
  have chainId : CBlockHeader.hasWrongChainId ⟨⟨0x00620104, 0, 0, 0, 0x1e0fffff, 0⟩, none⟩
      CMainParams.auxpowConsensus = false := by
    decide
  refine ⟨?_, by rw [getConsensus_main]; rfl, ?_⟩
  · have coinbase := reads_serializeTransaction_empty nVersionStream 1 0
    have auxpow := @reads_auxPow nVersionStream ((emptyVinHeader txHash).auxpow.get rfl) _
      coinbase (Nat.zero_le _) (Nat.zero_le _)
    have read := @reads_blockHeader nVersionStream (emptyVinHeader txHash) bit.symm
      (fun data member => by
        cases member
        exact auxpow) []
    rwa [List.append_nil] at read
  · have notOurs : ¬((1 : Int32) >>> 16 = (0x00620104 : Int32) >>> 16) := by decide
    have passes : ((emptyVinHeader txHash).auxpow.get rfl).PassesBranchChecks hashPair txHash
        (emptyVinHeader txHash).getChainId CMainParams.auxpowConsensus :=
      ⟨rfl, fun ⟨_, same⟩ => notOurs same, Nat.zero_le _, rfl⟩
    exact (checkDogecoinProofOfWork_eq_error_iff hashPair txHash sha256Hash scryptHash lyra2Re2Hash
      _ _ _ _).2 ⟨chainId, bit, _, rfl, check_of_emptyVin hashPair txHash passes rfl _⟩

end Hashes

/--
The same header on a stream that carries witnesses, with every hash the sum
of its parts or zero: the fault depends on none of them.
-/
theorem checkDogecoinProofOfWork_emptyVin :
    (CBlockHeader.unserialize 0).run ((emptyVinHeader fun _ => 0).serialize 0) =
      some (emptyVinHeader (fun _ => 0), []) ∧
    CMainParams.pConsensusRoot.getConsensus 371337 = some CMainParams.auxpowConsensus ∧
    checkDogecoinProofOfWork (fun a b => a + b) (fun _ => 0) (fun _ => 0) (fun _ => 0) (fun _ => 0)
        .main (emptyVinHeader fun _ => 0) CMainParams.auxpowConsensus = .error .vinOutOfRange :=
  emptyVinHeader_faults (fun a b => a + b) (fun _ => 0) (fun _ => 0) (fun _ => 0) (fun _ => 0) 0

end Dogecoin.Pow
