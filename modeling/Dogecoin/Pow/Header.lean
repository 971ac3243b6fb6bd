import Dogecoin.Serialize.Transaction

/-!
# Block headers and their auxpow

`CPureBlockHeader` (primitives/pureheader.h) is the header that the proof of
work hashes; its version also carries the auxpow flag and the chain ID.
`CBlockHeader` (primitives/block.h) adds an optional `CAuxPow` (auxpow.h):
the coinbase of a block of another chain as a `CMerkleTx` (merkletx.h), the
branch that links that coinbase to the parent block's merkle root, the branch
that links this block into the coinbase's chain merkle tree, and the parent
block's header.

This module models the three types, the helpers that read the version, and
`CBlockHeader::SerializationOp`, where the auxpow follows the pure header
exactly when the version has the auxpow bit.  `reads_blockHeader` reads a
header back from its bytes; a peer's `headers` message is read so.
-/

namespace Dogecoin.Pow

open Dogecoin.Primitives Dogecoin.Serialize StreamDecode

/-- `CPureBlockHeader`. -/
structure CPureBlockHeader where
  nVersion : Int32
  hashPrevBlock : UInt256
  hashMerkleRoot : UInt256
  nTime : UInt32
  nBits : UInt32
  nNonce : UInt32
deriving DecidableEq, Repr

/-- `CPureBlockHeader::VERSION_AUXPOW`. -/
def VERSION_AUXPOW : Int32 := (1 : Int32) <<< 8

/-- `CPureBlockHeader::GetChainId`: the bits of the version from bit 16 up. -/
def CPureBlockHeader.getChainId (header : CPureBlockHeader) : Int32 :=
  header.nVersion >>> 16

/-- `CPureBlockHeader::IsAuxpowInVersion`. -/
def CPureBlockHeader.isAuxpowInVersion (header : CPureBlockHeader) : Bool :=
  header.nVersion &&& VERSION_AUXPOW != 0

/-- `CPureBlockHeader::IsLegacy`: version 1, or version 2 without a chain ID. -/
def CPureBlockHeader.isLegacy (header : CPureBlockHeader) : Bool :=
  header.nVersion == 1 || (header.nVersion == 2 && header.getChainId == 0)

example : CPureBlockHeader.getChainId ⟨0x00620104, 0, 0, 0, 0, 0⟩ = 0x62 := by decide

/-- `CAuxPow`, with the fields of the `CMerkleTx` it extends first. -/
structure CAuxPow where
  /-- The parent block's coinbase, `CMerkleTx::tx`. -/
  tx : CMutableTransaction
  hashBlock : UInt256
  /-- The branch from the coinbase to the parent block's merkle root. -/
  vMerkleBranch : List UInt256
  nIndex : Int32
  /-- The branch from this block to the chain merkle root in the coinbase. -/
  vChainMerkleBranch : List UInt256
  nChainIndex : Int32
  parentBlock : CPureBlockHeader
deriving DecidableEq, Repr

/-- `CBlockHeader`: a pure header and, for a merge-mined block, its auxpow. -/
structure CBlockHeader extends CPureBlockHeader where
  auxpow : Option CAuxPow
deriving DecidableEq, Repr

/-! ## Serialization -/

/-- `CPureBlockHeader::SerializationOp`. -/
def CPureBlockHeader.serialize (header : CPureBlockHeader) : List UInt8 :=
  writeInt32 header.nVersion ++ writeUInt256 header.hashPrevBlock ++
    writeUInt256 header.hashMerkleRoot ++ writeUInt32 header.nTime ++ writeUInt32 header.nBits ++
    writeUInt32 header.nNonce

def CPureBlockHeader.unserialize : Decoder UInt8 CPureBlockHeader := do
  let nVersion ← readInt32
  let hashPrevBlock ← readUInt256
  let hashMerkleRoot ← readUInt256
  let nTime ← readUInt32
  let nBits ← readUInt32
  let nNonce ← readUInt32
  pure ⟨nVersion, hashPrevBlock, hashMerkleRoot, nTime, nBits, nNonce⟩

/-- `CAuxPow::SerializationOp`, after `CMerkleTx::SerializationOp`, on a stream of version `nVersionStream`. -/
def CAuxPow.serialize (nVersionStream : Nat) (auxpow : CAuxPow) : List UInt8 :=
  serializeTransaction nVersionStream auxpow.tx ++ writeUInt256 auxpow.hashBlock ++
    writeVector writeUInt256 auxpow.vMerkleBranch ++ writeInt32 auxpow.nIndex ++
    writeVector writeUInt256 auxpow.vChainMerkleBranch ++ writeInt32 auxpow.nChainIndex ++
    auxpow.parentBlock.serialize

def CAuxPow.unserialize (nVersionStream : Nat) : Decoder UInt8 CAuxPow := do
  let tx ← unserializeTransaction nVersionStream
  let hashBlock ← readUInt256
  let vMerkleBranch ← readVector readUInt256
  let nIndex ← readInt32
  let vChainMerkleBranch ← readVector readUInt256
  let nChainIndex ← readInt32
  let parentBlock ← CPureBlockHeader.unserialize
  pure ⟨tx, hashBlock, vMerkleBranch, nIndex, vChainMerkleBranch, nChainIndex, parentBlock⟩

/--
`CBlockHeader::SerializationOp` when writing.  The source asserts an auxpow
where the version has the auxpow bit; the model writes none there.
-/
def CBlockHeader.serialize (nVersionStream : Nat) (block : CBlockHeader) : List UInt8 :=
  block.toCPureBlockHeader.serialize ++
    if block.isAuxpowInVersion then (block.auxpow.map (CAuxPow.serialize nVersionStream)).getD []
    else []

/-- `CBlockHeader::SerializationOp` when reading: an auxpow exactly where the version has the auxpow bit. -/
def CBlockHeader.unserialize (nVersionStream : Nat) : Decoder UInt8 CBlockHeader := do
  let header ← CPureBlockHeader.unserialize
  if header.isAuxpowInVersion then
    let auxpow ← CAuxPow.unserialize nVersionStream
    pure ⟨header, some auxpow⟩
  else pure ⟨header, none⟩

/-! ## Reading a header back -/

theorem reads_hashes {hashes : List UInt256} (bounded : hashes.length ≤ MAX_SIZE) :
    Reads (readVector readUInt256) (writeVector writeUInt256 hashes) hashes :=
  (reads_writeVector bounded fun hash _ => reads_uint256 hash).of_value (List.map_id' hashes)

theorem reads_pureHeader (header : CPureBlockHeader) :
    Reads CPureBlockHeader.unserialize header.serialize header := by
  unfold CPureBlockHeader.serialize CPureBlockHeader.unserialize
  refine Reads.of_eq ((reads_int32 _).bind ((reads_uint256 _).bind ((reads_uint256 _).bind
    ((reads_uint32 _).bind ((reads_uint32 _).bind ((reads_uint32 _).bind (reads_pure _))))))) ?_
  simp only [List.append_nil, List.append_assoc]

/--
An auxpow whose branches `ReadCompactSize` accepts is read back, with the
transaction that `UnserializeTransaction` reads from the coinbase's bytes.
-/
theorem reads_auxPow (nVersionStream : Nat) {auxpow : CAuxPow} {tx : CMutableTransaction}
    (coinbase : Reads (unserializeTransaction nVersionStream)
      (serializeTransaction nVersionStream auxpow.tx) tx)
    (branch : auxpow.vMerkleBranch.length ≤ MAX_SIZE)
    (chainBranch : auxpow.vChainMerkleBranch.length ≤ MAX_SIZE) :
    Reads (CAuxPow.unserialize nVersionStream) (auxpow.serialize nVersionStream)
      { auxpow with tx } := by
  unfold CAuxPow.serialize CAuxPow.unserialize
  refine Reads.of_eq (coinbase.bind ((reads_uint256 _).bind ((reads_hashes branch).bind
    ((reads_int32 _).bind ((reads_hashes chainBranch).bind ((reads_int32 _).bind
      ((reads_pureHeader _).bind (reads_pure _)))))))) ?_
  simp only [List.append_nil, List.append_assoc]

/--
A header whose auxpow is there exactly where its version has the auxpow
bit, and reads back, is read back from its bytes.
-/
theorem reads_blockHeader (nVersionStream : Nat) {block : CBlockHeader}
    (consistent : block.auxpow.isSome = block.isAuxpowInVersion)
    (auxpow : ∀ data ∈ block.auxpow,
      Reads (CAuxPow.unserialize nVersionStream) (data.serialize nVersionStream) data) :
    Reads (CBlockHeader.unserialize nVersionStream) (block.serialize nVersionStream) block := by
  unfold CBlockHeader.serialize CBlockHeader.unserialize
  apply (reads_pureHeader _).bind
  cases present : block.auxpow with
  | none =>
    rw [present, Option.isSome_none] at consistent
    rw [← consistent, if_neg Bool.false_ne_true, if_neg Bool.false_ne_true]
    rw [← present]
    exact reads_pure _
  | some data =>
    rw [present, Option.isSome_some] at consistent
    rw [← consistent, if_pos rfl, if_pos rfl, Option.map_some, Option.getD_some,
      ← List.append_nil (data.serialize nVersionStream)]
    refine (auxpow data (by rw [present]; rfl)).bind ?_
    rw [← present]
    exact reads_pure _

end Dogecoin.Pow
