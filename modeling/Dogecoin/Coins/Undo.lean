import Dogecoin.Coins.Serialize
import Dogecoin.Serialize.CompactSize

/-!
# Undo data: `CTxInUndo`, `CTxUndo` and `CBlockUndo`

The undo data of a block (src/src/undo.h) records, for every input of every
transaction but the coinbase, the output it spent and, when that spend left
the record of the output's transaction pruned, the record's metadata: its
height, coinbase flag and version.  A height of zero marks an input whose
record kept other unspent outputs.

`CTxInUndo` is stored as the `VARINT` of `nHeight*2+fCoinBase`, computed in
`unsigned int`, then the version when the height is not zero, then the output
compressed.  The undo data of a transaction and of a block are vectors.  Undo
data with heights below `2^31` and unspent outputs of stored records are read
back, with the version that `ReadVarInt` makes of its bytes.
-/

namespace Dogecoin.Coins

open Dogecoin.Primitives Dogecoin.Serialize StreamDecode

/-- `CTxInUndo`: the spent output and, for the last unspent one, the metadata of its record. -/
structure CTxInUndo where
  txout : CTxOut
  fCoinBase : Bool
  nHeight : UInt32
  nVersion : Int
deriving DecidableEq, Repr

/-- `CTxUndo`: the undo data of every input of a transaction. -/
structure CTxUndo where
  vprevout : List CTxInUndo
deriving DecidableEq, Repr

/-- `CBlockUndo`: the undo data of every transaction of a block but the coinbase. -/
structure CBlockUndo where
  vtxundo : List CTxUndo
deriving DecidableEq, Repr

namespace CTxInUndo

/-- `CTxInUndo(txoutIn)`: the metadata take their defaults. -/
def ofTxOut (txout : CTxOut) : CTxInUndo :=
  ⟨txout, false, 0, 0⟩

/-- `nHeight*2+(fCoinBase ? 1 : 0)` in `unsigned int`. -/
def code (undo : CTxInUndo) : UInt32 :=
  undo.nHeight * 2 + if undo.fCoinBase then 1 else 0

/-- `CTxInUndo::Serialize`. -/
def serialize (keys : PubKeyCodec) (undo : CTxInUndo) : List UInt8 :=
  writeVarInt (undo.code.toNat : Int) ++
    (if undo.nHeight > 0 then writeVarInt undo.nVersion else []) ++
    CTxOutCompressor.serialize keys undo.txout

/-- `CTxInUndo::Unserialize` into a default-constructed `CTxInUndo`. -/
def unserialize (keys : PubKeyCodec) : Decoder UInt8 CTxInUndo := do
  let nCode : UInt32 := UInt32.ofNat (← readVarInt)
  let nHeight := nCode / 2
  let fCoinBase := nCode &&& 1 != 0
  let nVersion ← if nHeight > 0 then (fun n : Nat => (n : Int)) <$> readVarInt else pure 0
  let txout ← CTxOutCompressor.unserialize keys
  pure ⟨txout, fCoinBase, nHeight, nVersion⟩

/-- What the stored form keeps: the version only with a height, as `ReadVarInt` reads it. -/
def readBack (undo : CTxInUndo) : CTxInUndo :=
  { undo with nVersion := if undo.nHeight > 0 then (Serialize.readBack undo.nVersion : Int) else 0 }

/-- Undo data the stored form reads back: a height below `2^31` and an unspent stored output. -/
structure Storable (undo : CTxInUndo) : Prop where
  height : undo.nHeight.toNat < 2 ^ 31
  output : CCoins.StoredOutput undo.txout
  unspent : undo.txout.isNull = false

theorem code_toNat {undo : CTxInUndo} (height : undo.nHeight.toNat < 2 ^ 31) :
    undo.code.toNat = undo.nHeight.toNat * 2 + if undo.fCoinBase then 1 else 0 := by
  unfold code
  rw [UInt32.toNat_add, UInt32.toNat_mul, UInt32.toNat_ofNat]
  split
  · rw [UInt32.toNat_one]
    omega
  · rw [UInt32.toNat_zero]
    omega

theorem code_div_two {undo : CTxInUndo} (height : undo.nHeight.toNat < 2 ^ 31) :
    undo.code / 2 = undo.nHeight := by
  apply UInt32.toNat_inj.mp
  rw [UInt32.toNat_div, code_toNat height, UInt32.toNat_ofNat,
    show (2 : Nat) % 2 ^ 32 = 2 from rfl]
  split <;> omega

theorem code_and_one {undo : CTxInUndo} (height : undo.nHeight.toNat < 2 ^ 31) :
    (undo.code &&& 1 != 0) = undo.fCoinBase := by
  have low : (undo.code &&& 1).toNat = if undo.fCoinBase then 1 else 0 := by
    rw [UInt32.toNat_and, code_toNat height, UInt32.toNat_one, Nat.and_one_is_mod]
    split <;> omega
  cases coinBase : undo.fCoinBase with
  | false =>
      rw [coinBase] at low
      have cleared : undo.code &&& 1 = 0 := UInt32.toNat_inj.mp low
      rw [cleared]
      rfl
  | true =>
      rw [coinBase] at low
      have kept : undo.code &&& 1 = 1 := UInt32.toNat_inj.mp low
      rw [kept]
      rfl

theorem reads_serialize (keys : PubKeyCodec) {undo : CTxInUndo} (storable : undo.Storable) :
    Reads (unserialize keys) (undo.serialize keys) undo.readBack := by
  unfold serialize unserialize
  rw [List.append_assoc, ← List.append_nil (CTxOutCompressor.serialize keys undo.txout)]
  apply Reads.bind (reads_writeVarInt (Int.natCast_nonneg _))
  dsimp only
  rw [Int.toNat_natCast, UInt32.ofNat_toNat, code_div_two storable.height,
    code_and_one storable.height]
  have output := CCoins.reads_storedOutput keys storable.output storable.unspent
  by_cases positive : undo.nHeight > 0
  · rw [if_pos positive, if_pos positive]
    apply Reads.bind ((reads_writeVarInt_readBack undo.nVersion).map fun n : Nat => (n : Int))
    apply Reads.bind output
    simp only [readBack, if_pos positive]
    exact reads_pure _
  · rw [if_neg positive, if_neg positive]
    apply Reads.bind (reads_pure 0)
    apply Reads.bind output
    simp only [readBack, if_neg positive]
    exact reads_pure _

end CTxInUndo

/-- `CTxUndo::SerializationOp` writing: the vector of input undo data. -/
def CTxUndo.serialize (keys : PubKeyCodec) (txundo : CTxUndo) : List UInt8 :=
  writeVector (CTxInUndo.serialize keys) txundo.vprevout

/-- `CTxUndo::SerializationOp` reading. -/
def CTxUndo.unserialize (keys : PubKeyCodec) : Decoder UInt8 CTxUndo :=
  CTxUndo.mk <$> readVector (CTxInUndo.unserialize keys)

/-- `CBlockUndo::SerializationOp` writing: the vector of transaction undo data. -/
def CBlockUndo.serialize (keys : PubKeyCodec) (blockundo : CBlockUndo) : List UInt8 :=
  writeVector (CTxUndo.serialize keys) blockundo.vtxundo

/-- `CBlockUndo::SerializationOp` reading. -/
def CBlockUndo.unserialize (keys : PubKeyCodec) : Decoder UInt8 CBlockUndo :=
  CBlockUndo.mk <$> readVector (CTxUndo.unserialize keys)

/-- What the stored form keeps of the undo data of a transaction. -/
def CTxUndo.readBack (txundo : CTxUndo) : CTxUndo :=
  ⟨txundo.vprevout.map CTxInUndo.readBack⟩

/-- What the stored form keeps of the undo data of a block. -/
def CBlockUndo.readBack (blockundo : CBlockUndo) : CBlockUndo :=
  ⟨blockundo.vtxundo.map CTxUndo.readBack⟩

/-- Undo data of a transaction that the stored form reads back. -/
structure CTxUndo.Storable (txundo : CTxUndo) : Prop where
  bounded : txundo.vprevout.length ≤ MAX_SIZE
  each : ∀ undo ∈ txundo.vprevout, undo.Storable

theorem CTxUndo.reads_serialize (keys : PubKeyCodec) {txundo : CTxUndo}
    (storable : txundo.Storable) :
    Reads (CTxUndo.unserialize keys) (txundo.serialize keys) txundo.readBack :=
  (reads_writeVector storable.bounded fun undo member =>
    CTxInUndo.reads_serialize keys (storable.each undo member)).map CTxUndo.mk

/-- Every record of a block's undo data is read back from the stored form. -/
theorem CBlockUndo.reads_serialize (keys : PubKeyCodec) {blockundo : CBlockUndo}
    (bounded : blockundo.vtxundo.length ≤ MAX_SIZE)
    (each : ∀ txundo ∈ blockundo.vtxundo, txundo.Storable) :
    Reads (CBlockUndo.unserialize keys) (blockundo.serialize keys) blockundo.readBack :=
  (reads_writeVector bounded fun txundo member =>
    CTxUndo.reads_serialize keys (each txundo member)).map CBlockUndo.mk

end Dogecoin.Coins
