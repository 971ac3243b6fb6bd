import Dogecoin.Serialize.CompactSize

/-!
# The serialization of transactions

`SerializeTransaction` and `UnserializeTransaction` (primitives/transaction.h)
write a transaction as its version, its inputs, its outputs and its lock
time.  Where the stream allows witnesses and some input carries one, the
extended format puts an empty input vector and a flags byte after the
version, and the witness stacks of all inputs after the outputs.  The reader
recognises that format by an empty input vector followed by a flags byte
that is not zero.

An input of a `CMutableTransaction` keeps its `scriptWitness`, which only the
transaction serializes; a `CTxIn` on its own is the outpoint, the script and
the sequence number, as `CTxIn::SerializationOp` writes it.  Hashes are 32
raw bytes, integers are little-endian of their width, an amount is a two's
complement `int64_t`, and every vector is its `CompactSize` length followed
by its elements.

The round trip needs every vector to be at most `MAX_SIZE` long, since
`ReadCompactSize` rejects a longer one; a script one byte longer is written
and then not read back.
-/

namespace Dogecoin.Primitives

open StreamDecode LittleEndian Dogecoin.Serialize

/-- `SERIALIZE_TRANSACTION_NO_WITNESS`: the stream version bit that leaves witnesses out. -/
def SERIALIZE_TRANSACTION_NO_WITNESS : Nat := 0x40000000

/-- `CScriptWitness::stack`: the data elements of an input's witness. -/
abbrev CScriptWitness := List (List UInt8)

/-- An input of a `CMutableTransaction`: a `CTxIn` with the `scriptWitness` that only the transaction serializes. -/
structure CTxInWithWitness extends CTxIn where
  scriptWitness : CScriptWitness
deriving DecidableEq, Repr

/-- `CMutableTransaction`. -/
structure CMutableTransaction where
  nVersion : Int32
  vin : List CTxInWithWitness
  vout : List CTxOut
  nLockTime : UInt32
deriving DecidableEq, Repr

/-- `CMutableTransaction::HasWitness`: some input has a witness stack that is not empty. -/
def CMutableTransaction.hasWitness (tx : CMutableTransaction) : Bool :=
  tx.vin.any fun txin => !txin.scriptWitness.isEmpty

/-- The transaction with every witness stack emptied, as a stream without witnesses reads it back. -/
def CMutableTransaction.withoutWitness (tx : CMutableTransaction) : CMutableTransaction :=
  { tx with vin := tx.vin.map fun txin => { txin with scriptWitness := [] } }

/-! ## Fields -/

/-- An `int32_t`: four bytes, least significant first. -/
def writeInt32 (n : Int32) : List UInt8 :=
  leBytes 4 n.toBitVec.toNat

def readInt32 : Decoder UInt8 Int32 :=
  (fun n => Int32.ofBitVec (BitVec.ofNat 32 n)) <$> readLE 4

/-- A `uint32_t`: four bytes, least significant first. -/
def writeUInt32 (n : UInt32) : List UInt8 :=
  leBytes 4 n.toNat

def readUInt32 : Decoder UInt8 UInt32 :=
  UInt32.ofNat <$> readLE 4

/-- An `int64_t` amount: eight bytes of its two's complement, least significant first. -/
def writeInt64 (n : Int) : List UInt8 :=
  leBytes 8 (n % 2 ^ 64).toNat

/-- The `int64_t` whose two's complement is `n`. -/
def ofInt64Bits (n : Nat) : Int :=
  if n < 2 ^ 63 then n else n - 2 ^ 64

def readInt64 : Decoder UInt8 Int :=
  ofInt64Bits <$> readLE 8

/-- A `uint256`: its 32 bytes, least significant first. -/
def writeUInt256 (hash : UInt256) : List UInt8 :=
  leBytes 32 hash.toNat

def readUInt256 : Decoder UInt8 UInt256 :=
  BitVec.ofNat 256 <$> readLE 32

/-- A `CScript` (`prevector<28, unsigned char>`) or a `std::vector<unsigned char>`: its length, then its bytes. -/
def writeBytes (bytes : List UInt8) : List UInt8 :=
  writeVector (fun byte => [byte]) bytes

def readBytes : Decoder UInt8 (List UInt8) :=
  readVector token

/-- `COutPoint::SerializationOp`. -/
def COutPoint.serialize (prevout : COutPoint) : List UInt8 :=
  writeUInt256 prevout.hash ++ writeUInt32 prevout.n

def COutPoint.unserialize : Decoder UInt8 COutPoint := do
  let hash ← readUInt256
  let n ← readUInt32
  pure ⟨hash, n⟩

/-- `CTxIn::SerializationOp`: the outpoint, the script and the sequence number, not the witness. -/
def CTxIn.serialize (txin : CTxIn) : List UInt8 :=
  txin.prevout.serialize ++ writeBytes txin.scriptSig ++ writeUInt32 txin.nSequence

def CTxIn.unserialize : Decoder UInt8 CTxIn := do
  let prevout ← COutPoint.unserialize
  let scriptSig ← readBytes
  let nSequence ← readUInt32
  pure ⟨prevout, scriptSig, nSequence⟩

/-- `CTxOut::SerializationOp`. -/
def CTxOut.serialize (txout : CTxOut) : List UInt8 :=
  writeInt64 txout.nValue ++ writeBytes txout.scriptPubKey

def CTxOut.unserialize : Decoder UInt8 CTxOut := do
  let nValue ← readInt64
  let scriptPubKey ← readBytes
  pure ⟨nValue, scriptPubKey⟩

/-- A witness stack, `std::vector<std::vector<unsigned char>>`. -/
def writeStack (stack : CScriptWitness) : List UInt8 :=
  writeVector writeBytes stack

def readStack : Decoder UInt8 CScriptWitness :=
  readVector readBytes

/-! ## Transactions -/

/-- `!(s.GetVersion() & SERIALIZE_TRANSACTION_NO_WITNESS)`: whether the stream carries witnesses. -/
def allowWitness (nVersionStream : Nat) : Bool :=
  nVersionStream &&& SERIALIZE_TRANSACTION_NO_WITNESS == 0

/-- `SerializeTransaction` on a stream of version `nVersionStream`. -/
def serializeTransaction (nVersionStream : Nat) (tx : CMutableTransaction) : List UInt8 :=
  let flags : UInt8 := if allowWitness nVersionStream && tx.hasWitness then 1 else 0
  writeInt32 tx.nVersion ++
    -- the extended format: an empty `vinDummy`, then the flags
    (if flags ≠ 0 then writeVector CTxIn.serialize [] ++ [flags] else []) ++
    writeVector CTxIn.serialize (tx.vin.map fun txin => txin.toCTxIn) ++
    writeVector CTxOut.serialize tx.vout ++
    (if flags &&& 1 ≠ 0 then tx.vin.flatMap fun txin => writeStack txin.scriptWitness else []) ++
    writeUInt32 tx.nLockTime

/--
The inputs and outputs that `UnserializeTransaction` reads, with the flags
byte.  Where witnesses are allowed, an empty `vin` is the dummy of the
extended format or an empty input vector, and a flags byte follows it.
-/
def unserializeVinVout (fAllowWitness : Bool) :
    Decoder UInt8 (UInt8 × List CTxIn × List CTxOut) := do
  let vin ← readVector CTxIn.unserialize
  if vin.length = 0 ∧ fAllowWitness then
    let flags ← token
    if flags ≠ 0 then
      let vin ← readVector CTxIn.unserialize
      let vout ← readVector CTxOut.unserialize
      pure (flags, vin, vout)
    else pure (flags, vin, [])
  else
    -- a non-empty `vin`: a normal `vout` follows
    let vout ← readVector CTxOut.unserialize
    pure (0, vin, vout)

/-- The witness stacks that `UnserializeTransaction` reads where the flags ask for them, and the flags left. -/
def unserializeWitness (fAllowWitness : Bool) (flags : UInt8) (vin : List CTxIn) :
    Decoder UInt8 (UInt8 × List CTxInWithWitness) :=
  if flags &&& 1 ≠ 0 ∧ fAllowWitness then
    (fun witnesses => (flags ^^^ 1, List.zipWith (fun txin stack => ⟨txin, stack⟩) vin witnesses)) <$>
      count vin.length readStack
  else pure (flags, vin.map fun txin => ⟨txin, []⟩)

/-- `UnserializeTransaction` on a stream of version `nVersionStream`. -/
def unserializeTransaction (nVersionStream : Nat) : Decoder UInt8 CMutableTransaction := do
  let nVersion ← readInt32
  let (flags, vin, vout) ← unserializeVinVout (allowWitness nVersionStream)
  let (flags, vin) ← unserializeWitness (allowWitness nVersionStream) flags vin
  -- "Unknown transaction optional data"
  (if flags ≠ 0 then failure else pure () : Decoder UInt8 Unit)
  let nLockTime ← readUInt32
  pure ⟨nVersion, vin, vout, nLockTime⟩

/--
What a transaction keeps for its serialization to be read back: every vector
at most `MAX_SIZE` long, as `ReadCompactSize` accepts, and every amount a
value of `int64_t`.
-/
structure CMutableTransaction.Readable (tx : CMutableTransaction) : Prop where
  vin_length : tx.vin.length ≤ MAX_SIZE
  vout_length : tx.vout.length ≤ MAX_SIZE
  scriptSig : ∀ txin ∈ tx.vin, txin.scriptSig.length ≤ MAX_SIZE
  scriptWitness : ∀ txin ∈ tx.vin, txin.scriptWitness.length ≤ MAX_SIZE ∧
    ∀ item ∈ txin.scriptWitness, item.length ≤ MAX_SIZE
  nValue : ∀ txout ∈ tx.vout, -2 ^ 63 ≤ txout.nValue ∧ txout.nValue < 2 ^ 63
  scriptPubKey : ∀ txout ∈ tx.vout, txout.scriptPubKey.length ≤ MAX_SIZE

/-! ## Reading the fields back -/

theorem reads_int32 (n : Int32) : Reads readInt32 (writeInt32 n) n :=
  ((reads_readLE_of_lt (BitVec.toNat_lt_twoPow_of_le (Nat.le_refl 32))).map _).of_value (by simp)

theorem reads_uint32 (n : UInt32) : Reads readUInt32 (writeUInt32 n) n :=
  ((reads_readLE_of_lt n.toNat_lt).map _).of_value UInt32.ofNat_toNat

theorem reads_int64 {n : Int} (low : -2 ^ 63 ≤ n) (high : n < 2 ^ 63) :
    Reads readInt64 (writeInt64 n) n := by
  have small : (n % 2 ^ 64).toNat < 256 ^ 8 := by
    rw [show (256 : Nat) ^ 8 = 2 ^ 64 from rfl]
    omega
  have value : ofInt64Bits (n % 2 ^ 64).toNat = n := by
    unfold ofInt64Bits
    split
    · omega
    · omega
  exact ((reads_readLE_of_lt small).map ofInt64Bits).of_value value

theorem reads_uint256 (hash : UInt256) : Reads readUInt256 (writeUInt256 hash) hash :=
  ((reads_readLE_of_lt (BitVec.toNat_lt_twoPow_of_le (Nat.le_refl 256))).map _).of_value (by simp)

/-- What `readUInt256` accepts is the 32 bytes of the hash it returns. -/
theorem readUInt256_canonical {input rest : List UInt8} {hash : UInt256}
    (read : readUInt256.run input = some (hash, rest)) : input = writeUInt256 hash ++ rest := by
  obtain ⟨n, wide, rfl⟩ := run_map_eq_some read
  obtain ⟨bytes, bound⟩ := readLE_eq_some wide
  rw [show (256 : Nat) ^ 32 = 2 ^ 256 from rfl] at bound
  rw [writeUInt256, BitVec.toNat_ofNat, Nat.mod_eq_of_lt bound]
  exact bytes

theorem reads_bytes {bytes : List UInt8} (bounded : bytes.length ≤ MAX_SIZE) :
    Reads readBytes (writeBytes bytes) bytes :=
  (reads_writeVector bounded fun byte _ => reads_token byte).of_value (List.map_id' bytes)

theorem reads_outPoint (prevout : COutPoint) :
    Reads COutPoint.unserialize prevout.serialize prevout :=
  (reads_uint256 prevout.hash).bind
    (Reads.of_eq ((reads_uint32 prevout.n).bind (reads_pure _)) (List.append_nil _))

theorem reads_txIn {txin : CTxIn} (bounded : txin.scriptSig.length ≤ MAX_SIZE) :
    Reads CTxIn.unserialize txin.serialize txin :=
  Reads.of_eq ((reads_outPoint txin.prevout).bind ((reads_bytes bounded).bind
    (Reads.of_eq ((reads_uint32 txin.nSequence).bind (reads_pure _)) (List.append_nil _))))
    (List.append_assoc _ _ _).symm

theorem reads_txOut {txout : CTxOut} (low : -2 ^ 63 ≤ txout.nValue) (high : txout.nValue < 2 ^ 63)
    (bounded : txout.scriptPubKey.length ≤ MAX_SIZE) :
    Reads CTxOut.unserialize txout.serialize txout :=
  (reads_int64 low high).bind
    (Reads.of_eq ((reads_bytes bounded).bind (reads_pure _)) (List.append_nil _))

theorem reads_stack {stack : CScriptWitness} (bounded : stack.length ≤ MAX_SIZE)
    (items : ∀ item ∈ stack, item.length ≤ MAX_SIZE) :
    Reads readStack (writeStack stack) stack :=
  (reads_writeVector bounded fun item member => reads_bytes (items item member)).of_value
    (List.map_id' stack)

/-! ## Reading a transaction back -/

/-- A transaction without witness stacks is its own `withoutWitness`. -/
theorem withoutWitness_eq_self {tx : CMutableTransaction} (bare : tx.hasWitness = false) :
    tx.withoutWitness = tx := by
  have empty : ∀ txin ∈ tx.vin, txin.scriptWitness = [] := by
    intro txin member
    have notAny := List.any_eq_false.1 bare txin member
    simpa using notAny
  unfold CMutableTransaction.withoutWitness
  congr 1
  conv => rhs; rw [← List.map_id tx.vin]
  exact List.map_congr_left fun txin member => by rw [← empty txin member]; rfl

/-- The empty vector of the extended format, read back. -/
theorem reads_dummy : Reads (readVector CTxIn.unserialize) (writeVector CTxIn.serialize []) [] :=
  @reads_writeVector _ _ CTxIn.serialize CTxIn.unserialize id [] (by decide) nofun

/-- Flags that are zero pass the check for unknown optional data. -/
theorem reads_flags_zero :
    Reads (if (0 : UInt8) ≠ 0 then failure else pure () : Decoder UInt8 Unit) [] () := by
  rw [if_neg (by decide)]
  exact reads_pure ()

theorem reads_witness_zero (fAllowWitness : Bool) (vin : List CTxIn) :
    Reads (unserializeWitness fAllowWitness 0 vin) [] (0, vin.map fun txin => ⟨txin, []⟩) := by
  unfold unserializeWitness
  rw [if_neg fun both => both.1 (by decide)]
  exact reads_pure _

section Readable

variable {tx : CMutableTransaction} (readable : tx.Readable)
include readable

theorem reads_vin :
    Reads (readVector CTxIn.unserialize)
      (writeVector CTxIn.serialize (tx.vin.map fun txin => txin.toCTxIn))
      (tx.vin.map fun txin => txin.toCTxIn) := by
  have bounded : (tx.vin.map fun txin => txin.toCTxIn).length ≤ MAX_SIZE := by
    rw [List.length_map]
    exact readable.vin_length
  refine (reads_writeVector bounded fun txin member => ?_).of_value (List.map_id' _)
  obtain ⟨original, mem, rfl⟩ := List.mem_map.1 member
  exact reads_txIn (readable.scriptSig original mem)

theorem reads_vout :
    Reads (readVector CTxOut.unserialize) (writeVector CTxOut.serialize tx.vout) tx.vout := by
  refine (reads_writeVector readable.vout_length fun txout member => ?_).of_value (List.map_id' _)
  obtain ⟨low, high⟩ := readable.nValue txout member
  exact reads_txOut low high (readable.scriptPubKey txout member)

/-- The witness stacks of the inputs, one after another. -/
theorem reads_stacks :
    Reads (count tx.vin.length readStack) (tx.vin.flatMap fun txin => writeStack txin.scriptWitness)
      (tx.vin.map fun txin => txin.scriptWitness) :=
  Reads.count fun txin member =>
    reads_stack (readable.scriptWitness txin member).1 (readable.scriptWitness txin member).2

/-- A non-empty `vin` is followed by the outputs, and there are no flags. -/
theorem reads_vinVout_normal (fAllowWitness : Bool) (nonempty : tx.vin ≠ []) :
    Reads (unserializeVinVout fAllowWitness)
      (writeVector CTxIn.serialize (tx.vin.map fun txin => txin.toCTxIn) ++
        writeVector CTxOut.serialize tx.vout)
      (0, tx.vin.map fun txin => txin.toCTxIn, tx.vout) := by
  unfold unserializeVinVout
  apply (reads_vin readable).bind
  have inputs : (tx.vin.map fun txin => txin.toCTxIn).length ≠ 0 := by
    rw [List.length_map]
    exact fun empty => nonempty (List.eq_nil_of_length_eq_zero empty)
  rw [if_neg fun both => inputs both.1, ← List.append_nil (writeVector CTxOut.serialize tx.vout)]
  exact (reads_vout readable).bind (reads_pure _)

/-- The dummy and the flags `1` are followed by the inputs and the outputs. -/
theorem reads_vinVout_extended :
    Reads (unserializeVinVout true)
      (writeVector CTxIn.serialize [] ++ ([1] ++
        (writeVector CTxIn.serialize (tx.vin.map fun txin => txin.toCTxIn) ++
          writeVector CTxOut.serialize tx.vout)))
      (1, tx.vin.map fun txin => txin.toCTxIn, tx.vout) := by
  unfold unserializeVinVout
  apply reads_dummy.bind
  rw [if_pos ⟨rfl, rfl⟩]
  apply (reads_token 1).bind
  rw [if_pos (by decide)]
  apply (reads_vin readable).bind
  rw [← List.append_nil (writeVector CTxOut.serialize tx.vout)]
  exact (reads_vout readable).bind (reads_pure _)

/-- With the flags `1`, the witness stacks are read into the inputs and the flags are left zero. -/
theorem reads_witness_stacks :
    Reads (unserializeWitness true 1 (tx.vin.map fun txin => txin.toCTxIn))
      (tx.vin.flatMap fun txin => writeStack txin.scriptWitness) (0, tx.vin) := by
  unfold unserializeWitness
  rw [if_pos ⟨by decide, rfl⟩, List.length_map]
  refine (reads_stacks readable).map_of_eq ?_
  have rejoined : List.zipWith (fun txin stack => (⟨txin, stack⟩ : CTxInWithWitness))
      (tx.vin.map fun txin => txin.toCTxIn) (tx.vin.map fun txin => txin.scriptWitness) = tx.vin := by
    rw [List.zipWith_map, List.zipWith_self]
    exact List.map_id' tx.vin
  rw [rejoined]
  rfl

end Readable

/--
`UnserializeTransaction` reads back what `SerializeTransaction` wrote, for
every transaction with a non-empty `vin` whose vectors `ReadCompactSize`
accepts and whose amounts are `int64_t` values: the same transaction where
the stream allows witnesses, and the same with its witness stacks emptied
where it does not.
-/
theorem reads_serializeTransaction (nVersionStream : Nat) {tx : CMutableTransaction}
    (nonempty : tx.vin ≠ []) (readable : tx.Readable) :
    Reads (unserializeTransaction nVersionStream) (serializeTransaction nVersionStream tx)
      (if allowWitness nVersionStream then tx else tx.withoutWitness) := by
  unfold serializeTransaction unserializeTransaction
  dsimp only
  by_cases extended : (allowWitness nVersionStream && tx.hasWitness) = true
  · have allowed : allowWitness nVersionStream = true := (Bool.and_eq_true_iff.1 extended).1
    rw [if_pos extended, if_pos (by decide), if_pos (by decide), allowed, if_pos rfl]
    refine @Reads.of_eq _ _ _ (writeInt32 tx.nVersion ++
      ((writeVector CTxIn.serialize [] ++ ([1] ++
        (writeVector CTxIn.serialize (tx.vin.map fun txin => txin.toCTxIn) ++
          writeVector CTxOut.serialize tx.vout))) ++
      ((tx.vin.flatMap fun txin => writeStack txin.scriptWitness) ++
        ([] ++ (writeUInt32 tx.nLockTime ++ []))))) _ _ ?_ (by simp only [List.append_assoc,
          List.nil_append, List.append_nil])
    apply (reads_int32 tx.nVersion).bind
    apply (reads_vinVout_extended readable).bind
    apply (reads_witness_stacks readable).bind
    apply reads_flags_zero.bind
    exact (reads_uint32 tx.nLockTime).bind (reads_pure _)
  · rw [if_neg extended, if_neg (by decide), if_neg (by decide)]
    refine @Reads.of_eq _ _ _ (writeInt32 tx.nVersion ++
      ((writeVector CTxIn.serialize (tx.vin.map fun txin => txin.toCTxIn) ++
          writeVector CTxOut.serialize tx.vout) ++
      ([] ++ ([] ++ (writeUInt32 tx.nLockTime ++ []))))) _ _ ?_ (by simp only [List.append_assoc,
          List.nil_append, List.append_nil])
    apply (reads_int32 tx.nVersion).bind
    apply (reads_vinVout_normal readable _ nonempty).bind
    apply (reads_witness_zero _ _).bind
    apply reads_flags_zero.bind
    refine (reads_uint32 tx.nLockTime).bind (Reads.of_value (reads_pure _) ?_)
    have stripped : (⟨tx.nVersion, (tx.vin.map fun txin => txin.toCTxIn).map fun txin => ⟨txin, []⟩,
        tx.vout, tx.nLockTime⟩ : CMutableTransaction) = tx.withoutWitness := by
      rw [List.map_map]
      rfl
    rw [stripped]
    split
    · rename_i allowed
      rw [allowed, Bool.true_and, Bool.not_eq_true] at extended
      exact withoutWitness_eq_self extended
    · rfl

/--
For both stream versions, a transaction with a non-empty `vin` whose vectors
`ReadCompactSize` accepts and whose amounts are `int64_t` values is read back
from exactly its bytes with the same version, inputs, outputs and lock time,
and with the same witness stacks where the stream allows witnesses and empty
ones where it does not.
-/
theorem serializeTransaction_roundTrip (nVersionStream : Nat) (tx : CMutableTransaction)
    (nonempty : tx.vin ≠ []) (readable : tx.Readable) :
    ∃ tx', Reads (unserializeTransaction nVersionStream) (serializeTransaction nVersionStream tx) tx' ∧
      tx'.nVersion = tx.nVersion ∧
      (tx'.vin.map fun txin => txin.toCTxIn) = (tx.vin.map fun txin => txin.toCTxIn) ∧
      tx'.vout = tx.vout ∧ tx'.nLockTime = tx.nLockTime ∧
      (tx'.vin.map fun txin => txin.scriptWitness) =
        if allowWitness nVersionStream then tx.vin.map fun txin => txin.scriptWitness
        else tx.vin.map fun _ => [] := by
  refine ⟨_, reads_serializeTransaction nVersionStream nonempty readable, ?_⟩
  split
  · exact ⟨rfl, rfl, rfl, rfl, rfl⟩
  · refine ⟨rfl, ?_, rfl, rfl, ?_⟩
    · rw [CMutableTransaction.withoutWitness, List.map_map]
      rfl
    · rw [CMutableTransaction.withoutWitness, List.map_map]
      rfl

/-- A spend with a witness stack of two items and one output. -/
def witnessSpend : CMutableTransaction where
  nVersion := 2
  vin := [{ prevout := ⟨7, 1⟩, scriptSig := [], nSequence := 0xfffffffe, scriptWitness := [[1, 2], [3]] }]
  vout := [⟨5000, [OP_DUP]⟩]
  nLockTime := 100

theorem serializeTransaction_roundTrip_witnessSpend :
    witnessSpend.vin ≠ [] ∧ witnessSpend.Readable ∧
    ∃ tx', Reads (unserializeTransaction 0) (serializeTransaction 0 witnessSpend) tx' ∧
      tx'.nVersion = witnessSpend.nVersion ∧
      (tx'.vin.map fun txin => txin.toCTxIn) = (witnessSpend.vin.map fun txin => txin.toCTxIn) ∧
      tx'.vout = witnessSpend.vout ∧ tx'.nLockTime = witnessSpend.nLockTime ∧
      (tx'.vin.map fun txin => txin.scriptWitness) =
        if allowWitness 0 then witnessSpend.vin.map fun txin => txin.scriptWitness
        else witnessSpend.vin.map fun _ => [] :=
  have readable : witnessSpend.Readable :=
    ⟨by decide, by decide, by decide, by decide, by decide, by decide⟩
  ⟨List.cons_ne_nil _ _, readable,
    serializeTransaction_roundTrip 0 witnessSpend (List.cons_ne_nil _ _) readable⟩

/-! ## Vectors longer than `MAX_SIZE` -/

theorem readBytes_of_long {bytes : List UInt8} (long : MAX_SIZE < bytes.length)
    (fits : bytes.length ≤ 0xFFFFFFFF) (rest : List UInt8) :
    readBytes.run (writeBytes bytes ++ rest) = none := by
  unfold readBytes readVector writeBytes writeVector
  rw [List.append_assoc]
  exact run_bind_of_none (readCompactSize_of_gt long fits _)

/-- An input whose script is longer than `MAX_SIZE` is written and not read back. -/
theorem txIn_unserialize_of_long {txin : CTxIn} (long : MAX_SIZE < txin.scriptSig.length)
    (fits : txin.scriptSig.length ≤ 0xFFFFFFFF) (rest : List UInt8) :
    CTxIn.unserialize.run (txin.serialize ++ rest) = none := by
  unfold CTxIn.unserialize CTxIn.serialize
  rw [List.append_assoc, List.append_assoc, (reads_outPoint txin.prevout).run_bind]
  exact run_bind_of_none (readBytes_of_long long fits _)

/-- A transaction with one input whose script is one byte longer than `MAX_SIZE`. -/
def oversizedScriptSig : CMutableTransaction where
  nVersion := 1
  vin :=
    [{ prevout := ⟨0, 0⟩, scriptSig := List.replicate (MAX_SIZE + 1) 0, nSequence := 0xffffffff,
       scriptWitness := [] }]
  vout := []
  nLockTime := 0

/--
`SerializeTransaction` writes `oversizedScriptSig`, which has an input, and
`UnserializeTransaction` does not read it back: `ReadCompactSize` rejects the
length of the script.
-/
theorem serializeTransaction_oversized_unread :
    oversizedScriptSig.vin ≠ [] ∧
      (unserializeTransaction 0).run (serializeTransaction 0 oversizedScriptSig) = none := by
  refine ⟨List.cons_ne_nil _ _, ?_⟩
  have bare : oversizedScriptSig.hasWitness = false := rfl
  have long : MAX_SIZE < (List.replicate (MAX_SIZE + 1) (0 : UInt8)).length := by
    rw [List.length_replicate]
    exact Nat.lt_succ_self _
  have fits : (List.replicate (MAX_SIZE + 1) (0 : UInt8)).length ≤ 0xFFFFFFFF := by
    rw [List.length_replicate]
    unfold MAX_SIZE
    omega
  unfold serializeTransaction unserializeTransaction
  dsimp only
  rw [bare, Bool.and_false, if_neg (by decide), if_neg (by decide)]
  simp only [List.append_nil, List.append_assoc]
  rw [(reads_int32 _).run_bind]
  refine run_bind_of_none ?_
  unfold unserializeVinVout
  refine run_bind_of_none ?_
  unfold readVector writeVector oversizedScriptSig
  rw [List.map_cons, List.map_nil, List.length_singleton, List.flatMap_cons, List.flatMap_nil,
    List.append_nil, List.append_assoc, (reads_writeCompactSize (by decide)).run_bind,
    StreamDecode.count]
  refine run_bind_of_none ?_
  rw [List.append_assoc]
  exact txIn_unserialize_of_long long fits _

/-! ## A transaction without inputs -/

/--
An empty `vin` and an empty `vout` are read back on both paths: where the
stream allows witnesses, the count of the empty `vout` is read as the flags
byte, and it is zero.
-/
theorem reads_vinVout_empty (fAllowWitness : Bool) :
    Reads (unserializeVinVout fAllowWitness)
      (writeVector CTxIn.serialize [] ++ writeVector CTxOut.serialize []) (0, [], []) := by
  unfold unserializeVinVout
  apply reads_dummy.bind
  cases fAllowWitness with
  | false =>
    rw [if_neg fun both => Bool.false_ne_true both.2,
      ← List.append_nil (writeVector CTxOut.serialize [])]
    exact (@reads_writeVector _ _ CTxOut.serialize CTxOut.unserialize id [] (by decide) nofun).bind
      (reads_pure _)
  | true =>
    rw [if_pos ⟨rfl, rfl⟩, show writeVector CTxOut.serialize [] = [0] ++ [] from rfl]
    apply (reads_token 0).bind
    rw [if_neg (by decide)]
    exact reads_pure _

/-- A transaction without inputs or outputs is read back from its bytes on every stream. -/
theorem reads_serializeTransaction_empty (nVersionStream : Nat) (nVersion : Int32)
    (nLockTime : UInt32) :
    Reads (unserializeTransaction nVersionStream)
      (serializeTransaction nVersionStream ⟨nVersion, [], [], nLockTime⟩)
      ⟨nVersion, [], [], nLockTime⟩ := by
  unfold serializeTransaction unserializeTransaction
  dsimp only
  have bare : ¬(allowWitness nVersionStream &&
      (⟨nVersion, [], [], nLockTime⟩ : CMutableTransaction).hasWitness) = true := by
    simp [CMutableTransaction.hasWitness]
  rw [if_neg bare, if_neg (by decide), if_neg (by decide)]
  refine @Reads.of_eq _ _ _ (writeInt32 nVersion ++
    ((writeVector CTxIn.serialize [] ++ writeVector CTxOut.serialize []) ++
      ([] ++ ([] ++ (writeUInt32 nLockTime ++ []))))) _ _ ?_ (by simp only [List.append_assoc,
        List.nil_append, List.append_nil, List.map_nil])
  apply (reads_int32 nVersion).bind
  apply (reads_vinVout_empty _).bind
  apply (reads_witness_zero _ _).bind
  apply reads_flags_zero.bind
  exact (reads_uint32 nLockTime).bind (reads_pure _)

end Dogecoin.Primitives
