import Dogecoin.Serialize.Transaction

/-!
# The differential encoding of `BlockTransactionsRequest`

A `getblocktxn` message (blockencodings.h) asks for transactions of a block
by their positions, a list of `uint16_t` indexes.  The writer sends the block
hash, the number of indexes, and for each index its difference to the one
before it plus one, as `CompactSize`s.  The reader reads the differences in
chunks of at most 1000, rejects one above 16 bits, and adds them up again in
a `uint16_t` `offset`, rejecting a sum above 16 bits.

For a strictly increasing list the two are inverse
(`reads_serialize_of_increasing`).  The reader accepts more than the writer
writes, though.  `offset = indexes[j] + 1` wraps to `0` after an index of
`65535`, so the list it returns starts again from the next difference.  Such
a list is not increasing and is not the serialization of what it returns
(`unserialize_accepts`, `unserialize_wraps`).
-/

namespace Dogecoin.Serialize

open StreamDecode LittleEndian Dogecoin.Primitives

/-- `BlockTransactionsRequest`: a block hash and positions of transactions in the block. -/
structure BlockTransactionsRequest where
  blockhash : UInt256
  indexes : List UInt16

/-! ## The writer -/

/--
The loop of the writer from `indexes[i]` on, where `base` is
`(i == 0 ? 0 : (indexes[i - 1] + 1))`, computed in `int`; the difference is
converted to `uint64_t`.
-/
def writeDifferences (base : Int) : List UInt16 → List UInt8
  | [] => []
  | index :: rest =>
      writeCompactSize ((index.toNat - base) % 2 ^ 64).toNat ++ writeDifferences (index.toNat + 1) rest

/-- `BlockTransactionsRequest::SerializationOp` when writing. -/
def BlockTransactionsRequest.serialize (req : BlockTransactionsRequest) : List UInt8 :=
  writeUInt256 req.blockhash ++ writeCompactSize req.indexes.length ++ writeDifferences 0 req.indexes

/-! ## The reader -/

/-- One difference of the reading loop: "index overflowed 16 bits" above `uint16_t`. -/
def readIndex : Decoder UInt8 UInt16 := do
  let index ← readCompactSize
  if index > 65535 then failure else pure (UInt16.ofNat index)

set_option linter.unusedVariables false in
/--
The `while` loop of the reader, where `filled` is `indexes.size()`: it grows
`indexes` by at most 1000 up to `indexes_size` and reads the new entries.
-/
def readIndexes (indexes_size filled : Nat) : Decoder UInt8 (List UInt16) :=
  if growing : filled < indexes_size then do
    let grown := min (1000 + filled) indexes_size
    let chunk ← count (grown - filled) readIndex
    let rest ← readIndexes indexes_size grown
    pure (chunk ++ rest)
  else pure []
termination_by indexes_size - filled
decreasing_by omega

/--
The loop that adds the differences up in the `uint16_t` `offset`, with
"indexes overflowed 16 bits" when a sum does not fit in 16 bits.  The next
offset `indexes[j] + 1` is taken modulo `2 ^ 16`.
-/
def addOffsets (offset : UInt16) : List UInt16 → Option (List UInt16)
  | [] => some []
  | index :: rest =>
      if index.toNat + offset.toNat > 65535 then none
      else
        let value := index + offset
        (addOffsets (value + 1) rest).map (value :: ·)

/-- `BlockTransactionsRequest::SerializationOp` when reading. -/
def BlockTransactionsRequest.unserialize : Decoder UInt8 BlockTransactionsRequest := do
  let blockhash ← readUInt256
  let indexes_size ← readCompactSize
  let indexes ← readIndexes indexes_size 0
  match addOffsets 0 indexes with
  | none => failure
  | some indexes => pure ⟨blockhash, indexes⟩

/-! ## The reading loops -/

/-- The chunks of at most 1000 read all `indexes_size - filled` differences one after another. -/
theorem readIndexes_eq (indexes_size filled : Nat) :
    readIndexes indexes_size filled = count (indexes_size - filled) readIndex := by
  rw [readIndexes]
  split
  · dsimp only
    rw [readIndexes_eq indexes_size (min (1000 + filled) indexes_size)]
    have sizes : indexes_size - filled = (min (1000 + filled) indexes_size - filled) +
        (indexes_size - min (1000 + filled) indexes_size) := by omega
    rw [sizes, count_add]
  · rw [show indexes_size - filled = 0 by omega]
    rfl
termination_by indexes_size - filled
decreasing_by omega

theorem reads_readIndex (index : UInt16) :
    Reads readIndex (writeCompactSize index.toNat) index := by
  have top := index.toNat_lt
  rw [← List.append_nil (writeCompactSize index.toNat)]
  refine (reads_writeCompactSize (by unfold MAX_SIZE; omega)).bind ?_
  rw [if_neg (by omega)]
  exact (reads_pure _).of_value UInt16.ofNat_toNat

/-- What `readIndex` accepts is the `CompactSize` of the index it returns. -/
theorem readIndex_canonical {input rest : List UInt8} {index : UInt16}
    (read : readIndex.run input = some (index, rest)) :
    input = writeCompactSize index.toNat ++ rest := by
  obtain ⟨n, middle, size, checked⟩ := run_bind_eq_some read
  obtain ⟨-, encoded⟩ := readCompactSize_canonical size
  split at checked
  · cases checked
  · rename_i small
    obtain ⟨rfl, rfl⟩ := run_pure_eq_some checked
    rw [UInt16.toNat_ofNat_of_lt' (by rw [UInt16.size]; omega)]
    exact encoded

/-- The value of one step of `addOffsets`: a sum that fits in 16 bits. -/
theorem toNat_add_offset {index offset : UInt16} (fits : index.toNat + offset.toNat ≤ 65535) :
    (index + offset).toNat = index.toNat + offset.toNat := by
  rw [UInt16.toNat_add]
  omega

/-- The next offset `indexes[j] + 1` when `indexes[j]` is not `65535`. -/
theorem toNat_add_one {value : UInt16} (below : value ≠ 65535) :
    (value + 1).toNat = value.toNat + 1 := by
  have top := value.toNat_lt
  have short : value.toNat ≠ 65535 := fun same => below (UInt16.toNat_inj.1 same)
  rw [UInt16.toNat_add, UInt16.toNat_one]
  omega

/-- One step of `addOffsets` that does not fail: the sum fits, and the rest is added from the next offset. -/
theorem addOffsets_cons_eq_some {offset index : UInt16} {rest values : List UInt16}
    (added : addOffsets offset (index :: rest) = some values) :
    index.toNat + offset.toNat ≤ 65535 ∧
      ∃ values', addOffsets (index + offset + 1) rest = some values' ∧
        values = (index + offset) :: values' := by
  rw [addOffsets] at added
  split at added
  · cases added
  · rename_i fits
    obtain ⟨values', added', rfl⟩ := Option.map_eq_some_iff.1 added
    exact ⟨by omega, values', added', rfl⟩

theorem length_addOffsets : ∀ {offset : UInt16} {raw values : List UInt16},
    addOffsets offset raw = some values → values.length = raw.length
  | _, [], _, added => by
      cases added
      rfl
  | _, _ :: _, _, added => by
      obtain ⟨-, values', added', rfl⟩ := addOffsets_cons_eq_some added
      rw [List.length_cons, List.length_cons, length_addOffsets added']

/-! ## The writer on increasing lists -/

/-- The differences the writer writes for a list from `base` on. -/
def differences (base : Nat) : List UInt16 → List UInt16
  | [] => []
  | index :: rest => UInt16.ofNat (index.toNat - base) :: differences (index.toNat + 1) rest

/--
On a strictly increasing list whose entries are at least `base`, the writer
writes the `CompactSize`s of `differences`, `addOffsets` adds them back up,
and the list has at most `65536 - base` entries.
-/
theorem writeDifferences_of_increasing : ∀ (indexes : List UInt16) (base : Nat),
    indexes.Pairwise (· < ·) → (∀ index ∈ indexes, base ≤ index.toNat) →
      writeDifferences base indexes =
          (differences base indexes).flatMap (fun d => writeCompactSize d.toNat) ∧
        addOffsets (UInt16.ofNat base) (differences base indexes) = some indexes ∧
        indexes.length ≤ 65536 - base
  | [], _, _, _ => ⟨rfl, rfl, Nat.zero_le _⟩
  | index :: rest, base, increasing, above => by
      obtain ⟨later, increasing'⟩ := List.pairwise_cons.1 increasing
      have top := index.toNat_lt
      have low : base ≤ index.toNat := above index List.mem_cons_self
      obtain ⟨written, added, short⟩ := writeDifferences_of_increasing rest (index.toNat + 1)
        increasing' fun other member => UInt16.lt_iff_toNat_lt.1 (later other member)
      have difference : (UInt16.ofNat (index.toNat - base)).toNat = index.toNat - base :=
        UInt16.toNat_ofNat_of_lt' (by rw [UInt16.size]; omega)
      have value : UInt16.ofNat (index.toNat - base) + UInt16.ofNat base = index := by
        apply UInt16.toNat_inj.1
        rw [UInt16.toNat_add, difference, UInt16.toNat_ofNat']
        omega
      have next : index + 1 = UInt16.ofNat (index.toNat + 1) := by
        apply UInt16.toNat_inj.1
        rw [UInt16.toNat_add, UInt16.toNat_ofNat']
        rfl
      refine ⟨?_, ?_, by rw [List.length_cons]; omega⟩
      · rw [writeDifferences, differences, List.flatMap_cons, difference, ← Int.natCast_one,
          ← Int.natCast_add, written]
        congr 2
        omega
      · rw [differences, addOffsets, if_neg (by rw [difference, UInt16.toNat_ofNat']; omega), value]
        dsimp only
        rw [next, added]
        rfl

/-- A strictly increasing list of indexes is read back from its serialization. -/
theorem reads_serialize_of_increasing {req : BlockTransactionsRequest}
    (increasing : req.indexes.Pairwise (· < ·)) :
    Reads BlockTransactionsRequest.unserialize req.serialize req := by
  obtain ⟨blockhash, indexes⟩ := req
  obtain ⟨written, added, short⟩ := writeDifferences_of_increasing indexes 0 increasing
    fun _ _ => Nat.zero_le _
  have each : ∀ d ∈ differences 0 indexes, Reads readIndex (writeCompactSize d.toNat) (id d) :=
    fun d _ => reads_readIndex d
  have chunks : Reads (readIndexes indexes.length 0) (writeDifferences 0 indexes)
      (differences 0 indexes) := by
    rw [readIndexes_eq, Nat.sub_zero, length_addOffsets added]
    exact ((Reads.count each).of_eq written.symm).of_value (List.map_id _)
  have finish : Reads (match addOffsets 0 (differences 0 indexes) with
      | none => failure
      | some indexes => pure ⟨blockhash, indexes⟩ : Decoder UInt8 BlockTransactionsRequest)
      [] ⟨blockhash, indexes⟩ := by
    rw [show addOffsets 0 (differences 0 indexes) = some indexes from added]
    exact reads_pure _
  refine Reads.of_eq ((reads_uint256 blockhash).bind ((reads_writeCompactSize
    (by unfold MAX_SIZE; omega)).bind (chunks.bind finish))) ?_
  rw [BlockTransactionsRequest.serialize, List.append_nil, List.append_assoc]

/-! ## What the reader accepts -/

/--
What `unserialize` accepts is a hash, a count and that many differences, whose
sums from offset `0` are the indexes it returns.
-/
theorem unserialize_eq_some {input rest : List UInt8} {req : BlockTransactionsRequest}
    (read : BlockTransactionsRequest.unserialize.run input = some (req, rest)) :
    ∃ raw : List UInt16,
      input = writeUInt256 req.blockhash ++ writeCompactSize raw.length ++
          raw.flatMap (fun d => writeCompactSize d.toNat) ++ rest ∧
        addOffsets 0 raw = some req.indexes := by
  obtain ⟨blockhash, afterHash, hash, read⟩ := run_bind_eq_some read
  obtain ⟨indexes_size, afterSize, size, read⟩ := run_bind_eq_some read
  obtain ⟨raw, afterIndexes, indexes, read⟩ := run_bind_eq_some read
  rw [readIndexes_eq, Nat.sub_zero] at indexes
  obtain ⟨encoded, length⟩ := run_count_eq_some readIndex_canonical indexes
  split at read
  · cases read
  · rename_i values added
    obtain ⟨rfl, rfl⟩ := run_pure_eq_some read
    refine ⟨raw, ?_, added⟩
    rw [readUInt256_canonical hash, (readCompactSize_canonical size).2, encoded, length]
    simp only [List.append_assoc]

/--
The sums that `addOffsets` returns grow strictly, except right after `65535`,
where the offset wraps to `0`.
-/
theorem addOffsets_isChain : ∀ {offset : UInt16} {raw values : List UInt16},
    addOffsets offset raw = some values → values.IsChain (fun a b => a < b ∨ a = 65535)
  | _, [], _, added => by
      cases added
      exact List.IsChain.nil
  | offset, index :: rest, _, added => by
      obtain ⟨fits, values', added', rfl⟩ := addOffsets_cons_eq_some added
      have chain := addOffsets_isChain added'
      cases rest with
      | nil =>
          cases added'
          exact List.IsChain.singleton _
      | cons index' rest' =>
          obtain ⟨fits', values'', -, rfl⟩ := addOffsets_cons_eq_some added'
          refine List.isChain_cons_cons.2 ⟨?_, chain⟩
          by_cases wraps : index + offset = 65535
          · exact Or.inr wraps
          · left
            rw [UInt16.lt_iff_toNat_lt, toNat_add_offset fits', toNat_add_one wraps]
            omega

/-- A `CompactSize` above 32 bits starts with `255`, and one of at most 16 bits does not. -/
theorem writeCompactSize_append_ne {m n : Nat} (small : m ≤ 0xFFFF) (large : 0xFFFFFFFF < n)
    (rest rest' : List UInt8) : writeCompactSize n ++ rest ≠ writeCompactSize m ++ rest' := by
  rw [writeCompactSize, if_neg (by omega), if_neg (by omega), if_neg (by omega), writeCompactSize]
  split
  · rename_i tiny
    rw [List.cons_append, List.singleton_append]
    intro same
    have byte := congrArg UInt8.toNat (List.cons.inj same).1
    rw [UInt8.toNat_ofNat_of_lt' (by rw [UInt8.size]; omega), show (255 : UInt8).toNat = 255 from rfl] at byte
    omega
  · rw [List.cons_append, List.cons_append]
    intro same
    exact absurd (List.cons.inj same).1 (by decide)

/--
The writer writes back the differences that `addOffsets` added up exactly when
the sums grow strictly.  After a wrap the writer's next difference is
negative, and it goes out as a `CompactSize` of eight bytes, which no 16-bit
difference is.
-/
theorem writeDifferences_addOffsets_iff : ∀ {offset : UInt16} {raw values : List UInt16},
    addOffsets offset raw = some values →
      (writeDifferences offset.toNat values = raw.flatMap (fun d => writeCompactSize d.toNat) ↔
        values.Pairwise (· < ·))
  | _, [], _, added => by
      cases added
      exact ⟨fun _ => List.Pairwise.nil, fun _ => rfl⟩
  | offset, index :: rest, _, added => by
      obtain ⟨fits, values', added', rfl⟩ := addOffsets_cons_eq_some added
      have value := toNat_add_offset fits
      have head : writeDifferences offset.toNat ((index + offset) :: values') =
          writeCompactSize index.toNat ++ writeDifferences ((index + offset).toNat + 1) values' := by
        rw [writeDifferences, value]
        congr 2
        omega
      rw [head, List.flatMap_cons, List.append_cancel_left_eq]
      cases rest with
      | nil =>
          cases added'
          exact ⟨fun _ => List.pairwise_singleton _ _, fun _ => rfl⟩
      | cons index' rest' =>
          have later := writeDifferences_addOffsets_iff added'
          obtain ⟨fits', values'', -, rfl⟩ := addOffsets_cons_eq_some added'
          have top := (index' + (index + offset + 1)).toNat_lt
          by_cases wraps : index + offset = 65535
          · have last : (index + offset).toNat = 65535 := by rw [wraps]; rfl
            rw [writeDifferences, List.flatMap_cons, last]
            refine iff_of_false (writeCompactSize_append_ne (by omega) (by omega) _ _) ?_
            intro increasing
            have less := UInt16.lt_iff_toNat_lt.1
              (List.rel_of_pairwise_cons increasing List.mem_cons_self)
            omega
          · have less : index + offset < index' + (index + offset + 1) := by
              rw [UInt16.lt_iff_toNat_lt, toNat_add_offset fits', toNat_add_one wraps]
              omega
            rw [toNat_add_one wraps, Int.natCast_add, Int.natCast_one] at later
            rw [later]
            constructor
            · intro increasing
              refine List.pairwise_cons.2 ⟨fun other member => ?_, increasing⟩
              rcases List.mem_cons.1 member with rfl | member
              · exact less
              · exact UInt16.lt_trans less (List.rel_of_pairwise_cons increasing member)
            · exact fun increasing => (List.pairwise_cons.1 increasing).2

/--
`unserialize` reads back every strictly increasing list that `serialize`
writes.  What it accepts grows strictly except right after `65535`, and it is
the serialization of the list returned exactly when that list grows strictly.
-/
theorem unserialize_accepts :
    (∀ req : BlockTransactionsRequest, req.indexes.Pairwise (· < ·) →
      Reads BlockTransactionsRequest.unserialize req.serialize req) ∧
    ∀ (input rest : List UInt8) (req : BlockTransactionsRequest),
      BlockTransactionsRequest.unserialize.run input = some (req, rest) →
        req.indexes.IsChain (fun a b => a < b ∨ a = 65535) ∧
          (input = req.serialize ++ rest ↔ req.indexes.Pairwise (· < ·)) := by
  refine ⟨fun _ increasing => reads_serialize_of_increasing increasing, ?_⟩
  intro input rest req read
  obtain ⟨raw, encoded, added⟩ := unserialize_eq_some read
  refine ⟨addOffsets_isChain added, ?_⟩
  have written := writeDifferences_addOffsets_iff added
  rw [UInt16.toNat_zero, Int.natCast_zero] at written
  rw [encoded, BlockTransactionsRequest.serialize, length_addOffsets added]
  simp only [List.append_assoc, List.append_cancel_left_eq]
  rw [List.append_left_inj, eq_comm]
  exact written

/--
The differences `65535` and `0`: the offset wraps to `0` after `65535`, so the
reader returns `[65535, 0]`, which does not grow.
-/
theorem unserialize_wraps :
    BlockTransactionsRequest.unserialize.run (writeUInt256 0 ++ [2, 0xfd, 0xff, 0xff, 0]) =
        some (⟨0, [65535, 0]⟩, []) ∧
      ¬ [(65535 : UInt16), 0].Pairwise (· < ·) := by
  have each : ∀ d ∈ ([65535, 0] : List UInt16), Reads readIndex (writeCompactSize d.toNat) (id d) :=
    fun d _ => reads_readIndex d
  have chunks : Reads (readIndexes 2 0) [0xfd, 0xff, 0xff, 0] [65535, 0] := by
    rw [readIndexes_eq]
    exact ((Reads.count each).of_eq (by decide)).of_value (List.map_id _)
  have finish : Reads (match addOffsets 0 [65535, 0] with
      | none => failure
      | some indexes => pure ⟨0, indexes⟩ : Decoder UInt8 BlockTransactionsRequest)
      [] ⟨0, [65535, 0]⟩ := by
    rw [show addOffsets 0 [65535, 0] = some [65535, 0] by decide]
    exact reads_pure _
  have read : Reads BlockTransactionsRequest.unserialize
      (writeUInt256 0 ++ (writeCompactSize 2 ++ ([0xfd, 0xff, 0xff, 0] ++ []))) ⟨0, [65535, 0]⟩ :=
    (reads_uint256 0).bind ((reads_writeCompactSize (by decide)).bind (chunks.bind finish))
  have done := read []
  rw [show writeCompactSize 2 = [2] by decide, List.append_nil, List.append_nil,
    List.singleton_append] at done
  exact ⟨done, by decide⟩


/-- The request for transactions `1` and `5` reads back from its bytes. -/
theorem unserialize_accepts_twoIndexes :
    Reads BlockTransactionsRequest.unserialize (BlockTransactionsRequest.serialize ⟨0, [1, 5]⟩) ⟨0, [1, 5]⟩ :=
  unserialize_accepts.1 ⟨0, [1, 5]⟩ (by decide)

end Dogecoin.Serialize
