import Dogecoin.Lib.LittleEndian
import Dogecoin.Primitives.Transaction

/-!
# `CompactSize` and the serialization of vectors

`WriteCompactSize` (src/src/serialize.h) stores a length in one byte below
`253`, and otherwise as a marker byte followed by the length in two, four or
eight little-endian bytes.  `ReadCompactSize` rejects an encoding that a
shorter form could hold and a length above `MAX_SIZE`.  A vector is its length
followed by its elements.

The reader fails where the source throws `std::ios_base::failure`; the texts of
those exceptions are not kept.
-/

namespace Dogecoin.Serialize

open StreamDecode LittleEndian Dogecoin.Primitives

/-- `MAX_SIZE` (serialize.h): the largest length `ReadCompactSize` accepts. -/
def MAX_SIZE : Nat := 0x02000000

/-- `WriteCompactSize`. -/
def writeCompactSize (nSize : Nat) : List UInt8 :=
  if nSize < 253 then [UInt8.ofNat nSize]
  else if nSize ≤ 0xFFFF then 253 :: leBytes 2 nSize
  else if nSize ≤ 0xFFFFFFFF then 254 :: leBytes 4 nSize
  else 255 :: leBytes 8 nSize

/-- Read a wide length and reject it when it is below `least`: "non-canonical ReadCompactSize()". -/
def readCanonical (width least : Nat) : Decoder UInt8 Nat := do
  let nSizeRet ← readLE width
  if nSizeRet < least then failure else pure nSizeRet

/-- `ReadCompactSize`. -/
def readCompactSize : Decoder UInt8 Nat := do
  let chSize ← token
  let nSizeRet ←
    if chSize.toNat < 253 then pure chSize.toNat
    else if chSize.toNat = 253 then readCanonical 2 253
    else if chSize.toNat = 254 then readCanonical 4 0x10000
    else readCanonical 8 0x100000000
  -- "ReadCompactSize(): size too large"
  if nSizeRet > MAX_SIZE then failure else pure nSizeRet

/-- The serialization of a `std::vector`: its size, then its elements. -/
def writeVector {α : Type} (writeItem : α → List UInt8) (v : List α) : List UInt8 :=
  writeCompactSize v.length ++ v.flatMap writeItem

/-- The deserialization of a `std::vector`: read its size, then that many elements. -/
def readVector {α : Type} (readItem : Decoder UInt8 α) : Decoder UInt8 (List α) := do
  let nSize ← readCompactSize
  count nSize readItem

/-! ## Round trips -/

theorem reads_readCanonical {width least n : Nat} (small : n < 256 ^ width) (canonical : least ≤ n) :
    Reads (readCanonical width least) (leBytes width n) n := by
  rw [← List.append_nil (leBytes width n)]
  have read := reads_readLE width n
  rw [Nat.mod_eq_of_lt small] at read
  apply read.bind
  rw [if_neg (Nat.not_lt.2 canonical)]
  exact reads_pure n

/-- A length within `MAX_SIZE` passes the final check of `ReadCompactSize`. -/
theorem reads_checked {branch : Decoder UInt8 Nat} {encoded : List UInt8} {n : Nat}
    (read : Reads branch encoded n) (bounded : n ≤ MAX_SIZE) :
    Reads (branch >>= fun nSizeRet => if nSizeRet > MAX_SIZE then failure else pure nSizeRet)
      encoded n := by
  rw [← List.append_nil encoded]
  apply read.bind
  rw [if_neg (Nat.not_lt.2 bounded)]
  exact reads_pure n

theorem reads_writeCompactSize {n : Nat} (bounded : n ≤ MAX_SIZE) :
    Reads readCompactSize (writeCompactSize n) n := by
  unfold writeCompactSize readCompactSize
  by_cases tiny : n < 253
  · rw [if_pos tiny]
    refine Reads.of_eq ((reads_token (UInt8.ofNat n)).bind ?_) (List.append_nil _)
    have small : (UInt8.ofNat n).toNat = n := UInt8.toNat_ofNat_of_lt' (Nat.lt_trans tiny (by decide))
    dsimp only
    rw [small, if_pos tiny]
    exact reads_checked (reads_pure n) bounded
  by_cases short : n ≤ 0xFFFF
  · rw [if_neg tiny, if_pos short]
    refine (reads_token 253).bind ?_
    dsimp only
    rw [if_neg (by decide), if_pos (by decide)]
    exact reads_checked (reads_readCanonical (by omega) (by omega)) bounded
  · have fits : n ≤ 0xFFFFFFFF := by
      unfold MAX_SIZE at bounded
      omega
    rw [if_neg tiny, if_neg short, if_pos fits]
    refine (reads_token 254).bind ?_
    dsimp only
    rw [if_neg (by decide), if_neg (by decide), if_pos (by decide)]
    exact reads_checked (reads_readCanonical (by omega) (by omega)) bounded

/-- `WriteCompactSize` writes as many bytes as `GetSizeOfCompactSize` counts. -/
theorem length_writeCompactSize (n : Nat) :
    (writeCompactSize n).length = getSizeOfCompactSize n := by
  unfold writeCompactSize getSizeOfCompactSize
  split
  · rfl
  · split
    · rw [List.length_cons, length_leBytes]
    · split
      · rw [List.length_cons, length_leBytes]
      · rw [List.length_cons, length_leBytes]

/-! ## Canonical forms -/

/-- What `readCanonical` accepts is the bytes of a number of the width at least `least`. -/
theorem readCanonical_eq_some {width least n : Nat} {input rest : List UInt8}
    (read : (readCanonical width least).run input = some (n, rest)) :
    input = leBytes width n ++ rest ∧ least ≤ n ∧ n < 256 ^ width := by
  unfold readCanonical at read
  rw [StateT.run_bind] at read
  cases wide : (readLE width).run input with
  | none =>
      rw [wide] at read
      cases read
  | some result =>
      obtain ⟨value, rest'⟩ := result
      obtain ⟨bytes, bound⟩ := readLE_eq_some wide
      rw [wide, Option.bind_eq_bind, Option.bind_some] at read
      dsimp only at read
      split at read
      · cases read
      · rename_i canonical
        cases read
        exact ⟨bytes, Nat.not_lt.1 canonical, bound⟩

/-- A length that passes the final check of `ReadCompactSize` is at most `MAX_SIZE`. -/
theorem checked_eq_some {branch : Decoder UInt8 Nat} {input rest : List UInt8} {n : Nat}
    (read : (branch >>= fun nSizeRet => if nSizeRet > MAX_SIZE then failure else pure nSizeRet).run
      input = some (n, rest)) :
    branch.run input = some (n, rest) ∧ n ≤ MAX_SIZE := by
  rw [StateT.run_bind] at read
  cases first : branch.run input with
  | none =>
      rw [first] at read
      cases read
  | some result =>
      obtain ⟨value, rest'⟩ := result
      rw [first, Option.bind_eq_bind, Option.bind_some] at read
      dsimp only at read
      split at read
      · cases read
      · rename_i bounded
        cases read
        exact ⟨rfl, Nat.not_lt.1 bounded⟩

/--
`ReadCompactSize` accepts only what `WriteCompactSize` writes: every input it
reads a length from begins with the encoding of that length, and the length
is at most `MAX_SIZE`.  A longer form than the writer's, and a length above
`MAX_SIZE`, are rejected.
-/
theorem readCompactSize_canonical {n : Nat} {input rest : List UInt8}
    (read : readCompactSize.run input = some (n, rest)) :
    n ≤ MAX_SIZE ∧ input = writeCompactSize n ++ rest := by
  unfold readCompactSize at read
  rw [StateT.run_bind] at read
  cases input with
  | nil => cases read
  | cons chSize tail =>
      rw [show token.run (chSize :: tail) = some (chSize, tail) from rfl, Option.bind_eq_bind,
        Option.bind_some] at read
      dsimp only at read
      have top := chSize.toNat_lt
      split at read
      · rename_i tiny
        obtain ⟨branch, bounded⟩ := checked_eq_some read
        cases branch
        have byte : UInt8.ofNat chSize.toNat = chSize := UInt8.ofNat_toNat
        exact ⟨bounded, by rw [writeCompactSize, if_pos tiny, byte, List.singleton_append]⟩
      · split at read
        · rename_i marker
          obtain ⟨branch, bounded⟩ := checked_eq_some read
          obtain ⟨bytes, least, below⟩ := readCanonical_eq_some branch
          have first : chSize = 253 := UInt8.toNat.inj marker
          refine ⟨bounded, ?_⟩
          rw [writeCompactSize, if_neg (by omega), if_pos (by omega), first, bytes, List.cons_append]
        · split at read
          · rename_i marker
            obtain ⟨branch, bounded⟩ := checked_eq_some read
            obtain ⟨bytes, least, below⟩ := readCanonical_eq_some branch
            have first : chSize = 254 := UInt8.toNat.inj marker
            refine ⟨bounded, ?_⟩
            rw [writeCompactSize, if_neg (by omega), if_neg (by omega), if_pos (by omega), first,
              bytes, List.cons_append]
          · obtain ⟨branch, bounded⟩ := checked_eq_some read
            obtain ⟨-, least, -⟩ := readCanonical_eq_some branch
            unfold MAX_SIZE at bounded
            omega

/-- `ReadCompactSize` rejects a length above `MAX_SIZE` that `WriteCompactSize` wrote in four bytes. -/
theorem readCompactSize_of_gt {n : Nat} (large : MAX_SIZE < n) (fits : n ≤ 0xFFFFFFFF)
    (rest : List UInt8) : readCompactSize.run (writeCompactSize n ++ rest) = none := by
  have wide : 0xFFFF < n := by
    unfold MAX_SIZE at large
    omega
  unfold readCompactSize
  rw [writeCompactSize, if_neg (by omega), if_neg (by omega), if_pos fits, List.cons_append,
    ← List.singleton_append, (reads_token 254).run_bind]
  dsimp only
  rw [if_neg (by decide), if_neg (by decide), if_pos (by decide),
    (reads_readCanonical (by omega) (by omega)).run_bind, if_pos large]
  rfl

/-- A vector within `MAX_SIZE` whose elements are read back is read back. -/
theorem reads_writeVector {α β : Type} {writeItem : α → List UInt8} {readItem : Decoder UInt8 β}
    {decode : α → β} {v : List α} (bounded : v.length ≤ MAX_SIZE)
    (each : ∀ item ∈ v, Reads readItem (writeItem item) (decode item)) :
    Reads (readVector readItem) (writeVector writeItem v) (v.map decode) :=
  (reads_writeCompactSize bounded).bind (Reads.count each)

end Dogecoin.Serialize
