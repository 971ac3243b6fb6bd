import Dogecoin.Serialize.CompactSize
import Mathlib.Tactic.Ring

/-!
# `VARINT`: the variable-length integers of `serialize.h`

`WriteVarInt` stores an integer in groups of seven bits, most significant
group first, with the bit `0x80` set on every byte but the last.  Each group
but the last is stored one less than its value, so that every integer has
exactly one encoding.  `ReadVarInt` undoes this by shifting in seven bits per
byte and adding one after every byte that carries `0x80`.

The writer is one definition for every integer type `I` of the source.  For a
non-negative value it runs the loop of the source; a negative `int` stops the
loop at once (`n <= 0x7F` holds) and is stored as its low seven bits, which is
why a negative `nVersion` does not survive a round trip.  The reader returns
the value that its arithmetic computes without bound; for the bytes that the
writer produced from a value of the type, no shift overflows.
-/

namespace Dogecoin.Serialize

open StreamDecode Dogecoin.Primitives

/-- One byte of `WriteVarInt`: `(n & 0x7F) | (len ? 0x80 : 0x00)`. -/
def varIntByte (marked : Bool) (n : Int) : UInt8 :=
  UInt8.ofNat ((n % 128).toNat ||| if marked then 0x80 else 0)

/--
The bytes that `WriteVarInt` writes for `n` and for the groups above it;
`marked` says that `n` is not the least significant group (`len != 0`).
-/
def writeVarIntFrom (marked : Bool) (n : Int) : List UInt8 :=
  if n ≤ 0x7F then [varIntByte marked n]
  else writeVarIntFrom true (n / 128 - 1) ++ [varIntByte marked n]
termination_by n.toNat
decreasing_by omega

/-- `WriteVarInt`. -/
def writeVarInt (n : Int) : List UInt8 :=
  writeVarIntFrom false n

/-- `ReadVarInt`, continuing from the value `n` read so far. -/
def readVarIntFrom (n : Nat) : Decoder UInt8 Nat := fun input =>
  match input with
  | [] => none
  | chData :: rest =>
      let n := (n <<< 7) ||| (chData.toNat &&& 0x7F)
      if chData.toNat &&& 0x80 ≠ 0 then readVarIntFrom (n + 1) rest else some (n, rest)

/-- `ReadVarInt`. -/
def readVarInt : Decoder UInt8 Nat :=
  readVarIntFrom 0

/--
`ReadVarInt<I>` for an unsigned `I` of `bits` bits, continuing from the value
`n` read so far: the shift, the or and the increment wrap around modulo
`2 ^ bits`.
-/
def readVarIntOfFrom (bits n : Nat) : Decoder UInt8 Nat := fun input =>
  match input with
  | [] => none
  | chData :: rest =>
      let n := ((n <<< 7) ||| (chData.toNat &&& 0x7F)) % 2 ^ bits
      if chData.toNat &&& 0x80 ≠ 0 then readVarIntOfFrom bits ((n + 1) % 2 ^ bits) rest
      else some (n, rest)

/-- `ReadVarInt<I>` for an unsigned `I` of `bits` bits. -/
def readVarIntOf (bits : Nat) : Decoder UInt8 Nat :=
  readVarIntOfFrom bits 0

/-- `GetSizeOfVarInt`: the number of turns of the loop of `WriteVarInt`. -/
def getSizeOfVarInt (n : Int) : Nat :=
  if n ≤ 0x7F then 1 else getSizeOfVarInt (n / 128 - 1) + 1
termination_by n.toNat
decreasing_by omega

/-! ## Bytes -/

/-- A byte of `WriteVarInt` keeps the low seven bits and says whether it is marked. -/
theorem varIntByte_bits (marked : Bool) (n : Int) :
    (varIntByte marked n).toNat &&& 0x7F = (n % 128).toNat ∧
      ((varIntByte marked n).toNat &&& 0x80 ≠ 0 ↔ marked = true) := by
  have low : (n % 128).toNat < 128 := by omega
  have bytes : ∀ v < 128, ∀ marked : Bool,
      (UInt8.ofNat (v ||| if marked then 0x80 else 0)).toNat &&& 0x7F = v ∧
        ((UInt8.ofNat (v ||| if marked then 0x80 else 0)).toNat &&& 0x80 ≠ 0 ↔
          marked = true) := by
    decide
  exact bytes _ low marked

/-- Shifting in the low seven bits of `n` after `n / 128` gives `n` back. -/
theorem shift_or_low {n : Int} (nonneg : 0 ≤ n) :
    ((n / 128).toNat <<< 7) ||| (n % 128).toNat = n.toNat := by
  rw [Nat.shiftLeft_eq, Nat.mul_comm, ← Nat.two_pow_add_eq_or_of_lt (by omega)]
  omega

theorem readVarIntFrom_byte (n : Nat) (marked : Bool) (value : Int) (rest : List UInt8) :
    (readVarIntFrom n).run (varIntByte marked value :: rest) =
      if marked then (readVarIntFrom (((n <<< 7) ||| (value % 128).toNat) + 1)).run rest
      else some ((n <<< 7) ||| (value % 128).toNat, rest) := by
  obtain ⟨low, flag⟩ := varIntByte_bits marked value
  cases marked with
  | false =>
      have unmarked : ¬ (varIntByte false value).toNat &&& 0x80 ≠ 0 := fun set =>
        Bool.false_ne_true (flag.1 set)
      simp only [StateT.run, readVarIntFrom, low, unmarked, if_false, Bool.false_eq_true]
  | true =>
      simp only [StateT.run, readVarIntFrom, low, if_true]
      rw [if_pos (flag.2 rfl)]

/-! ## Round trip -/

/-- Reading the marked groups above a value leaves one more than their value. -/
theorem readVarIntFrom_writeVarIntFrom_true (k : Nat) (rest : List UInt8) :
    (readVarIntFrom 0).run (writeVarIntFrom true k ++ rest) =
      (readVarIntFrom (k + 1)).run rest := by
  induction k using Nat.strong_induction_on generalizing rest with
  | _ k ih =>
      rw [writeVarIntFrom]
      split
      · rename_i small
        rw [List.singleton_append, readVarIntFrom_byte, if_pos rfl, Nat.zero_shiftLeft,
          Nat.zero_or, Int.emod_eq_of_lt (by omega) (by omega), Int.toNat_natCast]
      · rename_i large
        have groups : (k : Int) / 128 - 1 = ((k / 128 - 1 : Nat) : Int) := by omega
        rw [groups, List.append_assoc, List.singleton_append, ih _ (by omega),
          readVarIntFrom_byte, if_pos rfl]
        have above : k / 128 - 1 + 1 = ((k : Int) / 128).toNat := by omega
        rw [above, shift_or_low (by omega), Int.toNat_natCast]

/-- `ReadVarInt` reads back what `WriteVarInt` wrote for a non-negative value. -/
theorem reads_writeVarInt {n : Int} (nonneg : 0 ≤ n) :
    Reads readVarInt (writeVarInt n) n.toNat := by
  intro rest
  rw [readVarInt, writeVarInt, writeVarIntFrom]
  split
  · rename_i small
    rw [List.singleton_append, readVarIntFrom_byte, if_neg Bool.false_ne_true,
      Nat.zero_shiftLeft, Nat.zero_or, Int.emod_eq_of_lt nonneg (by omega)]
  · rename_i large
    have groups : n / 128 - 1 = (((n / 128 - 1).toNat : Nat) : Int) := by omega
    rw [groups, List.append_assoc, List.singleton_append,
      readVarIntFrom_writeVarIntFrom_true, readVarIntFrom_byte, if_neg Bool.false_ne_true]
    have above : (n / 128 - 1).toNat + 1 = (n / 128).toNat := by omega
    rw [above, shift_or_low nonneg]

/-- `WriteVarInt` writes as many bytes as `GetSizeOfVarInt` counts, one for each turn of its loop. -/
theorem length_writeVarIntFrom (marked : Bool) (n : Int) :
    (writeVarIntFrom marked n).length = getSizeOfVarInt n := by
  fun_induction writeVarIntFrom marked n with
  | case1 marked n small =>
      rw [getSizeOfVarInt, if_pos small]
      rfl
  | case2 marked n large ih =>
      rw [getSizeOfVarInt, if_neg large, List.length_append, ih]
      rfl

/-! ## Reading into a type of `bits` bits -/

theorem readVarIntOfFrom_byte (bits n : Nat) (marked : Bool) (value : Int) (rest : List UInt8) :
    (readVarIntOfFrom bits n).run (varIntByte marked value :: rest) =
      if marked then
        (readVarIntOfFrom bits ((((n <<< 7) ||| (value % 128).toNat) % 2 ^ bits + 1) % 2 ^ bits)).run
          rest
      else some (((n <<< 7) ||| (value % 128).toNat) % 2 ^ bits, rest) := by
  obtain ⟨low, flag⟩ := varIntByte_bits marked value
  cases marked with
  | false =>
      have unmarked : ¬ (varIntByte false value).toNat &&& 0x80 ≠ 0 := fun set =>
        Bool.false_ne_true (flag.1 set)
      simp only [StateT.run, readVarIntOfFrom, low, unmarked, if_false, Bool.false_eq_true]
  | true =>
      simp only [StateT.run, readVarIntOfFrom, low, if_true]
      rw [if_pos (flag.2 rfl)]

/--
Reading the marked groups above a value leaves one more than their value; no
step wraps around while that stays below `2 ^ bits`.
-/
theorem readVarIntOfFrom_writeVarIntFrom_true {bits : Nat} (k : Nat) (fits : k + 1 < 2 ^ bits)
    (rest : List UInt8) :
    (readVarIntOfFrom bits 0).run (writeVarIntFrom true k ++ rest) =
      (readVarIntOfFrom bits (k + 1)).run rest := by
  induction k using Nat.strong_induction_on generalizing rest with
  | _ k ih =>
      rw [writeVarIntFrom]
      split
      · rename_i small
        rw [List.singleton_append, readVarIntOfFrom_byte, if_pos rfl, Nat.zero_shiftLeft,
          Nat.zero_or, Int.emod_eq_of_lt (by omega) (by omega), Int.toNat_natCast,
          Nat.mod_eq_of_lt (show k < 2 ^ bits by omega), Nat.mod_eq_of_lt fits]
      · rename_i large
        have groups : (k : Int) / 128 - 1 = ((k / 128 - 1 : Nat) : Int) := by omega
        rw [groups, List.append_assoc, List.singleton_append, ih (k / 128 - 1) (by omega) (by omega),
          readVarIntOfFrom_byte, if_pos rfl]
        have above : k / 128 - 1 + 1 = ((k : Int) / 128).toNat := by omega
        rw [above, shift_or_low (by omega), Int.toNat_natCast,
          Nat.mod_eq_of_lt (show k < 2 ^ bits by omega), Nat.mod_eq_of_lt fits]

/-- `ReadVarInt<I>` reads back what `WriteVarInt<I>` wrote for every value of an unsigned `I` of `bits` bits. -/
theorem reads_readVarIntOf {bits : Nat} {n : Int} (nonneg : 0 ≤ n) (fits : n.toNat < 2 ^ bits) :
    Reads (readVarIntOf bits) (writeVarInt n) n.toNat := by
  intro rest
  rw [readVarIntOf, writeVarInt, writeVarIntFrom]
  split
  · rename_i small
    rw [List.singleton_append, readVarIntOfFrom_byte, if_neg Bool.false_ne_true,
      Nat.zero_shiftLeft, Nat.zero_or, Int.emod_eq_of_lt nonneg (by omega), Nat.mod_eq_of_lt fits]
  · rename_i large
    have groups : n / 128 - 1 = (((n / 128 - 1).toNat : Nat) : Int) := by omega
    rw [groups, List.append_assoc, List.singleton_append,
      readVarIntOfFrom_writeVarIntFrom_true _ (by omega), readVarIntOfFrom_byte,
      if_neg Bool.false_ne_true]
    have above : (n / 128 - 1).toNat + 1 = (n / 128).toNat := by omega
    rw [above, shift_or_low nonneg, Nat.mod_eq_of_lt fits]

/-- Two values at least zero with the same encoding are equal. -/
theorem writeVarInt_injective {a b : Int} (nonnegA : 0 ≤ a) (nonnegB : 0 ≤ b)
    (same : writeVarInt a = writeVarInt b) : a = b := by
  have readA := reads_writeVarInt nonnegA []
  have readB := reads_writeVarInt nonnegB []
  rw [same, readB] at readA
  have values : b.toNat = a.toNat := (Prod.mk.inj (Option.some.inj readA)).1
  omega

/-- What `ReadVarInt` returns for the bytes that `WriteVarInt` wrote for `n`. -/
def readBack (n : Int) : Nat :=
  if 0 ≤ n then n.toNat else (n % 128).toNat

/-- A negative value is stored as its low seven bits alone. -/
theorem reads_writeVarInt_of_neg {n : Int} (negative : n < 0) :
    Reads readVarInt (writeVarInt n) (n % 128).toNat := by
  intro rest
  rw [readVarInt, writeVarInt, writeVarIntFrom, if_pos (by omega), List.singleton_append,
    readVarIntFrom_byte, if_neg Bool.false_ne_true, Nat.zero_shiftLeft, Nat.zero_or]

theorem reads_writeVarInt_readBack (n : Int) : Reads readVarInt (writeVarInt n) (readBack n) := by
  unfold readBack
  split
  · rename_i nonneg
    exact reads_writeVarInt nonneg
  · rename_i negative
    exact reads_writeVarInt_of_neg (by omega)

/-- A value below `0x80` is the single byte that holds it. -/
theorem writeVarInt_of_lt {n : Int} (nonneg : 0 ≤ n) (small : n < 128) :
    writeVarInt n = [UInt8.ofNat n.toNat] := by
  rw [writeVarInt, writeVarIntFrom, if_pos (by omega), varIntByte,
    Int.emod_eq_of_lt nonneg small]
  simp

/--
The two integer codes of `serialize.h`.  For every value `n` of an unsigned
type of `bits` bits `WriteVarInt` writes `GetSizeOfVarInt n` bytes and
`ReadVarInt` reads `n` back from exactly them, without a shift that wraps
around (a signed type of `bits + 1` bits holds its non-negative values among
them); values at least zero have distinct encodings.  `WriteCompactSize`
writes `GetSizeOfCompactSize n` bytes, `ReadCompactSize` reads back every
length up to `MAX_SIZE`, and it accepts nothing but the writer's encoding of
such a length.
-/
theorem varInt_compactSize_exact :
    (∀ bits : Nat, ∀ n : Int, 0 ≤ n → n.toNat < 2 ^ bits →
      (writeVarInt n).length = getSizeOfVarInt n ∧
        Reads (readVarIntOf bits) (writeVarInt n) n.toNat) ∧
    (∀ a b : Int, 0 ≤ a → 0 ≤ b → writeVarInt a = writeVarInt b → a = b) ∧
    (∀ n : Nat, n ≤ MAX_SIZE →
      (writeCompactSize n).length = getSizeOfCompactSize n ∧
        Reads readCompactSize (writeCompactSize n) n) ∧
    ∀ (input rest : List UInt8) (n : Nat), readCompactSize.run input = some (n, rest) →
      n ≤ MAX_SIZE ∧ input = writeCompactSize n ++ rest :=
  ⟨fun _ _ nonneg fits => ⟨length_writeVarIntFrom false _, reads_readVarIntOf nonneg fits⟩,
    fun _ _ nonnegA nonnegB same => writeVarInt_injective nonnegA nonnegB same,
    fun n bounded => ⟨length_writeCompactSize n, reads_writeCompactSize bounded⟩,
    fun _ _ _ read => readCompactSize_canonical read⟩

/-- The codes at the first two-byte values: `16511` as a `VARINT` of a 16-bit type, `253` as a `CompactSize`;
by injectivity, `300` and `301` have different codes. -/
theorem varInt_compactSize_exact_boundaries :
    ((writeVarInt 16511).length = getSizeOfVarInt 16511 ∧
      Reads (readVarIntOf 16) (writeVarInt 16511) 16511) ∧
    writeVarInt 300 ≠ writeVarInt 301 ∧
    ((writeCompactSize 253).length = getSizeOfCompactSize 253 ∧
      Reads readCompactSize (writeCompactSize 253) 253) ∧
    (253 ≤ MAX_SIZE ∧ [253, 253, 0] = writeCompactSize 253 ++ []) :=
  ⟨varInt_compactSize_exact.1 16 16511 (by decide) (by decide),
    fun same => absurd (varInt_compactSize_exact.2.1 300 301 (by decide) (by decide) same) (by decide),
    varInt_compactSize_exact.2.2.1 253 (by decide),
    varInt_compactSize_exact.2.2.2 [253, 253, 0] [] 253 rfl⟩

end Dogecoin.Serialize
