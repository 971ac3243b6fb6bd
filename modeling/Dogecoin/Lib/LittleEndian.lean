import Dogecoin.Lib.Decode

/-!
# Little-endian integers of a fixed width

`leBytes width n` are the `width` low bytes of `n`, least significant first,
and `leValue` reads a list of bytes back as a number.  Reading the bytes of
`n` gives `n` modulo `256 ^ width`; the decoder that takes `width` bytes reads
them back whatever follows.
-/

namespace LittleEndian

open StreamDecode

/-- The `width` low bytes of `n`, least significant first. -/
def leBytes : Nat → Nat → List UInt8
  | 0, _ => []
  | width + 1, n => UInt8.ofNat n :: leBytes width (n / 256)

/-- The number whose little-endian bytes are `bytes`. -/
def leValue : List UInt8 → Nat
  | [] => 0
  | byte :: rest => byte.toNat + 256 * leValue rest

@[simp]
theorem length_leBytes : ∀ width n, (leBytes width n).length = width
  | 0, _ => rfl
  | width + 1, n => by rw [leBytes, List.length_cons, length_leBytes width]

theorem leValue_leBytes : ∀ width n, leValue (leBytes width n) = n % 256 ^ width
  | 0, n => by rw [leBytes, leValue, Nat.pow_zero, Nat.mod_one]
  | width + 1, n => by
      rw [leBytes, leValue, leValue_leBytes width, UInt8.toNat_ofNat',
        @Nat.pow_succ' 256 width, Nat.mod_mul]

theorem leValue_lt : ∀ bytes : List UInt8, leValue bytes < 256 ^ bytes.length
  | [] => by simp [leValue]
  | byte :: rest => by
      have below := leValue_lt rest
      have top := byte.toNat_lt
      simp only [leValue, List.length_cons, Nat.pow_succ]
      omega

/-- A last byte counts `256 ^ position` times its value. -/
theorem leValue_append_singleton (bytes : List UInt8) (byte : UInt8) :
    leValue (bytes ++ [byte]) = leValue bytes + 256 ^ bytes.length * byte.toNat := by
  induction bytes with
  | nil => simp [leValue]
  | cons first rest ih =>
      simp only [List.cons_append, leValue, ih, List.length_cons, Nat.pow_succ', Nat.mul_add,
        Nat.mul_assoc, Nat.add_assoc]

/-- The bytes of `high` count `256 ^ low.length` times their value above those of `low`. -/
theorem leValue_append : ∀ low high : List UInt8,
    leValue (low ++ high) = leValue low + 256 ^ low.length * leValue high
  | [], high => by rw [List.nil_append, leValue, List.length_nil, Nat.pow_zero, Nat.one_mul, Nat.zero_add]
  | byte :: rest, high => by
      rw [List.cons_append, leValue, leValue, leValue_append rest high, List.length_cons, Nat.pow_succ',
        Nat.mul_add, Nat.mul_assoc, Nat.add_assoc]

theorem leValue_replicate_zero : ∀ k : Nat, leValue (List.replicate k 0) = 0
  | 0 => rfl
  | k + 1 => by rw [List.replicate_succ, leValue, leValue_replicate_zero k]; rfl

/-- A number below `2 ^ (k + 1)` whose bit `k` is clear is below `2 ^ k`. -/
theorem lt_of_and_two_pow_eq_zero {n k : Nat} (lt : n < 2 ^ (k + 1)) (clear : n &&& 2 ^ k = 0) :
    n < 2 ^ k := by
  apply Nat.lt_pow_two_of_testBit
  intro i le
  rcases Nat.eq_or_lt_of_le le with rfl | gt
  · have top := Nat.testBit_and n (2 ^ k) k
    rw [clear, Nat.testBit_two_pow_self, Nat.zero_testBit, Bool.and_true] at top
    exact top.symm
  · exact Nat.testBit_lt_two_pow (Nat.lt_of_lt_of_le lt (Nat.pow_le_pow_right (by decide) gt))

/-- Read `width` bytes as a little-endian number. -/
def readLE (width : Nat) : Decoder UInt8 Nat :=
  leValue <$> take width

theorem reads_readLE (width n : Nat) :
    Reads (readLE width) (leBytes width n) (n % 256 ^ width) := by
  have taken := reads_take (leBytes width n)
  rw [length_leBytes] at taken
  have read := taken.map leValue
  rwa [leValue_leBytes] at read

theorem reads_readLE_of_lt {width n : Nat} (small : n < 256 ^ width) :
    Reads (readLE width) (leBytes width n) n := by
  have read := reads_readLE width n
  rwa [Nat.mod_eq_of_lt small] at read

/-- Bytes are the little-endian bytes of the number they hold. -/
theorem leBytes_leValue : ∀ bytes : List UInt8, leBytes bytes.length (leValue bytes) = bytes
  | [] => rfl
  | byte :: rest => by
      have top := byte.toNat_lt
      have low : UInt8.ofNat (byte.toNat + 256 * leValue rest) = byte := by
        apply UInt8.toNat.inj
        rw [UInt8.toNat_ofNat']
        omega
      have high : (byte.toNat + 256 * leValue rest) / 256 = leValue rest := by omega
      rw [List.length_cons, leBytes, leValue, low, high, leBytes_leValue rest]

/-- What `readLE` accepts is the bytes of the number it returns. -/
theorem readLE_eq_some {width n : Nat} {input rest : List UInt8}
    (read : (readLE width).run input = some (n, rest)) :
    input = leBytes width n ++ rest ∧ n < 256 ^ width := by
  unfold readLE at read
  rw [StateT.run_map] at read
  unfold take at read
  dsimp only [StateT.run] at read
  split at read
  · rename_i enough
    simp only [Option.map_eq_map, Option.map_some, Option.some.injEq, Prod.mk.injEq] at read
    obtain ⟨rfl, rfl⟩ := read
    have length : (input.take width).length = width := List.length_take_of_le enough
    constructor
    · nth_rewrite 1 [← length]
      rw [leBytes_leValue, List.take_append_drop]
    · have below := leValue_lt (input.take width)
      rwa [length] at below
  · cases read

end LittleEndian
