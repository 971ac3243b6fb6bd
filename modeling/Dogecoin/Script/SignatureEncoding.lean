import Dogecoin.Script.Interpreter
import Mathlib.Data.List.Basic
import Mathlib.Data.List.GetD
import Mathlib.Data.Nat.Bitwise

/-!
# The strict DER encoding of signatures

`IsValidSignatureEncoding` (BIP66) checks that a signature is
`0x30 [total-length] 0x02 [R-length] [R] 0x02 [S-length] [S] [sighash]`: the
total length counts the bytes after it without the hash type, and `R` and
`S` are positive big-endian integers without unneeded leading zero bytes.
It reads the two lengths from positions that the signature itself gives, so
the checks on sizes come first and every later index lies inside the
signature.

`StrictDer` is that grammar, written as the concatenation of its fields, and
`isValidSignatureEncoding_iff` says that the check accepts exactly its
sentences.  The proof reads the bytes of a concatenation at the positions the
check reads (`getD_der_R`, `getD_der_S` and the bytes between them), and
splits an accepted signature at the positions its two lengths give
(`eq_der_of_length`).
-/

namespace Dogecoin.Script

/-- An integer of a strict DER signature: not empty, not negative, and without
a leading zero byte unless the byte after it has its top bit set. -/
def DerInteger (v : valtype) : Prop :=
  v ≠ [] ∧ (v.getD 0 0).toNat < 128 ∧ (1 < v.length → (v.getD 0 0).toNat = 0 → 128 ≤ (v.getD 1 0).toNat)

/-- The strict DER grammar of a signature followed by its hash type. -/
def StrictDer (sig : valtype) : Prop :=
  9 ≤ sig.length ∧ sig.length ≤ 73 ∧
    ∃ R S h, sig = [0x30, UInt8.ofNat (sig.length - 3), 0x02, UInt8.ofNat R.length] ++ R ++
        [0x02, UInt8.ofNat S.length] ++ S ++ [h] ∧ DerInteger R ∧ DerInteger S

/-! ## The checks one by one -/

theorem and_128_eq_zero_iff {n : Nat} (byte : n < 256) : n &&& 128 = 0 ↔ n < 128 := by
  have bits : n &&& 2 ^ 7 = (n.testBit 7).toNat * 2 ^ 7 := Nat.and_two_pow n 7
  rw [Nat.testBit_eq_decide_div_mod_eq] at bits
  change n &&& 128 = _ at bits
  rw [bits]
  by_cases set : n / 2 ^ 7 % 2 = 1
  · rw [decide_eq_true set]
    exact iff_of_false (by decide) (by omega)
  · rw [decide_eq_false set]
    exact iff_of_true rfl (by omega)

/--
`IsValidSignatureEncoding` as the conjunction of its checks, with the two
lengths it reads named `lenR` and `lenS`.
-/
theorem isValidSignatureEncoding_eq_true_iff {sig : valtype} {lenR lenS : Nat}
    (rLength : (sig.getD 3 0).toNat = lenR) (sLength : (sig.getD (5 + lenR) 0).toNat = lenS) :
    isValidSignatureEncoding sig = true ↔
      9 ≤ sig.length ∧ sig.length ≤ 73 ∧ (sig.getD 0 0).toNat = 0x30 ∧
      (sig.getD 1 0).toNat = sig.length - 3 ∧ 5 + lenR < sig.length ∧ lenR + lenS + 7 = sig.length ∧
      (sig.getD 2 0).toNat = 0x02 ∧ 0 < lenR ∧ (sig.getD 4 0).toNat < 128 ∧
      (1 < lenR → (sig.getD 4 0).toNat = 0 → 128 ≤ (sig.getD 5 0).toNat) ∧
      (sig.getD (lenR + 4) 0).toNat = 0x02 ∧ 0 < lenS ∧ (sig.getD (lenR + 6) 0).toNat < 128 ∧
      (1 < lenS → (sig.getD (lenR + 6) 0).toNat = 0 → 128 ≤ (sig.getD (lenR + 7) 0).toNat) := by
  subst rLength sLength
  unfold isValidSignatureEncoding
  simp only [Bool.ite_eq_true_distrib, Bool.false_eq_true, if_false_left, if_true_right]
  simp only [ne_eq, not_not, not_lt, gt_iff_lt, ge_iff_le, not_and, Nat.pos_iff_ne_zero,
    and_128_eq_zero_iff (UInt8.toNat_lt _), Nat.not_le, imp_false]

/-! ## The bytes of a concatenation of the fields -/

/-- Reading past a prefix of known length. -/
theorem getD_append_add {α : Type} (l l' : List α) (d : α) (n : Nat) (length : l.length = n) (i : Nat) :
    (l ++ l').getD (n + i) d = l'.getD i d := by
  subst length
  rw [List.getD_append_right l l' d _ (Nat.le_add_right _ _), Nat.add_sub_cancel_left]

section Layout

variable {a0 a1 a2 a3 b0 b1 h : UInt8} {R S : valtype}

theorem length_der :
    ([a0, a1, a2, a3] ++ R ++ [b0, b1] ++ S ++ [h]).length = R.length + S.length + 7 := by
  simp only [List.length_append, List.length_cons, List.length_nil]
  omega

/-- The fields associated to the right, so that each is read past the ones before it. -/
theorem der_eq_append :
    [a0, a1, a2, a3] ++ R ++ [b0, b1] ++ S ++ [h] = [a0, a1, a2, a3] ++ (R ++ ([b0, b1] ++ (S ++ [h]))) := by
  simp only [List.append_assoc]

theorem getD_der_zero : ([a0, a1, a2, a3] ++ R ++ [b0, b1] ++ S ++ [h]).getD 0 0 = a0 := rfl

theorem getD_der_one : ([a0, a1, a2, a3] ++ R ++ [b0, b1] ++ S ++ [h]).getD 1 0 = a1 := rfl

theorem getD_der_two : ([a0, a1, a2, a3] ++ R ++ [b0, b1] ++ S ++ [h]).getD 2 0 = a2 := rfl

theorem getD_der_three : ([a0, a1, a2, a3] ++ R ++ [b0, b1] ++ S ++ [h]).getD 3 0 = a3 := rfl

theorem getD_der_R {i k : Nat} (position : k = 4 + i) (inside : i < R.length) :
    ([a0, a1, a2, a3] ++ R ++ [b0, b1] ++ S ++ [h]).getD k 0 = R.getD i 0 := by
  rw [der_eq_append, position, getD_append_add [a0, a1, a2, a3] _ 0 4 rfl, List.getD_append _ _ _ _ inside]

theorem getD_der_b0 : ([a0, a1, a2, a3] ++ R ++ [b0, b1] ++ S ++ [h]).getD (R.length + 4) 0 = b0 := by
  rw [der_eq_append, Nat.add_comm, getD_append_add [a0, a1, a2, a3] _ 0 4 rfl]
  exact getD_append_add R _ 0 _ rfl 0

theorem getD_der_b1 : ([a0, a1, a2, a3] ++ R ++ [b0, b1] ++ S ++ [h]).getD (5 + R.length) 0 = b1 := by
  rw [der_eq_append, show 5 + R.length = 4 + (R.length + 1) by omega,
    getD_append_add [a0, a1, a2, a3] _ 0 4 rfl]
  exact getD_append_add R _ 0 _ rfl 1

theorem getD_der_S {j k : Nat} (position : k = R.length + 6 + j) (inside : j < S.length) :
    ([a0, a1, a2, a3] ++ R ++ [b0, b1] ++ S ++ [h]).getD k 0 = S.getD j 0 := by
  rw [der_eq_append, position, show R.length + 6 + j = 4 + (R.length + (2 + j)) by omega,
    getD_append_add [a0, a1, a2, a3] _ 0 4 rfl, getD_append_add R _ 0 _ rfl,
    getD_append_add [b0, b1] _ 0 2 rfl, List.getD_append _ _ _ _ inside]

end Layout

/-- A list splits at any position up to its length. -/
theorem exists_split {α : Type} {l : List α} {n k : Nat} (length : l.length = n + k) :
    ∃ front back, l = front ++ back ∧ front.length = n ∧ back.length = k :=
  ⟨l.take n, l.drop n, (List.take_append_drop n l).symm, by rw [List.length_take]; omega,
    by rw [List.length_drop]; omega⟩

/-- A list whose length is that of two fields and the seven other bytes splits into them. -/
theorem eq_der_of_length {sig : valtype} {lenR lenS : Nat} (sum : lenR + lenS + 7 = sig.length) :
    ∃ a0 a1 a2 a3 R b0 b1 S h, sig = [a0, a1, a2, a3] ++ R ++ [b0, b1] ++ S ++ [h] ∧
      R.length = lenR ∧ S.length = lenS := by
  obtain ⟨front, rest, rfl, frontLength, restLength⟩ := exists_split (l := sig) (n := 4) (k := lenR + lenS + 3)
    (by omega)
  obtain ⟨a0, a1, a2, a3, rfl⟩ := List.length_eq_four.1 frontLength
  obtain ⟨R, afterR, rfl, rLength, afterRLength⟩ := exists_split (n := lenR) (k := lenS + 3) restLength
  obtain ⟨lengths, afterLengths, rfl, lengthsLength, tailLength⟩ :=
    exists_split (l := afterR) (n := 2) (k := lenS + 1) (by omega)
  obtain ⟨b0, b1, rfl⟩ := List.length_eq_two.1 lengthsLength
  obtain ⟨S, last, rfl, sLength, lastLength⟩ := exists_split (n := lenS) (k := 1) tailLength
  obtain ⟨h, rfl⟩ := List.length_eq_one_iff.1 lastLength
  exact ⟨a0, a1, a2, a3, R, b0, b1, S, h, by simp only [List.append_assoc], rLength, sLength⟩

/-- A byte is the one of its value. -/
theorem eq_ofNat_of_toNat_eq {byte : UInt8} {n : Nat} (value : byte.toNat = n) : byte = UInt8.ofNat n := by
  rw [← value, UInt8.ofNat_toNat]

/-! ## The check accepts exactly the grammar -/

theorem strictDer_of_isValidSignatureEncoding {sig : valtype} (valid : isValidSignatureEncoding sig = true) :
    StrictDer sig := by
  obtain ⟨lenR, rLength⟩ : ∃ n, (sig.getD 3 0).toNat = n := ⟨_, rfl⟩
  obtain ⟨lenS, sLength⟩ : ∃ n, (sig.getD (5 + lenR) 0).toNat = n := ⟨_, rfl⟩
  obtain ⟨lo, hi, tag, total, -, sum, rTag, rPos, r0, r1, sTag, sPos, s0, s1⟩ :=
    (isValidSignatureEncoding_eq_true_iff rLength sLength).1 valid
  obtain ⟨a0, a1, a2, a3, R, b0, b1, S, h, rfl, rfl, rfl⟩ := eq_der_of_length sum
  rw [getD_der_zero] at tag
  rw [getD_der_one, length_der] at total
  rw [getD_der_two] at rTag
  rw [getD_der_three] at rLength
  rw [getD_der_b0] at sTag
  rw [getD_der_b1] at sLength
  rw [getD_der_R (show 4 = 4 + 0 from rfl) rPos] at r0
  rw [getD_der_S (show R.length + 6 = R.length + 6 + 0 from rfl) sPos] at s0
  obtain rfl := eq_ofNat_of_toNat_eq tag
  obtain rfl := eq_ofNat_of_toNat_eq total
  obtain rfl := eq_ofNat_of_toNat_eq rTag
  obtain rfl := eq_ofNat_of_toNat_eq rLength
  obtain rfl := eq_ofNat_of_toNat_eq sTag
  obtain rfl := eq_ofNat_of_toNat_eq sLength
  refine ⟨lo, hi, R, S, h, by rw [length_der]; rfl, ⟨List.ne_nil_of_length_pos rPos, r0, fun long zero => ?_⟩,
    ⟨List.ne_nil_of_length_pos sPos, s0, fun long zero => ?_⟩⟩
  · rw [getD_der_R (show 4 = 4 + 0 from rfl) rPos, getD_der_R (show 5 = 4 + 1 from rfl) long] at r1
    exact r1 long zero
  · rw [getD_der_S (show R.length + 6 = R.length + 6 + 0 from rfl) sPos,
      getD_der_S (show R.length + 7 = R.length + 6 + 1 from rfl) long] at s1
    exact s1 long zero

theorem isValidSignatureEncoding_of_strictDer {sig : valtype} (der : StrictDer sig) :
    isValidSignatureEncoding sig = true := by
  obtain ⟨lo, hi, R, S, h, layout, ⟨rNonempty, r0, r1⟩, ⟨sNonempty, s0, s1⟩⟩ := der
  have total : sig.length = R.length + S.length + 7 := (congrArg List.length layout).trans length_der
  have bytes (k : Nat) := congrFun (congrFun (congrArg List.getD layout) k) 0
  have rPos : 0 < R.length := List.length_pos_of_ne_nil rNonempty
  have sPos : 0 < S.length := List.length_pos_of_ne_nil sNonempty
  have rLength : (sig.getD 3 0).toNat = R.length := by
    rw [bytes, getD_der_three]
    exact UInt8.toNat_ofNat_of_lt' (show R.length < 256 by omega)
  have sLength : (sig.getD (5 + R.length) 0).toNat = S.length := by
    rw [bytes, getD_der_b1]
    exact UInt8.toNat_ofNat_of_lt' (show S.length < 256 by omega)
  refine (isValidSignatureEncoding_eq_true_iff rLength sLength).2
    ⟨lo, hi, ?_, ?_, by omega, total.symm, ?_, rPos, ?_, fun long zero => ?_, ?_, sPos, ?_,
      fun long zero => ?_⟩
  · rw [bytes, getD_der_zero]
    rfl
  · rw [bytes, getD_der_one]
    exact UInt8.toNat_ofNat_of_lt' (show sig.length - 3 < 256 by omega)
  · rw [bytes, getD_der_two]
    rfl
  · rwa [bytes, getD_der_R (show 4 = 4 + 0 from rfl) rPos]
  · rw [bytes, getD_der_R (show 4 = 4 + 0 from rfl) rPos] at zero
    rw [bytes, getD_der_R (show 5 = 4 + 1 from rfl) long]
    exact r1 long zero
  · rw [bytes, getD_der_b0]
    rfl
  · rwa [bytes, getD_der_S (show R.length + 6 = R.length + 6 + 0 from rfl) sPos]
  · rw [bytes, getD_der_S (show R.length + 6 = R.length + 6 + 0 from rfl) sPos] at zero
    rw [bytes, getD_der_S (show R.length + 7 = R.length + 6 + 1 from rfl) long]
    exact s1 long zero

/-- BIP66: `IsValidSignatureEncoding` accepts a signature exactly when it is a
strict DER signature followed by one hash-type byte. -/
theorem isValidSignatureEncoding_iff (sig : valtype) :
    isValidSignatureEncoding sig = true ↔ StrictDer sig :=
  ⟨strictDer_of_isValidSignatureEncoding, isValidSignatureEncoding_of_strictDer⟩

end Dogecoin.Script
