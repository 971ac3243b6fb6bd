import Dogecoin.Script.Script
import Mathlib.Data.Nat.Bitwise

/-!
# The byte form of script numbers

`CScriptNum::serialize` writes the magnitude of a number little-endian in as
few bytes as hold it, and puts the sign in the top bit of the last byte,
adding a byte where the magnitude needs that bit.  `set_vch` reads the bytes
back.  The constructor with `fRequireMinimal` rejects a vector whose last
byte is zero but for the sign bit, unless the byte before it needs its own
top bit.

A nonempty vector is `body ++ [top]`.  It holds the magnitude
`leValue body + 256 ^ n * (top % 128)`, below `256 ^ n * 128`, where `n` is
the length of `body`, and the sign in the top bit of `top`.  A minimal vector
has a magnitude of at least `256 ^ n / 2`, so its length is fixed by its
value, and then its bytes are too (`eq_of_minimal`).  `serialize` writes a
minimal vector of the number (`nonMinimal_serialize`, `setVch_serialize`), so
the constructor accepts exactly the vectors that `serialize` writes.
-/

namespace Dogecoin.Script

open LittleEndian

namespace CScriptNum

/-! ## The sign bit of a byte -/

theorem and_signBit_ne_zero_iff (byte : UInt8) : byte &&& 0x80 ≠ 0 ↔ 128 ≤ byte.toNat := by
  have bits : (byte &&& 0x80).toNat = (byte.toNat.testBit 7).toNat * 2 ^ 7 := by
    rw [UInt8.toNat_and]
    exact Nat.and_two_pow byte.toNat 7
  have top := byte.toNat_lt
  rw [Ne, ← UInt8.toNat_inj, bits, Nat.testBit_eq_decide_div_mod_eq]
  by_cases high : 128 ≤ byte.toNat
  · have set : byte.toNat / 128 % 2 = 1 := by omega
    simp [set, high]
  · have clear : byte.toNat / 128 % 2 = 0 := by omega
    simp [clear, high]

theorem toNat_and_low (byte : UInt8) : (byte &&& 0x7f).toNat = byte.toNat % 128 := by
  rw [UInt8.toNat_and]
  exact Nat.and_two_pow_sub_one_eq_mod byte.toNat 7

theorem toNat_or_signBit {byte : UInt8} (low : byte.toNat < 128) :
    (byte ||| 0x80).toNat = byte.toNat + 128 := by
  rw [UInt8.toNat_or]
  exact Nat.or_two_pow_eq_add_of_lt (n := 7) low

/-! ## Reading a vector -/

/-- The magnitude that `body ++ [top]` holds: its value without the sign bit. -/
def magnitude (body : valtype) (top : UInt8) : Nat :=
  leValue body + 256 ^ body.length * (top.toNat % 128)

theorem magnitude_lt (body : valtype) (top : UInt8) :
    magnitude body top < 256 ^ body.length * 128 := by
  have below := leValue_lt body
  have low : top.toNat % 128 ≤ 127 := by omega
  have scaled := Nat.mul_le_mul_left (256 ^ body.length) low
  unfold magnitude
  omega

/-- The bytes of `body ++ [top]` are its magnitude and, above it, its sign bit. -/
theorem leValue_append_top (body : valtype) (top : UInt8) :
    leValue (body ++ [top]) = magnitude body top + 256 ^ body.length * 128 * (top.toNat / 128) := by
  rw [leValue_append_singleton, magnitude, Nat.mul_assoc, Nat.add_assoc, ← Nat.mul_add,
    Nat.mod_add_div]

/-- `set_vch` of `body ++ [top]`: the magnitude, negated where the sign bit is set. -/
theorem setVch_append (body : valtype) (top : UInt8) :
    setVch (body ++ [top]) =
      if 128 ≤ top.toNat then -(magnitude body top : Int) else magnitude body top := by
  have width : 2 ^ (8 * (body ++ [top]).length - 1) = 256 ^ body.length * 128 := by
    have exponent : 8 * (body ++ [top]).length - 1 = 8 * body.length + 7 := by
      simp only [List.length_append, List.length_singleton]
      omega
    rw [exponent]
    simp [Nat.pow_add, Nat.pow_mul]
  have fits := magnitude_lt body top
  simp only [setVch, List.getLast?_concat]
  rw [width, leValue_append_top]
  by_cases high : 128 ≤ top.toNat
  · rw [if_pos ((and_signBit_ne_zero_iff top).2 high), if_pos high,
      Nat.add_mul_mod_self_left, Nat.mod_eq_of_lt fits]
  · have clear : top.toNat / 128 = 0 := by omega
    rw [if_neg (fun set => high ((and_signBit_ne_zero_iff top).1 set)), if_neg high, clear,
      Nat.mul_zero, Nat.add_zero]

theorem natAbs_setVch_append (body : valtype) (top : UInt8) :
    (setVch (body ++ [top])).natAbs = magnitude body top := by
  rw [setVch_append]
  split
  · rw [Int.natAbs_neg, Int.natAbs_natCast]
  · rw [Int.natAbs_natCast]

/-- The minimal-encoding test of `body ++ [top]`. -/
theorem nonMinimal_append (body : valtype) (top : UInt8) :
    nonMinimal (body ++ [top]) =
      (top &&& 0x7f == 0 && match body.getLast? with
        | none => true
        | some next => next &&& 0x80 == 0) := by
  unfold nonMinimal
  rw [List.reverse_append, List.reverse_singleton, List.singleton_append, ← List.head?_reverse]
  cases body.reverse with
  | nil => simp
  | cons next below => simp

theorem and_low_beq_zero (byte : UInt8) : (byte &&& 0x7f == 0) = decide (byte.toNat % 128 = 0) := by
  rw [Bool.beq_eq_decide_eq, ← toNat_and_low]
  exact decide_eq_decide.2 UInt8.toNat_inj.symm

/-! ## Minimal vectors -/

/--
A minimal vector needs its last byte: either the byte holds magnitude bits,
or the byte before it has its top bit set, which would otherwise be read as
the sign.
-/
theorem le_two_mul_magnitude {body : valtype} {top : UInt8}
    (minimal : nonMinimal (body ++ [top]) = false) :
    256 ^ body.length ≤ 2 * magnitude body top := by
  rw [nonMinimal_append, and_low_beq_zero] at minimal
  unfold magnitude
  by_cases low : top.toNat % 128 = 0
  · rw [decide_eq_true low, Bool.true_and] at minimal
    cases last : body.getLast? with
    | none => rw [last] at minimal; cases minimal
    | some next =>
        rw [last, beq_eq_false_iff_ne, and_signBit_ne_zero_iff] at minimal
        obtain ⟨init, rfl⟩ := List.getLast?_eq_some_iff.1 last
        have scaled := Nat.mul_le_mul_left (256 ^ init.length) minimal
        rw [leValue_append_singleton, List.length_append, List.length_singleton, Nat.pow_succ]
        omega
  · have scaled := Nat.mul_le_mul_left (256 ^ body.length) (Nat.one_le_iff_ne_zero.2 low)
    omega

/-- Two vectors whose powers of 256 bound the same number have one length. -/
theorem length_eq_of_bounds {n n' twice : Nat} (above : 256 ^ n ≤ twice) (below : twice < 256 ^ n * 256)
    (above' : 256 ^ n' ≤ twice) (below' : twice < 256 ^ n' * 256) : n = n' := by
  rw [← Nat.pow_succ] at below below'
  have le : n < n' + 1 := (Nat.pow_lt_pow_iff_right (by decide)).1 (Nat.lt_of_le_of_lt above below')
  have ge : n' < n + 1 := (Nat.pow_lt_pow_iff_right (by decide)).1 (Nat.lt_of_le_of_lt above' below)
  omega

/-- Two minimal vectors of one value are one vector. -/
theorem eq_of_minimal {vch vch' : valtype} (nonempty : vch ≠ []) (nonempty' : vch' ≠ [])
    (minimal : nonMinimal vch = false) (minimal' : nonMinimal vch' = false)
    (same : setVch vch = setVch vch') : vch = vch' := by
  obtain ⟨body, top, rfl⟩ := (List.eq_nil_or_concat vch).resolve_left nonempty
  obtain ⟨body', top', rfl⟩ := (List.eq_nil_or_concat vch').resolve_left nonempty'
  simp only [List.concat_eq_append] at *
  have magnitudes : magnitude body top = magnitude body' top' := by
    rw [← natAbs_setVch_append, ← natAbs_setVch_append, same]
  have lower := le_two_mul_magnitude minimal
  have lower' := le_two_mul_magnitude minimal'
  have lengths : body.length = body'.length :=
    length_eq_of_bounds lower (by have := magnitude_lt body top; omega)
      (magnitudes ▸ lower') (by have := magnitude_lt body' top'; omega)
  have positive : 0 < magnitude body top := by
    have : 0 < 256 ^ body.length := Nat.pow_pos (by decide)
    omega
  have signs : top.toNat / 128 = top'.toNat / 128 := by
    rw [setVch_append, setVch_append, magnitudes] at same
    have := top.toNat_lt
    have := top'.toNat_lt
    by_cases high : 128 ≤ top.toNat <;> by_cases high' : 128 ≤ top'.toNat
    · omega
    · rw [if_pos high, if_neg high'] at same
      omega
    · rw [if_neg high, if_pos high'] at same
      omega
    · omega
  have values : leValue (body ++ [top]) = leValue (body' ++ [top']) := by
    rw [leValue_append_top, leValue_append_top, magnitudes, lengths, signs]
  have sizes : (body ++ [top]).length = (body' ++ [top']).length := by
    simp only [List.length_append, List.length_singleton, lengths]
  rw [← leBytes_leValue (body ++ [top]), ← leBytes_leValue (body' ++ [top']), values, sizes]

/-- A vector whose last byte holds magnitude bits is minimal. -/
theorem nonMinimal_of_low {body : valtype} {top : UInt8} (low : top.toNat % 128 ≠ 0) :
    nonMinimal (body ++ [top]) = false := by
  rw [nonMinimal_append, and_low_beq_zero, decide_eq_false low, Bool.false_and]

/-- A vector whose byte before the last has its top bit set is minimal. -/
theorem nonMinimal_of_signed {init : valtype} {back : UInt8} (top : UInt8) (high : 128 ≤ back.toNat) :
    nonMinimal (init ++ [back] ++ [top]) = false := by
  rw [nonMinimal_append, List.getLast?_concat]
  dsimp only
  rw [beq_eq_false_iff_ne.2 ((and_signBit_ne_zero_iff back).2 high), Bool.and_false]

/-! ## Writing a number -/

theorem magnitudeBytes_zero : ∀ (bound : Nat) (small : 0 ≤ bound), magnitudeBytes bound 0 small = []
  | 0, _ => rfl
  | _ + 1, _ => rfl

theorem leValue_magnitudeBytes : ∀ (bound absvalue : Nat) (small : absvalue ≤ bound),
    leValue (magnitudeBytes bound absvalue small) = absvalue
  | 0, absvalue, small => by
      obtain rfl : absvalue = 0 := by omega
      rfl
  | bound + 1, absvalue, small => by
      rw [magnitudeBytes]
      split
      · rename_i zero
        rw [zero]
        rfl
      · rw [leValue, leValue_magnitudeBytes bound, UInt8.toNat_ofNat']
        omega

/-- The last byte that the loop of `serialize` writes is not zero. -/
theorem magnitudeBytes_eq_append : ∀ (bound absvalue : Nat) (small : absvalue ≤ bound), 0 < absvalue →
    ∃ init back, magnitudeBytes bound absvalue small = init ++ [back] ∧ 0 < back.toNat
  | 0, absvalue, small, positive => absurd small (by omega)
  | bound + 1, absvalue, small, positive => by
      rw [magnitudeBytes, dif_neg (Nat.pos_iff_ne_zero.1 positive)]
      by_cases more : 0 < absvalue / 256
      · obtain ⟨init, back, bytes, last⟩ := magnitudeBytes_eq_append bound (absvalue / 256) _ more
        exact ⟨UInt8.ofNat absvalue :: init, back, by rw [bytes, List.cons_append], last⟩
      · have zero : absvalue / 256 = 0 := by omega
        refine ⟨[], UInt8.ofNat absvalue, ?_, ?_⟩
        · simp only [zero, magnitudeBytes_zero, List.nil_append]
        · rw [UInt8.toNat_ofNat']
          omega

/--
`serialize` of a number other than zero: its magnitude, its sign in the top
bit of the last byte, and a minimal vector.
-/
theorem serialize_eq_append (v : Int) (nonzero : v ≠ 0) :
    ∃ body top, serialize v = body ++ [top] ∧ magnitude body top = v.natAbs ∧
      (128 ≤ top.toNat ↔ v < 0) ∧ nonMinimal (body ++ [top]) = false := by
  obtain ⟨init, back, bytes, positive⟩ :=
    magnitudeBytes_eq_append v.natAbs v.natAbs (Nat.le_refl _) (Int.natAbs_pos.2 nonzero)
  have value := leValue_magnitudeBytes v.natAbs v.natAbs (Nat.le_refl _)
  rw [bytes] at value
  unfold serialize
  rw [if_neg nonzero]
  simp only [bytes, List.getLast?_concat]
  by_cases high : 128 ≤ back.toNat
  · rw [if_pos ((and_signBit_ne_zero_iff back).2 high)]
    refine ⟨init ++ [back], if decide (v < 0) then 0x80 else 0, rfl, ?_, ?_,
      nonMinimal_of_signed _ high⟩
    · by_cases neg : v < 0 <;> simp [magnitude, neg, value]
    · by_cases neg : v < 0 <;> simp [neg]
  · have low : back.toNat < 128 := by omega
    rw [if_neg (fun set => high ((and_signBit_ne_zero_iff back).1 set))]
    by_cases neg : v < 0
    · rw [decide_eq_true neg, if_pos rfl, List.dropLast_concat]
      have signed := toNat_or_signBit low
      refine ⟨init, back ||| 0x80, rfl, ?_, ?_, nonMinimal_of_low (by omega)⟩
      · rw [magnitude, signed, Nat.add_mod_right, Nat.mod_eq_of_lt low, ← leValue_append_singleton, value]
      · simp only [signed, Nat.le_add_left, neg]
    · rw [decide_eq_false neg, if_neg Bool.false_ne_true]
      refine ⟨init, back, rfl, ?_, ?_, nonMinimal_of_low (by omega)⟩
      · rw [magnitude, Nat.mod_eq_of_lt low, ← leValue_append_singleton, value]
      · exact iff_of_false high neg

theorem serialize_zero : serialize 0 = [] := by
  simp [serialize]

theorem setVch_serialize (v : Int) : setVch (serialize v) = v := by
  by_cases zero : v = 0
  · rw [zero, serialize_zero]
    rfl
  · obtain ⟨body, top, bytes, magnitudeEq, sign, -⟩ := serialize_eq_append v zero
    rw [bytes, setVch_append, magnitudeEq]
    by_cases neg : v < 0
    · rw [if_pos (sign.2 neg), Int.ofNat_natAbs_of_nonpos (Int.le_of_lt neg), Int.neg_neg]
    · rw [if_neg (fun high => neg (sign.1 high)), Int.natAbs_of_nonneg (Int.not_lt.1 neg)]

theorem nonMinimal_serialize (v : Int) : nonMinimal (serialize v) = false := by
  by_cases zero : v = 0
  · rw [zero, serialize_zero]
    rfl
  · obtain ⟨body, top, bytes, -, -, minimal⟩ := serialize_eq_append v zero
    rw [bytes, minimal]

/-- `serialize` writes `k` bytes or fewer exactly for the magnitudes below `2 ^ (8 * k - 1)`. -/
theorem length_serialize_le_iff (v : Int) (k : Nat) :
    (serialize v).length ≤ k ↔ 2 * v.natAbs < 256 ^ k := by
  by_cases zero : v = 0
  · rw [zero, serialize_zero, Int.natAbs_zero, Nat.mul_zero]
    exact iff_of_true (Nat.zero_le k) (Nat.pow_pos (by decide))
  · obtain ⟨body, top, bytes, magnitudeEq, -, minimal⟩ := serialize_eq_append v zero
    have lower := le_two_mul_magnitude minimal
    have upper := magnitude_lt body top
    rw [magnitudeEq] at lower upper
    have twice : 2 * v.natAbs < 256 ^ (body.length + 1) := by
      rw [Nat.pow_succ]
      omega
    rw [bytes, List.length_append, List.length_singleton]
    constructor
    · intro short
      exact Nat.lt_of_lt_of_le twice (Nat.pow_le_pow_right (by decide) short)
    · intro small
      exact (Nat.pow_lt_pow_iff_right (by decide)).1 (Nat.lt_of_le_of_lt lower small)

example : serialize 127 = [0x7f] ∧ serialize 128 = [0x80, 0x00] ∧ serialize (-255) = [0xff, 0x80] := by
  decide

/-! ## Reading a number back -/

/-- A minimal vector is what `serialize` writes for its value. -/
theorem serialize_setVch {vch : valtype} (minimal : nonMinimal vch = false) :
    serialize (setVch vch) = vch := by
  by_cases empty : vch = []
  · rw [empty]
    exact serialize_zero
  · obtain ⟨body, top, rfl⟩ := (List.eq_nil_or_concat vch).resolve_left empty
    rw [List.concat_eq_append] at minimal ⊢
    have positive : 0 < (setVch (body ++ [top])).natAbs := by
      have lower := le_two_mul_magnitude minimal
      have : 0 < 256 ^ body.length := Nat.pow_pos (by decide)
      rw [natAbs_setVch_append]
      omega
    have nonzero : setVch (body ++ [top]) ≠ 0 := Int.natAbs_pos.1 positive
    obtain ⟨body', top', bytes, -⟩ := serialize_eq_append _ nonzero
    exact eq_of_minimal (by rw [bytes]; simp) (by simp) (nonMinimal_serialize _) minimal
      (setVch_serialize _)

/-- What the constructor accepts: few enough bytes, minimal where asked, read by `set_vch`. -/
theorem ofVch_eq_ok_iff {vch : valtype} {fRequireMinimal : Bool} {nMaxNumSize : Nat} {bn : CScriptNum} :
    ofVch vch fRequireMinimal nMaxNumSize = .ok bn ↔
      vch.length ≤ nMaxNumSize ∧ (fRequireMinimal && nonMinimal vch) = false ∧ bn = ⟨setVch vch⟩ := by
  unfold ofVch
  by_cases long : vch.length > nMaxNumSize
  · rw [if_pos long]
    exact iff_of_false (fun raised => by cases raised) (fun ⟨short, _⟩ => absurd short (by omega))
  · rw [if_neg long]
    cases checked : (fRequireMinimal && nonMinimal vch)
    · simp only [Bool.false_eq_true, if_false]
      exact ⟨fun read => ⟨by omega, trivial, by cases read; rfl⟩, fun ⟨_, _, same⟩ => by rw [same]; rfl⟩
    · simp only [if_true]
      exact iff_of_false (fun raised => by cases raised) (fun ⟨_, flagged, _⟩ => Bool.noConfusion flagged)

/-- With `fRequireMinimal`, the constructor accepts only what `serialize` writes. -/
theorem serialize_of_ofVch {vch : valtype} {nMaxNumSize : Nat} {bn : CScriptNum}
    (decoded : ofVch vch true nMaxNumSize = .ok bn) : serialize bn.m_value = vch := by
  obtain ⟨-, minimal, rfl⟩ := ofVch_eq_ok_iff.1 decoded
  exact serialize_setVch minimal

/-- With `fRequireMinimal`, the constructor throws on every vector that `serialize` does not write. -/
theorem ofVch_eq_error_of_ne {vch : valtype} (nMaxNumSize : Nat) (differs : serialize (setVch vch) ≠ vch) :
    ∃ e, ofVch vch true nMaxNumSize = .error e := by
  cases decoded : ofVch vch true nMaxNumSize with
  | error e => exact ⟨e, rfl⟩
  | ok bn =>
      obtain ⟨-, -, rfl⟩ := ofVch_eq_ok_iff.1 decoded
      exact absurd (serialize_of_ofVch decoded) differs

/-- Negative zero, `0x80` after any number of zero bytes, reads as zero. -/
theorem setVch_negativeZero (k : Nat) : setVch (List.replicate k 0 ++ [0x80]) = 0 := by
  rw [setVch_append, if_pos (by decide), magnitude, leValue_replicate_zero]
  rfl

end CScriptNum

/-! ## The encoding is a bijection -/

open CScriptNum in
theorem scriptNum_serialize_bijective :
    (∀ v : Int, v.natAbs ≤ 2 ^ 39 - 1 →
      nonMinimal (serialize v) = false ∧ (serialize v).length ≤ 5 ∧
      (v.natAbs ≤ 2 ^ 31 - 1 → (serialize v).length ≤ 4) ∧ ofVch (serialize v) true 5 = .ok ⟨v⟩) ∧
    (∀ (vch : valtype) (nMaxNumSize : Nat) (bn : CScriptNum), nMaxNumSize ≤ 8 →
      ofVch vch true nMaxNumSize = .ok bn → serialize bn.m_value = vch) ∧
    (∀ nMaxNumSize k : Nat, ∃ e, ofVch (List.replicate k 0 ++ [0x80]) true nMaxNumSize = .error e) ∧
    (∀ (vch : valtype) (nMaxNumSize : Nat), nMaxNumSize ≤ 8 → serialize (setVch vch) ≠ vch →
      ∃ e, ofVch vch true nMaxNumSize = .error e) := by
  refine ⟨fun v small => ?_, fun _ _ _ _ decoded => serialize_of_ofVch decoded,
    fun nMaxNumSize k => ofVch_eq_error_of_ne nMaxNumSize ?_,
    fun _ nMaxNumSize _ differs => ofVch_eq_error_of_ne nMaxNumSize differs⟩
  · have five : (serialize v).length ≤ 5 := (length_serialize_le_iff v 5).2 (by omega)
    refine ⟨nonMinimal_serialize v, five, fun smaller => (length_serialize_le_iff v 4).2 (by omega),
      ofVch_eq_ok_iff.2 ⟨five, by rw [nonMinimal_serialize]; rfl, by rw [setVch_serialize]⟩⟩
  · rw [setVch_negativeZero, serialize_zero]
    exact fun empty => List.append_ne_nil_of_right_ne_nil _ (List.cons_ne_nil _ _) empty.symm

open CScriptNum in
theorem scriptNum_serialize_bijective_twoBytes :
    ofVch (serialize (-255)) true 5 = .ok ⟨-255⟩ ∧ serialize (setVch [0xff, 0x80]) = [0xff, 0x80] :=
  ⟨(scriptNum_serialize_bijective.1 (-255) (by decide)).2.2.2,
    scriptNum_serialize_bijective.2.1 [0xff, 0x80] 4 ⟨-255⟩ (by decide) (by decide)⟩

end Dogecoin.Script
