import Mathlib.Data.Nat.Bitwise

/-!
# The compact form of 256-bit targets

An `arith_uint256` (arith_uint256.h) is a number below `2 ^ 256`, a natural
number here; a left shift drops the bits that leave the 256.  `GetCompact`
writes such a number as a 32-bit `nBits`: its size in bytes in the top byte
and its three most significant bytes below, where bit 23 is a sign.  A
mantissa whose top bit would read as that sign loses its low byte and the
size grows by one.  `SetCompact` reads `nBits` back and flags negative and
overflowing values.

So a number comes back from its compact form with every bit below
`compactShift` cleared: it keeps the bytes of its top 23 bits, which is 24
bits when its top byte is below `0x80` and 16 when it is not.  That form is a
fixpoint, and every `nBits` that decodes without a flag decodes to a number
that is its own compact form.
-/

namespace Dogecoin.Arith

/-- The scan of `base_uint<256>::bits` from bit `k - 1` down: one more than the position of the first set bit met. -/
def highestBit (x : Nat) : Nat → Nat
  | 0 => 0
  | k + 1 => if x.testBit k then k + 1 else highestBit x k

/-- `base_uint<256>::bits`: one more than the position of the highest set bit, `0` for zero. -/
def bits (x : Nat) : Nat :=
  highestBit x 256

/-- What `arith_uint256::SetCompact` leaves: the number, and the flags it writes through `pfNegative` and `pfOverflow`. -/
structure Decoded where
  value : Nat
  fNegative : Bool
  fOverflow : Bool
deriving DecidableEq, Repr

/-- `arith_uint256::SetCompact`. -/
def setCompact (nCompact : UInt32) : Decoded :=
  let nSize := nCompact.toNat >>> 24
  let nWord := nCompact.toNat &&& 0x007fffff
  -- with at most three bytes the mantissa itself is shifted down, and the flags read it shifted
  let nWord := if nSize ≤ 3 then nWord >>> (8 * (3 - nSize)) else nWord
  { value := if nSize ≤ 3 then nWord else (nWord <<< (8 * (nSize - 3))) % 2 ^ 256
    fNegative := nWord != 0 && nCompact.toNat &&& 0x00800000 != 0
    fOverflow := nWord != 0 && (decide (nSize > 34) || decide (nWord > 0xff) && decide (nSize > 33) ||
      decide (nWord > 0xffff) && decide (nSize > 32)) }

/-- The three bytes that `GetCompact` takes from the top of `x`: `GetLow64` of `x`, shifted. -/
def compactWindow (x : Nat) : Nat :=
  let nSize := (bits x + 7) / 8
  if nSize ≤ 3 then ((x % 2 ^ 64) <<< (8 * (3 - nSize))) % 2 ^ 32
  else ((x >>> (8 * (nSize - 3))) % 2 ^ 64) % 2 ^ 32

/--
The mantissa and the size that `GetCompact` packs: a window whose sign bit
is set gives up its low byte to a size one larger.
-/
def compactParts (x : Nat) : Nat × Nat :=
  let nSize := (bits x + 7) / 8
  let nCompact := compactWindow x
  if nCompact &&& 0x00800000 ≠ 0 then (nCompact >>> 8, nSize + 1) else (nCompact, nSize)

/--
`arith_uint256::GetCompact`.  Its two asserts, that the mantissa has no bit
above the 23 and that the size is below 256, hold for every number below
`2 ^ 256` (`compactParts_spec`).
-/
def getCompact (x : Nat) (fNegative : Bool) : UInt32 :=
  let (nCompact, nSize) := compactParts x
  let nCompact := nCompact ||| nSize <<< 24
  UInt32.ofNat (nCompact ||| if fNegative && nCompact &&& 0x007fffff != 0 then 0x00800000 else 0)

/-- The number of low bits that the compact form drops from `x`: all below the bytes of its top 23 bits. -/
def compactShift (x : Nat) : Nat :=
  8 * ((bits x + 8) / 8 - 3)

/-! ## `bits` -/

theorem highestBit_le (x : Nat) : ∀ k, highestBit x k ≤ k
  | 0 => Nat.le_refl 0
  | k + 1 => by
      rw [highestBit]
      split
      · exact Nat.le_refl _
      · exact Nat.le_succ_of_le (highestBit_le x k)

/-- The scan from below `2 ^ k` brackets `x` between two powers of two. -/
theorem highestBit_spec {x : Nat} : ∀ {k}, x < 2 ^ k →
    x < 2 ^ highestBit x k ∧ (highestBit x k ≠ 0 → 2 ^ (highestBit x k - 1) ≤ x)
  | 0, below => ⟨below, fun zero => absurd rfl zero⟩
  | k + 1, below => by
      rw [highestBit]
      split
      · rename_i set
        exact ⟨below, fun _ => Nat.ge_two_pow_of_testBit set⟩
      · rename_i clear
        have lower : x < 2 ^ k := Nat.lt_pow_two_of_testBit x fun i le => by
          rcases Nat.eq_or_lt_of_le le with rfl | gt
          · exact Bool.eq_false_iff.2 clear
          · exact Nat.testBit_lt_two_pow (Nat.lt_of_lt_of_le below (Nat.pow_le_pow_right (by decide) gt))
        exact highestBit_spec lower

theorem bits_le (x : Nat) : bits x ≤ 256 :=
  highestBit_le x 256

/-- `bits x` brackets `x` between two powers of two. -/
theorem bits_spec {x : Nat} (fits : x < 2 ^ 256) :
    x < 2 ^ bits x ∧ (bits x ≠ 0 → 2 ^ (bits x - 1) ≤ x) :=
  highestBit_spec fits

/-- A number between `2 ^ (r - 1)` and `2 ^ r` has `r` bits. -/
theorem bits_eq_of_bounds {x r : Nat} (fits : x < 2 ^ 256) (pos : 0 < r) (low : 2 ^ (r - 1) ≤ x)
    (high : x < 2 ^ r) : bits x = r := by
  obtain ⟨below, above⟩ := bits_spec fits
  have notZero : bits x ≠ 0 := by
    intro zero
    rw [zero, Nat.pow_zero] at below
    have := Nat.one_le_two_pow (n := r - 1)
    omega
  have le : bits x ≤ r := by
    by_contra more
    have := Nat.lt_of_lt_of_le high (Nat.pow_le_pow_right (by decide) (show r ≤ bits x - 1 by omega))
    exact absurd (above notZero) (Nat.not_le.2 this)
  have ge : r ≤ bits x := by
    by_contra less
    have := Nat.lt_of_lt_of_le below (Nat.pow_le_pow_right (by decide) (show bits x ≤ r - 1 by omega))
    exact absurd low (Nat.not_le.2 this)
  omega

/-- A number below `2 ^ r` has at most `r` bits. -/
theorem bits_le_of_lt {x r : Nat} (fits : x < 2 ^ 256) (high : x < 2 ^ r) : bits x ≤ r := by
  obtain ⟨-, above⟩ := bits_spec fits
  by_contra more
  have := Nat.lt_of_lt_of_le high (Nat.pow_le_pow_right (by decide) (show r ≤ bits x - 1 by omega))
  exact absurd (above (by omega)) (Nat.not_le.2 this)

theorem highestBit_zero : ∀ k, highestBit 0 k = 0
  | 0 => rfl
  | k + 1 => by rw [highestBit, if_neg (by rw [Nat.zero_testBit]; decide), highestBit_zero k]

theorem bits_zero : bits 0 = 0 :=
  highestBit_zero 256

/-! ## Powers of two -/

/-- A number between `2 ^ (b - 1)` and `2 ^ b`, shifted up by `u`, lies between the shifted powers. -/
theorem mul_two_pow_bounds {x b u : Nat} (low : 2 ^ (b - 1) ≤ x) (high : x < 2 ^ b) :
    2 ^ (b - 1 + u) ≤ x * 2 ^ u ∧ x * 2 ^ u < 2 ^ (b + u) := by
  rw [Nat.pow_add, Nat.pow_add]
  exact ⟨Nat.mul_le_mul_right _ low, Nat.mul_lt_mul_of_pos_right high (Nat.two_pow_pos u)⟩

/-- A number between `2 ^ (b - 1)` and `2 ^ b`, shifted down by `d < b`, lies between the shifted powers. -/
theorem div_two_pow_bounds {x b d : Nat} (fits : d < b) (low : 2 ^ (b - 1) ≤ x) (high : x < 2 ^ b) :
    2 ^ (b - 1 - d) ≤ x / 2 ^ d ∧ x / 2 ^ d < 2 ^ (b - d) := by
  constructor
  · rw [Nat.le_div_iff_mul_le (Nat.two_pow_pos d), ← Nat.pow_add, Nat.sub_add_cancel (by omega)]
    exact low
  · rw [Nat.div_lt_iff_lt_mul (Nat.two_pow_pos d), ← Nat.pow_add, Nat.sub_add_cancel (by omega)]
    exact high

/-- Below `2 ^ (i + 1)`, bit `i` is set exactly from `2 ^ i` up. -/
theorem testBit_iff_le {c i : Nat} (high : c < 2 ^ (i + 1)) : c.testBit i = true ↔ 2 ^ i ≤ c := by
  constructor
  · exact Nat.ge_two_pow_of_testBit
  · intro low
    rw [Nat.testBit_eq_decide_div_mod_eq, decide_eq_true_eq]
    have one : c / 2 ^ i = 1 := by
      apply Nat.le_antisymm
      · rw [Nat.pow_succ] at high
        have := (Nat.div_lt_iff_lt_mul (Nat.two_pow_pos i)).2 (by rw [Nat.mul_comm]; exact high)
        omega
      · exact (Nat.le_div_iff_mul_le (Nat.two_pow_pos i)).2 (by rw [Nat.one_mul]; exact low)
    rw [one]

/-! ## The window of `GetCompact` -/

section Window

variable {x : Nat} (nonzero : x ≠ 0) (fits : x < 2 ^ 256)
include nonzero fits

theorem bits_pos : 0 < bits x := by
  obtain ⟨below, -⟩ := bits_spec fits
  by_contra zero
  rw [show bits x = 0 by omega, Nat.pow_zero] at below
  exact nonzero (Nat.lt_one_iff.1 below)

/--
The three bytes `GetCompact` takes from the top of `x`: `x` scaled by
`2 ^ (24 - 8 * nSize)`, with its top bit at position `bits x + 23 - 8 * nSize`.
-/
theorem window_spec :
    let nSize := (bits x + 7) / 8
    compactWindow x = x * 2 ^ (8 * (3 - nSize)) / 2 ^ (8 * (nSize - 3)) ∧
      2 ^ (bits x + 23 - 8 * nSize) ≤ compactWindow x ∧
      compactWindow x < 2 ^ (bits x + 24 - 8 * nSize) := by
  intro nSize
  have pos := bits_pos nonzero fits
  obtain ⟨below, above⟩ := bits_spec fits
  have low := above (Nat.pos_iff_ne_zero.1 pos)
  have rounded : bits x ≤ 8 * nSize ∧ 8 * nSize ≤ bits x + 7 := by omega
  by_cases small : nSize ≤ 3
  · obtain ⟨up, upBelow⟩ := mul_two_pow_bounds (u := 8 * (3 - nSize)) low below
    have top : bits x + 8 * (3 - nSize) ≤ 24 := by omega
    have narrow : x * 2 ^ (8 * (3 - nSize)) < 2 ^ 24 :=
      Nat.lt_of_lt_of_le upBelow (Nat.pow_le_pow_right (by decide) top)
    have short : x < 2 ^ 24 := Nat.lt_of_lt_of_le below (Nat.pow_le_pow_right (by decide) (by omega))
    have kept : x % 2 ^ 64 = x := Nat.mod_eq_of_lt (by omega)
    have value : compactWindow x = x * 2 ^ (8 * (3 - nSize)) := by
      simp only [compactWindow, nSize, if_pos small, kept, Nat.shiftLeft_eq]
      generalize x * 2 ^ (8 * (3 - nSize)) = scaled at narrow ⊢
      exact Nat.mod_eq_of_lt (by omega)
    rw [value, show 8 * (nSize - 3) = 0 by omega, Nat.pow_zero, Nat.div_one]
    refine ⟨rfl, ?_, ?_⟩
    · rwa [show bits x + 23 - 8 * nSize = bits x - 1 + 8 * (3 - nSize) by omega]
    · rwa [show bits x + 24 - 8 * nSize = bits x + 8 * (3 - nSize) by omega]
  · obtain ⟨down, downBelow⟩ := div_two_pow_bounds (d := 8 * (nSize - 3)) (by omega) low below
    have top : bits x - 8 * (nSize - 3) ≤ 24 := by omega
    have narrow : x / 2 ^ (8 * (nSize - 3)) < 2 ^ 24 :=
      Nat.lt_of_lt_of_le downBelow (Nat.pow_le_pow_right (by decide) top)
    have value : compactWindow x = x / 2 ^ (8 * (nSize - 3)) := by
      simp only [compactWindow, nSize, if_neg small, Nat.shiftRight_eq_div_pow]
      generalize x / 2 ^ (8 * (nSize - 3)) = scaled at narrow ⊢
      rw [Nat.mod_eq_of_lt (by omega), Nat.mod_eq_of_lt (by omega)]
    rw [value, show 8 * (3 - nSize) = 0 by omega, Nat.pow_zero, Nat.mul_one]
    refine ⟨rfl, ?_, ?_⟩
    · rwa [show bits x + 23 - 8 * nSize = bits x - 1 - 8 * (nSize - 3) by omega]
    · rwa [show bits x + 24 - 8 * nSize = bits x - 8 * (nSize - 3) by omega]

/-- The window has its sign bit set exactly when the top bit of `x` is the top bit of a byte. -/
theorem window_sign_iff :
    compactWindow x &&& 0x00800000 ≠ 0 ↔ bits x = 8 * ((bits x + 7) / 8) := by
  obtain ⟨-, lower, upper⟩ := window_spec nonzero fits
  have rounded : bits x ≤ 8 * ((bits x + 7) / 8) := by omega
  have within : compactWindow x < 2 ^ (23 + 1) :=
    Nat.lt_of_lt_of_le upper (Nat.pow_le_pow_right (by decide) (by omega))
  rw [show (0x00800000 : Nat) = 2 ^ 23 from rfl, Nat.and_two_pow]
  have set : (compactWindow x).testBit 23 = true ↔ bits x = 8 * ((bits x + 7) / 8) := by
    rw [testBit_iff_le within]
    constructor
    · intro low
      by_contra short
      have := Nat.lt_of_lt_of_le upper (Nat.pow_le_pow_right (by decide)
        (show bits x + 24 - 8 * ((bits x + 7) / 8) ≤ 23 by omega))
      omega
    · intro top
      exact Nat.le_trans (Nat.pow_le_pow_right (by decide) (by omega)) lower
  cases bit : (compactWindow x).testBit 23 with
  | false =>
      rw [bit] at set
      simp only [Bool.toNat_false, Nat.zero_mul, ne_eq, not_true_eq_false, false_iff]
      exact fun top => Bool.false_ne_true (set.2 top)
  | true =>
      rw [bit] at set
      simp only [Bool.toNat_true, Nat.one_mul, ne_eq, Nat.pow_eq_zero, OfNat.ofNat_ne_zero,
        false_and, not_false_eq_true, true_iff]
      exact set.1 rfl

/--
The parts `GetCompact` packs: the size of `x` as bytes with a clear sign bit
on top, and the three bytes from there down, scaled up where `x` is shorter.
The mantissa has no bit above the 23, and at most 16 bits at the size 33.
-/
theorem compactParts_spec :
    compactParts x = (x * 2 ^ (8 * (3 - (bits x + 8) / 8)) / 2 ^ (8 * ((bits x + 8) / 8 - 3)),
        (bits x + 8) / 8) ∧
      (compactParts x).1 < 2 ^ 23 ∧ ((bits x + 8) / 8 = 33 → (compactParts x).1 < 2 ^ 16) := by
  obtain ⟨value, -, upper⟩ := window_spec nonzero fits
  have most := bits_le x
  have pos := bits_pos nonzero fits
  have sign := window_sign_iff nonzero fits
  unfold compactParts
  dsimp only
  split
  · rename_i set
    have top := sign.1 set
    have wide : compactWindow x < 2 ^ 24 :=
      Nat.lt_of_lt_of_le upper (Nat.pow_le_pow_right (by decide) (by omega))
    have size : (bits x + 8) / 8 = (bits x + 7) / 8 + 1 := by omega
    have shifted : compactWindow x >>> 8 < 2 ^ 16 := by
      rw [Nat.shiftRight_eq_div_pow]
      generalize compactWindow x = window at wide
      omega
    refine ⟨?_, Nat.lt_of_lt_of_le shifted (Nat.pow_le_pow_right (by decide) (by decide)),
      fun _ => shifted⟩
    rw [size, Nat.shiftRight_eq_div_pow, value]
    congr 1
    by_cases short : (bits x + 7) / 8 ≤ 2
    · rw [show 8 * ((bits x + 7) / 8 - 3) = 0 by omega, show 8 * ((bits x + 7) / 8 + 1 - 3) = 0 by omega,
        Nat.pow_zero, Nat.div_one, Nat.div_one,
        show 8 * (3 - (bits x + 7) / 8) = 8 * (3 - ((bits x + 7) / 8 + 1)) + 8 by omega, Nat.pow_add,
        ← Nat.mul_assoc, Nat.mul_div_cancel _ (Nat.two_pow_pos 8)]
    · rw [show 8 * (3 - (bits x + 7) / 8) = 0 by omega, show 8 * (3 - ((bits x + 7) / 8 + 1)) = 0 by omega,
        Nat.pow_zero, Nat.mul_one, Nat.div_div_eq_div_mul, ← Nat.pow_add,
        show 8 * ((bits x + 7) / 8 - 3) + 8 = 8 * ((bits x + 7) / 8 + 1 - 3) by omega]
  · rename_i clear
    have short : bits x ≠ 8 * ((bits x + 7) / 8) := fun top => clear (sign.2 top)
    have size : (bits x + 8) / 8 = (bits x + 7) / 8 := by omega
    have narrow : compactWindow x < 2 ^ 23 :=
      Nat.lt_of_lt_of_le upper (Nat.pow_le_pow_right (by decide) (by omega))
    refine ⟨?_, narrow, fun full => by omega⟩
    rw [size, value]

end Window

/-! ## Packing -/

/-- A mantissa below `2 ^ 23` and a size below `256`, as `GetCompact` packs them. -/
theorem getCompact_toNat {x : Nat} (mantissa : (compactParts x).1 < 2 ^ 23)
    (size : (compactParts x).2 < 256) :
    (getCompact x false).toNat = (compactParts x).1 + (compactParts x).2 * 2 ^ 24 := by
  unfold getCompact
  generalize compactParts x = parts at mantissa size
  obtain ⟨m, e⟩ := parts
  dsimp only at mantissa size ⊢
  have joined : m ||| e <<< 24 = m + e * 2 ^ 24 := by
    rw [Nat.lor_comm, ← Nat.shiftLeft_add_eq_or_of_lt (by omega) e, Nat.shiftLeft_eq, Nat.add_comm]
  simp only [Bool.false_and, Bool.false_eq_true, if_false, Nat.or_zero, joined]
  rw [UInt32.toNat_ofNat', Nat.mod_eq_of_lt (by omega)]

/-- Where `SetCompact` finds a packed size and mantissa. -/
theorem unpack {m e : Nat} (mantissa : m < 2 ^ 23) :
    (m + e * 2 ^ 24) >>> 24 = e ∧ (m + e * 2 ^ 24) &&& 0x007fffff = m ∧
      (m + e * 2 ^ 24) &&& 0x00800000 = 0 := by
  refine ⟨?_, ?_, ?_⟩
  · rw [Nat.shiftRight_eq_div_pow]
    omega
  · rw [show (0x007fffff : Nat) = 2 ^ 23 - 1 from rfl, Nat.and_two_pow_sub_one_eq_mod]
    omega
  · rw [show (0x00800000 : Nat) = 2 ^ 23 from rfl, Nat.and_two_pow, Nat.testBit_eq_decide_div_mod_eq]
    have clear : (m + e * 2 ^ 24) / 2 ^ 23 % 2 = 0 := by omega
    rw [clear]
    rfl

/-- `SetCompact` of a packed size and mantissa: the mantissa shifted by the size, with no sign and, within 256 bits, no overflow. -/
theorem setCompact_of_packed {nCompact : UInt32} {m e : Nat} (mantissa : m < 2 ^ 23)
    (packed : nCompact.toNat = m + e * 2 ^ 24) :
    (setCompact nCompact).value =
        (if e ≤ 3 then m >>> (8 * (3 - e)) else (m <<< (8 * (e - 3))) % 2 ^ 256) ∧
      (setCompact nCompact).fNegative = false ∧
      (e ≤ 33 → (e = 33 → m < 2 ^ 16) → (setCompact nCompact).fOverflow = false) := by
  obtain ⟨size, word, sign⟩ := unpack (e := e) mantissa
  unfold setCompact
  simp only [packed, size, word, sign]
  refine ⟨?_, by simp, fun bounded narrow => ?_⟩
  · by_cases small : e ≤ 3 <;> simp [small]
  · by_cases small : e ≤ 3
    · simp only [if_pos small, Bool.and_eq_false_iff, Bool.or_eq_false_iff, decide_eq_false_iff_not]
      omega
    · simp only [if_neg small, Bool.and_eq_false_iff, Bool.or_eq_false_iff, decide_eq_false_iff_not]
      omega

theorem getCompact_zero : getCompact 0 false = 0 := by
  unfold getCompact compactParts compactWindow
  simp only [bits_zero]
  rfl

theorem compactShift_eq_zero {x : Nat} (fits : x < 2 ^ 256) (short : x < 2 ^ 23) :
    compactShift x = 0 := by
  have few := bits_le_of_lt fits short
  unfold compactShift
  omega

/-! ## Round trips -/

/-- A number below `2 ^ 256` comes back from its compact form with the bits below `compactShift` cleared, with no flag. -/
theorem setCompact_getCompact_of_lt {x : Nat} (fits : x < 2 ^ 256) :
    (setCompact (getCompact x false)).value = x >>> compactShift x <<< compactShift x ∧
      (setCompact (getCompact x false)).fNegative = false ∧
      (setCompact (getCompact x false)).fOverflow = false := by
  by_cases zero : x = 0
  · subst zero
    rw [getCompact_zero, compactShift_eq_zero fits (by decide)]
    exact ⟨rfl, rfl, rfl⟩
  obtain ⟨parts, mantissa, narrow⟩ := compactParts_spec zero fits
  have most := bits_le x
  have packed := getCompact_toNat mantissa (by rw [parts]; omega)
  rw [parts] at packed mantissa narrow
  obtain ⟨value, negative, overflow⟩ := setCompact_of_packed mantissa packed
  refine ⟨?_, negative, overflow (by omega) narrow⟩
  rw [value]
  unfold compactShift
  split
  · rename_i small
    rw [show 8 * ((bits x + 8) / 8 - 3) = 0 by omega, Nat.pow_zero, Nat.div_one,
      Nat.shiftRight_eq_div_pow, Nat.mul_div_cancel _ (Nat.two_pow_pos _)]
    rfl
  · rename_i large
    rw [show 8 * (3 - (bits x + 8) / 8) = 0 by omega, Nat.pow_zero, Nat.mul_one, Nat.shiftLeft_eq,
      Nat.shiftRight_eq_div_pow, Nat.shiftLeft_eq]
    exact Nat.mod_eq_of_lt (Nat.lt_of_le_of_lt (Nat.div_mul_le_self _ _) fits)

/-- Rounding a number to its compact form keeps the parts `GetCompact` packs. -/
theorem compactParts_rounded {x : Nat} (fits : x < 2 ^ 256) :
    compactParts (x >>> compactShift x <<< compactShift x) = compactParts x := by
  by_cases zero : x = 0
  · subst zero
    rw [compactShift_eq_zero fits (by decide)]
    rfl
  have pos := bits_pos zero fits
  have most := bits_le x
  obtain ⟨below, above⟩ := bits_spec fits
  have shift : compactShift x < bits x := by
    unfold compactShift
    omega
  rw [Nat.shiftRight_eq_div_pow, Nat.shiftLeft_eq]
  obtain ⟨down, -⟩ := div_two_pow_bounds shift (above (by omega)) below
  have rounded : x / 2 ^ compactShift x * 2 ^ compactShift x ≤ x := Nat.div_mul_le_self _ _
  have low : 2 ^ (bits x - 1) ≤ x / 2 ^ compactShift x * 2 ^ compactShift x := by
    calc 2 ^ (bits x - 1) = 2 ^ (bits x - 1 - compactShift x) * 2 ^ compactShift x := by
          rw [← Nat.pow_add, Nat.sub_add_cancel (by omega)]
      _ ≤ x / 2 ^ compactShift x * 2 ^ compactShift x := Nat.mul_le_mul_right _ down
  have roundedFits : x / 2 ^ compactShift x * 2 ^ compactShift x < 2 ^ 256 :=
    Nat.lt_of_le_of_lt rounded fits
  have roundedZero : x / 2 ^ compactShift x * 2 ^ compactShift x ≠ 0 := by
    have := Nat.one_le_two_pow (n := bits x - 1)
    omega
  have same := bits_eq_of_bounds roundedFits pos low (Nat.lt_of_le_of_lt rounded below)
  rw [(compactParts_spec roundedZero roundedFits).1, (compactParts_spec zero fits).1, same]
  congr 1
  unfold compactShift
  by_cases small : (bits x + 8) / 8 ≤ 3
  · rw [show 8 * ((bits x + 8) / 8 - 3) = 0 by omega]
    simp only [Nat.pow_zero, Nat.div_one, Nat.mul_one]
  · rw [show 8 * (3 - (bits x + 8) / 8) = 0 by omega, Nat.pow_zero, Nat.mul_one, Nat.mul_one,
      Nat.mul_div_cancel _ (Nat.two_pow_pos _)]

/-- A number that `SetCompact` decodes without a flag has no bit below its `compactShift`. -/
theorem setCompact_value_rounded (nCompact : UInt32)
    (overflow : (setCompact nCompact).fOverflow = false) :
    (setCompact nCompact).value < 2 ^ 256 ∧
      (setCompact nCompact).value >>> compactShift (setCompact nCompact).value <<<
        compactShift (setCompact nCompact).value = (setCompact nCompact).value := by
  have word : nCompact.toNat &&& 0x007fffff < 2 ^ 23 :=
    Nat.lt_of_le_of_lt Nat.and_le_right (by decide)
  unfold setCompact at overflow ⊢
  generalize nCompact.toNat >>> 24 = nSize at overflow ⊢
  generalize nCompact.toNat &&& 0x007fffff = w at word overflow ⊢
  by_cases small : nSize ≤ 3
  · simp only [if_pos small]
    have short : w >>> (8 * (3 - nSize)) < 2 ^ 23 :=
      Nat.lt_of_le_of_lt (Nat.shiftRight_le w _) word
    have fits : w >>> (8 * (3 - nSize)) < 2 ^ 256 :=
      Nat.lt_of_lt_of_le short (Nat.pow_le_pow_right (by decide) (by decide))
    refine ⟨fits, ?_⟩
    rw [compactShift_eq_zero fits short]
    rfl
  · simp only [if_neg small] at overflow ⊢
    by_cases empty : w = 0
    · subst empty
      rw [Nat.zero_shiftLeft, Nat.zero_mod, compactShift_eq_zero (by decide) (by decide)]
      exact ⟨by decide, rfl⟩
    have bounded : nSize ≤ 34 ∧ (0xff < w → nSize ≤ 33) ∧ (0xffff < w → nSize ≤ 32) := by
      simp only [Bool.and_eq_false_iff, bne_eq_false_iff_eq, Bool.or_eq_false_iff,
        decide_eq_false_iff_not] at overflow
      omega
    have within : w * 2 ^ (8 * (nSize - 3)) < 2 ^ 256 := by
      rcases (show nSize ≤ 32 ∨ nSize = 33 ∨ nSize = 34 by omega) with wide | top | top
      · calc w * 2 ^ (8 * (nSize - 3)) < 2 ^ 23 * 2 ^ (8 * (nSize - 3)) :=
              Nat.mul_lt_mul_of_pos_right word (Nat.two_pow_pos _)
          _ ≤ 2 ^ 23 * 2 ^ 232 := Nat.mul_le_mul_left _ (Nat.pow_le_pow_right (by decide) (by omega))
          _ < 2 ^ 256 := by decide
      · subst top
        have := bounded.2.2
        omega
      · subst top
        have := bounded.2.1
        omega
    rw [Nat.shiftLeft_eq, Nat.mod_eq_of_lt within]
    refine ⟨within, ?_⟩
    have few : bits (w * 2 ^ (8 * (nSize - 3))) ≤ 23 + 8 * (nSize - 3) := by
      apply bits_le_of_lt within
      rw [Nat.pow_add]
      exact Nat.mul_lt_mul_of_pos_right word (Nat.two_pow_pos _)
    have le : compactShift (w * 2 ^ (8 * (nSize - 3))) ≤ 8 * (nSize - 3) := by
      unfold compactShift
      omega
    have divides : 2 ^ compactShift (w * 2 ^ (8 * (nSize - 3))) ∣ w * 2 ^ (8 * (nSize - 3)) :=
      Nat.dvd_trans (Nat.pow_dvd_pow 2 le) (Nat.dvd_mul_left _ _)
    rw [Nat.shiftRight_eq_div_pow, Nat.shiftLeft_eq, Nat.div_mul_cancel divides]

/--
`SetCompact(GetCompact(x))` clears the bits of `x` below `compactShift x`,
so it is at most `x`, it sets neither flag, and its compact form is that of
`x`; every `nCompact` that `SetCompact` decodes with neither flag decodes to
a number its own compact form gives back.
-/
theorem setCompact_getCompact_rounds :
    (∀ x, x < 2 ^ 256 →
      (setCompact (getCompact x false)).value = x >>> compactShift x <<< compactShift x ∧
      (setCompact (getCompact x false)).value ≤ x ∧
      (setCompact (getCompact x false)).fNegative = false ∧
      (setCompact (getCompact x false)).fOverflow = false ∧
      getCompact (setCompact (getCompact x false)).value false = getCompact x false) ∧
    ∀ nCompact : UInt32, (setCompact nCompact).fNegative = false →
      (setCompact nCompact).fOverflow = false →
      (setCompact (getCompact (setCompact nCompact).value false)).value =
        (setCompact nCompact).value := by
  refine ⟨fun x fits => ?_, fun nCompact _ overflow => ?_⟩
  · obtain ⟨value, negative, overflow⟩ := setCompact_getCompact_of_lt fits
    refine ⟨value, ?_, negative, overflow, ?_⟩
    · rw [value, Nat.shiftRight_eq_div_pow, Nat.shiftLeft_eq]
      exact Nat.div_mul_le_self _ _
    · rw [value]
      unfold getCompact
      rw [compactParts_rounded fits]
  · obtain ⟨fits, rounded⟩ := setCompact_value_rounded nCompact overflow
    rw [(setCompact_getCompact_of_lt fits).1, rounded]

/-- Dogecoin's proof-of-work limit `0x1e0fffff` decodes to a number its compact form gives back. -/
theorem setCompact_getCompact_rounds_powLimit :
    (setCompact (getCompact 0x123456789 false)).value ≤ 0x123456789 ∧
      (setCompact (getCompact (setCompact 0x1e0fffff).value false)).value =
        (setCompact 0x1e0fffff).value :=
  ⟨(setCompact_getCompact_rounds.1 0x123456789 (by decide)).2.1,
    setCompact_getCompact_rounds.2 0x1e0fffff (by decide) (by decide)⟩

/--
`0x80FFFF01` has its top bit at the top of a byte: its compact form keeps
two bytes, `0x80FF0000`, not its top three, `0x80FFFF00`.
-/
theorem setCompact_getCompact_signByte :
    (setCompact (getCompact 0x80FFFF01 false)).value = 0x80FF0000 ∧
      0x80FFFF01 >>> (8 * ((bits 0x80FFFF01 + 7) / 8 - 3)) <<<
        (8 * ((bits 0x80FFFF01 + 7) / 8 - 3)) = 0x80FFFF00 := by
  have width : bits 0x80FFFF01 = 32 :=
    bits_eq_of_bounds (by decide) (by decide) (by decide) (by decide)
  simp only [getCompact, compactParts, compactWindow, width]
  decide

end Dogecoin.Arith
