import Mathlib.Data.Nat.Digits.Lemmas
import Mathlib.Algebra.Order.Ring.Abs
import Dogecoin.Lib.BaseConversion

/-!
# Reading decimal numbers (utilstrencodings.cpp)

The character classes of the "C" locale, `atoi64` (which is `strtoll` in
base 10) and `ParseFixedPoint`, which reads a decimal with an optional point
and exponent into a 64-bit fixed-point value with `decimals` places.

`ParseFixedPoint` keeps its mantissa without its trailing zeros, counted in
`mantissa_tzeros`, so that a run of zeros costs no multiplication until a
nonzero digit follows it; the pair stands for `mantissa * 10 ^ mantissa_tzeros`
(`processMantissaDigit_spec`, `mantissaDigits_spec`).  Every multiplication by
ten is guarded by `UPPER_BOUND / 10`, and a value below `10 ^ 18` passes all of
the guards: `parseFixedPoint_decimal` reads every string of digits, a point
and more digits whose value, scaled to `decimals` places, is below `10 ^ 18`.

Strings are their bytes, and a digit string's value is `digitsValue`, the
`Nat.ofDigits` of its digits read least significant first.  The `int`
counters `mantissa_tzeros` and `point_ofs` are natural numbers: they count
characters of the string.
-/

namespace Dogecoin.Util

open BaseConversion

/-- `isspace` in the "C" locale: space, and tab to carriage return. -/
def isspace (c : UInt8) : Bool :=
  c == 32 || (9 ≤ c && c ≤ 13)

/-- `isdigit` in the "C" locale, also written `c >= '0' && c <= '9'`. -/
def isdigit (c : UInt8) : Bool :=
  48 ≤ c && c ≤ 57

/-- `str.c_str()` walked as a C string: the characters before the first NUL. -/
def cStr (str : List UInt8) : List UInt8 :=
  str.takeWhile (· != 0)

/-- What the digit `c` stands for: `c - '0'`. -/
def digitValue (c : UInt8) : Nat :=
  c.toNat - 48

/-- The number the digits `s` stand for, most significant first: `v = v * 10 + (c - '0')`. -/
def digitsValue (s : List UInt8) : Nat :=
  s.foldl (fun v c => 10 * v + digitValue c) 0

/--
`atoi64`, that is `strtoll(str.c_str(), NULL, 10)`: leading whitespace, an
optional sign, and as many digits as follow, saturated to the range of
`int64_t`.
-/
def atoi64 (str : List UInt8) : Int :=
  let psz := (cStr str).dropWhile isspace
  let (negative, psz) : Bool × List UInt8 :=
    match psz with
    | c :: rest => if c == 45 then (true, rest) else if c == 43 then (false, rest) else (false, psz)
    | [] => (false, [])
  let value : Int := digitsValue (psz.takeWhile isdigit)
  let value := if negative then -value else value
  max (-2 ^ 63) (min value (2 ^ 63 - 1))

/--
`UPPER_BOUND`: `10^18 - 1`, the largest arbitrary decimal that will fit in a
signed 64-bit integer.
-/
def UPPER_BOUND : Int :=
  1000000000000000000 - 1

/-- `count` rounds of the loop in `ProcessMantissaDigit`; `none` for `return false`. -/
def shiftMantissa : Nat → Int → Option Int
  | 0, mantissa => some mantissa
  | count + 1, mantissa =>
      if mantissa > UPPER_BOUND / 10 then none -- overflow
      else shiftMantissa count (mantissa * 10)

/-- `ProcessMantissaDigit`: the mantissa and its trailing zeros after `ch`; `none` on overflow. -/
def processMantissaDigit (ch : UInt8) (mantissa : Int) (mantissa_tzeros : Nat) :
    Option (Int × Nat) :=
  if ch == 48 then some (mantissa, mantissa_tzeros + 1)
  else do
    let mantissa ← shiftMantissa (mantissa_tzeros + 1) mantissa
    pure (mantissa + ((ch.toNat : Int) - 48), 0)

/--
A `while (ptr < end && val[ptr] >= '0' && val[ptr] <= '9')` loop of
`ParseFixedPoint` that calls `ProcessMantissaDigit` on each digit: the
mantissa, its trailing zeros, the number of digits read (what `point_ofs`
counts after the point) and the characters after them.
-/
def mantissaDigits : List UInt8 → Int → Nat → Option (Int × Nat × Nat × List UInt8)
  | [], mantissa, mantissa_tzeros => some (mantissa, mantissa_tzeros, 0, [])
  | c :: val, mantissa, mantissa_tzeros =>
      if isdigit c then do
        let (mantissa, mantissa_tzeros) ← processMantissaDigit c mantissa mantissa_tzeros
        let (mantissa, mantissa_tzeros, count, val) ← mantissaDigits val mantissa mantissa_tzeros
        pure (mantissa, mantissa_tzeros, count + 1, val)
      else some (mantissa, mantissa_tzeros, 0, c :: val)

/-- The digits of the exponent, each after its overflow check. -/
def exponentDigits : List UInt8 → Int → Option (Int × List UInt8)
  | [], exponent => some (exponent, [])
  | c :: val, exponent =>
      if isdigit c then
        if exponent > UPPER_BOUND / 10 then none -- overflow
        else exponentDigits val (exponent * 10 + ((c.toNat : Int) - 48))
      else some (exponent, c :: val)

/-- `count` rounds of the last loop of `ParseFixedPoint`, which guards both signs. -/
def scaleMantissa : Nat → Int → Option Int
  | 0, mantissa => some mantissa
  | count + 1, mantissa =>
      if mantissa > UPPER_BOUND / 10 || mantissa < -(UPPER_BOUND / 10) then none -- overflow
      else scaleMantissa count (mantissa * 10)

/-- The leading `'-'` of `ParseFixedPoint`. -/
def parseSign (val : List UInt8) : Bool × List UInt8 :=
  match val with
  | c :: rest => if c == 45 then (true, rest) else (false, val)
  | [] => (false, [])

/-- The integer part of `ParseFixedPoint`: a single `'0'`, or digits from a `'1'` to `'9'` on. -/
def parseIntegerPart (val : List UInt8) : Option (Int × Nat × List UInt8) :=
  match val with
  | [] => none -- empty string or loose '-'
  | c :: rest =>
      if c == 48 then some (0, 0, rest) -- pass single 0
      else if 49 ≤ c && c ≤ 57 then
        (mantissaDigits val 0 0).map fun read => (read.1, read.2.1, read.2.2.2)
      else none -- missing expected digit

/-- The part of `ParseFixedPoint` after a `'.'`, which needs a digit. -/
def parseFractionPart (mantissa : Int) (mantissa_tzeros : Nat) (val : List UInt8) :
    Option (Int × Nat × Nat × List UInt8) :=
  match val with
  | c :: rest =>
      if c == 46 then
        match rest with
        | d :: _ => if isdigit d then mantissaDigits rest mantissa mantissa_tzeros else none
        | [] => none -- missing expected digit
      else some (mantissa, mantissa_tzeros, 0, val)
  | [] => some (mantissa, mantissa_tzeros, 0, [])

/-- The exponent of `ParseFixedPoint` after an `'e'` or `'E'`: its sign, its digits, and the rest. -/
def parseExponentPart (val : List UInt8) : Option (Bool × Int × List UInt8) :=
  match val with
  | c :: rest =>
      if c == 101 || c == 69 then
        let (exponent_sign, rest) : Bool × List UInt8 :=
          match rest with
          | d :: more => if d == 43 then (false, more) else if d == 45 then (true, more) else (false, rest)
          | [] => (false, [])
        match rest with
        | d :: _ =>
            if isdigit d then (exponentDigits rest 0).map fun read => (exponent_sign, read.1, read.2)
            else none -- missing expected digit
        | [] => none
      else some (false, 0, val)
  | [] => some (false, 0, [])

/--
`ParseFixedPoint(val, decimals, &amount)`: the amount, or `none` where it
returns false.
-/
def parseFixedPoint (val : List UInt8) (decimals : Int) : Option Int := do
  let (mantissa_sign, val) := parseSign val
  let (mantissa, mantissa_tzeros, val) ← parseIntegerPart val
  let (mantissa, mantissa_tzeros, point_ofs, val) ← parseFractionPart mantissa mantissa_tzeros val
  let (exponent_sign, exponent, val) ← parseExponentPart val
  if !val.isEmpty then none -- trailing garbage
  -- finalize exponent
  let exponent := if exponent_sign then -exponent else exponent
  let exponent := exponent - point_ofs + mantissa_tzeros
  -- finalize mantissa
  let mantissa := if mantissa_sign then -mantissa else mantissa
  -- convert to one 64-bit fixed-point value
  let exponent := exponent + decimals
  if exponent < 0 then none -- cannot represent values smaller than 10^-decimals
  if exponent ≥ 18 then none -- cannot represent values larger than or equal to 10^(18-decimals)
  let mantissa ← scaleMantissa exponent.toNat mantissa
  if mantissa > UPPER_BOUND || mantissa < -UPPER_BOUND then none -- overflow
  pure mantissa

example : parseFixedPoint ("-12.3400e1".toList.map Char.toUInt8) 8 = some (-12340000000) := by
  decide

/-! ## Characters and digit strings -/

theorem isdigit_iff (c : UInt8) : isdigit c = true ↔ 48 ≤ c.toNat ∧ c.toNat ≤ 57 := by
  simp [isdigit, UInt8.le_iff_toNat_le]

theorem digitValue_lt {c : UInt8} (digit : isdigit c = true) : digitValue c < 10 := by
  rw [isdigit_iff] at digit
  unfold digitValue
  omega

/-- A digit is none of the characters outside `'0'` to `'9'`. -/
theorem isdigit_beq_eq_false {c b : UInt8} (digit : isdigit c = true) (outside : b.toNat < 48 ∨ 57 < b.toNat) :
    (c == b) = false := by
  rw [isdigit_iff] at digit
  rw [beq_eq_false_iff_ne]
  intro same
  rw [same] at digit
  omega

/-- A digit is no whitespace. -/
theorem isspace_eq_false_of_isdigit {c : UInt8} (digit : isdigit c = true) : isspace c = false := by
  have bounds := (isdigit_iff c).mp digit
  simp only [isspace, Bool.or_eq_false_iff, beq_eq_false_iff_ne, Bool.and_eq_false_iff,
    decide_eq_false_iff_not, UInt8.le_iff_toNat_le, UInt8.reduceToNat]
  refine ⟨fun same => ?_, by omega⟩
  rw [same] at bounds
  simp at bounds

/-- A string without a NUL is all of its C string. -/
theorem cStr_eq_self {s : List UInt8} (no_nul : ∀ c ∈ s, c ≠ 0) : cStr s = s :=
  List.takeWhile_eq_self_iff.mpr fun c member => bne_iff_ne.mpr (no_nul c member)

/-- A list whose first element does not hold of `p` starts with no run of it. -/
theorem dropWhile_of_head {p : UInt8 → Bool} {l : List UInt8} (first : ∀ c ∈ l.head?, p c = false) :
    l.dropWhile p = l := by
  cases l with
  | nil => rfl
  | cons c rest => simp [first c rfl]

/-- The digits of a number, most significant first, do not start with a zero. -/
theorem head_digits_reverse (b value : Nat) :
    ∀ d ∈ (Nat.digits b value).reverse.head?, d ≠ 0 := by
  intro d member
  rcases Nat.eq_zero_or_pos value with rfl | positive
  · simp at member
  · have nonempty : Nat.digits b value ≠ [] := Nat.digits_ne_nil_iff_ne_zero.mpr positive.ne'
    rw [List.head?_reverse, List.getLast?_eq_some_getLast nonempty, Option.mem_some_iff] at member
    rw [← member]
    exact Nat.getLast_digit_ne_zero b positive.ne'

/-- A digit string's value is `Nat.ofDigits` of its digits, least significant first. -/
theorem digitsValue_eq_ofDigits (s : List UInt8) :
    digitsValue s = Nat.ofDigits 10 (s.map digitValue).reverse := by
  rw [digitsValue, ← List.foldl_map, foldl_horner, Nat.zero_mul, Nat.zero_add]

theorem digitsValue_append (a b : List UInt8) :
    digitsValue (a ++ b) = digitsValue a * 10 ^ b.length + digitsValue b := by
  rw [digitsValue_eq_ofDigits, digitsValue_eq_ofDigits, digitsValue_eq_ofDigits, List.map_append,
    List.reverse_append, Nat.ofDigits_append, List.length_reverse, List.length_map]
  ring

@[simp] theorem digitsValue_nil : digitsValue [] = 0 := rfl

@[simp] theorem digitsValue_singleton (c : UInt8) : digitsValue [c] = digitValue c := by
  simp [digitsValue]

theorem digitsValue_lt {s : List UInt8} (digits : ∀ c ∈ s, isdigit c = true) :
    digitsValue s < 10 ^ s.length := by
  rw [digitsValue_eq_ofDigits]
  have below := @Nat.ofDigits_lt_base_pow_length 10 (s.map digitValue).reverse
    (by decide) (by simpa using fun c member => digitValue_lt (digits c member))
  simpa using below

/-- A string of digits that does not start with a zero stands for a positive number. -/
theorem digitsValue_pos {c : UInt8} {rest : List UInt8} (digit : isdigit c = true) (nonzero : c ≠ 48) :
    0 < digitsValue (c :: rest) := by
  have first : 0 < digitValue c := by
    rw [isdigit_iff] at digit
    have different : c.toNat ≠ 48 := fun same => nonzero (UInt8.toNat_inj.mp same)
    unfold digitValue
    omega
  rw [← List.singleton_append, digitsValue_append, digitsValue_singleton]
  have scale : 0 < 10 ^ rest.length := Nat.pow_pos (by decide)
  have : 0 < digitValue c * 10 ^ rest.length := Nat.mul_pos first scale
  omega

/-- `atoi64` of at most eighteen digits is their value. -/
theorem atoi64_digits {s : List UInt8} (digits : ∀ c ∈ s, isdigit c = true) (short : s.length ≤ 18) :
    atoi64 s = digitsValue s := by
  have no_nul : cStr s = s :=
    cStr_eq_self fun c member same => by simpa [same] using (isdigit_iff c).mp (digits c member)
  have unspaced : s.dropWhile isspace = s :=
    dropWhile_of_head fun c member => isspace_eq_false_of_isdigit (digits c (List.mem_of_mem_head? member))
  have small := digitsValue_lt digits
  have bounded : (10 : Nat) ^ s.length ≤ 10 ^ 18 := Nat.pow_le_pow_right (by decide) short
  unfold atoi64
  rw [no_nul, unspaced]
  cases s with
  | nil => rfl
  | cons c rest =>
      have digit := digits c List.mem_cons_self
      have not_minus : (c == 45) = false := isdigit_beq_eq_false digit (by decide)
      have not_plus : (c == 43) = false := isdigit_beq_eq_false digit (by decide)
      simp only [not_minus, not_plus, Bool.false_eq_true, if_false,
        List.takeWhile_eq_self_iff.mpr digits]
      omega

/-! ## The mantissa -/

/-- The guarded multiplications by ten pass while the value stays below `10 ^ 18`. -/
theorem shiftMantissa_eq : ∀ (count : Nat) (mantissa : Int), 0 ≤ mantissa →
    mantissa * 10 ^ count < 10 ^ 18 → shiftMantissa count mantissa = some (mantissa * 10 ^ count)
  | 0, mantissa, _, _ => by simp [shiftMantissa]
  | count + 1, mantissa, nonneg, fits => by
      have regroup : mantissa * 10 * 10 ^ count = mantissa * 10 ^ (count + 1) := by ring
      have guard : ¬ mantissa > UPPER_BOUND / 10 := by
        have scaled : mantissa * 10 ≤ mantissa * 10 * 10 ^ count :=
          le_mul_of_one_le_right (by omega) (one_le_pow₀ (by decide))
        have limit : (10 : Int) ^ 18 = 1000000000000000000 := by norm_num
        simp only [UPPER_BOUND]
        omega
      rw [shiftMantissa, if_neg guard,
        shiftMantissa_eq count (mantissa * 10) (by omega) (regroup ▸ fits), regroup]

theorem digitValue_cast {c : UInt8} (digit : isdigit c = true) :
    (digitValue c : Int) = (c.toNat : Int) - 48 := by
  rw [isdigit_iff] at digit
  unfold digitValue
  omega

/--
One digit read by `ProcessMantissaDigit`: the pair stands for ten times what
it stood for, plus the digit.  A zero only counts one more trailing zero.
-/
theorem processMantissaDigit_spec {ch : UInt8} {mantissa : Int} {tzeros : Nat}
    (digit : isdigit ch = true) (nonneg : 0 ≤ mantissa)
    (fits : mantissa * 10 ^ tzeros * 10 + digitValue ch < 10 ^ 18) :
    ∃ mantissa' tzeros', processMantissaDigit ch mantissa tzeros = some (mantissa', tzeros') ∧
      0 ≤ mantissa' ∧ tzeros' ≤ tzeros + 1 ∧
      mantissa' * 10 ^ tzeros' = mantissa * 10 ^ tzeros * 10 + digitValue ch := by
  by_cases zero : ch = 48
  · subst zero
    refine ⟨mantissa, tzeros + 1, by simp [processMantissaDigit], nonneg, le_rfl, ?_⟩
    simp only [digitValue, UInt8.reduceToNat, Nat.sub_self, Nat.cast_zero, add_zero, pow_succ]
    ring
  · have regroup : mantissa * 10 ^ (tzeros + 1) = mantissa * 10 ^ tzeros * 10 := by ring
    have small : (0 : Int) ≤ digitValue ch := Nat.cast_nonneg _
    have shifted := shiftMantissa_eq (tzeros + 1) mantissa nonneg (by rw [regroup]; omega)
    have scaled : 0 ≤ mantissa * 10 ^ (tzeros + 1) := mul_nonneg nonneg (pow_nonneg (by decide) _)
    refine ⟨mantissa * 10 ^ (tzeros + 1) + digitValue ch, 0, ?_, by omega, by omega, ?_⟩
    · simp [processMantissaDigit, zero, shifted, digitValue_cast digit]
    · rw [pow_zero, mul_one, regroup]

/--
`ParseFixedPoint` reads the digits `s` up to a character that is none: the
pair stands for what it stood for with the digits appended, and the trailing
zeros grow by at most the number of digits.  Every guard passes while that
value is below `10 ^ 18`.
-/
theorem mantissaDigits_spec {rest : List UInt8} (stop : ∀ c ∈ rest.head?, isdigit c = false) :
    ∀ (s : List UInt8) (mantissa : Int) (tzeros : Nat), (∀ c ∈ s, isdigit c = true) →
      0 ≤ mantissa → mantissa * 10 ^ tzeros * 10 ^ s.length + digitsValue s < 10 ^ 18 →
      ∃ mantissa' tzeros', mantissaDigits (s ++ rest) mantissa tzeros =
          some (mantissa', tzeros', s.length, rest) ∧
        0 ≤ mantissa' ∧ tzeros' ≤ tzeros + s.length ∧
        mantissa' * 10 ^ tzeros' = mantissa * 10 ^ tzeros * 10 ^ s.length + digitsValue s
  | [], mantissa, tzeros, _, nonneg, _ => by
      refine ⟨mantissa, tzeros, ?_, nonneg, by simp, by simp⟩
      cases rest with
      | nil => rfl
      | cons c rest => simp [mantissaDigits, stop c rfl]
  | c :: s, mantissa, tzeros, digits, nonneg, fits => by
      have digit := digits c List.mem_cons_self
      have split : (digitsValue (c :: s) : Int) = digitValue c * 10 ^ s.length + digitsValue s := by
        rw [← List.singleton_append, digitsValue_append, digitsValue_singleton]
        push_cast
        ring
      have first : mantissa * 10 ^ tzeros * 10 + digitValue c ≤
          (mantissa * 10 ^ tzeros * 10 + digitValue c) * 10 ^ s.length :=
        le_mul_of_one_le_right (by positivity) (one_le_pow₀ (by decide))
      have whole : (mantissa * 10 ^ tzeros * 10 + digitValue c) * 10 ^ s.length + digitsValue s =
          mantissa * 10 ^ tzeros * 10 ^ (c :: s).length + digitsValue (c :: s) := by
        rw [split, List.length_cons, pow_succ]
        ring
      have rest_small : (0 : Int) ≤ digitsValue s := Nat.cast_nonneg _
      obtain ⟨mantissa₁, tzeros₁, processed, nonneg₁, grown₁, value₁⟩ :=
        @processMantissaDigit_spec c mantissa tzeros digit nonneg (by omega)
      obtain ⟨mantissa', tzeros', read, nonneg', grown', value'⟩ :=
        mantissaDigits_spec stop s mantissa₁ tzeros₁ (fun d member => digits d (List.mem_cons_of_mem c member))
          nonneg₁ (by rw [value₁]; omega)
      refine ⟨mantissa', tzeros', ?_, nonneg', by simp only [List.length_cons]; omega, ?_⟩
      · simp [mantissaDigits, digit, processed, read]
      · rw [value', value₁, whole]

/-- The guarded multiplications by ten, with either sign, pass while the magnitude stays below `10 ^ 18`. -/
theorem scaleMantissa_eq : ∀ (count : Nat) (mantissa : Int),
    |mantissa| * 10 ^ count < 10 ^ 18 → scaleMantissa count mantissa = some (mantissa * 10 ^ count)
  | 0, mantissa, _ => by simp [scaleMantissa]
  | count + 1, mantissa, fits => by
      have regroup : |mantissa * 10| * 10 ^ count = |mantissa| * 10 ^ (count + 1) := by
        rw [abs_mul, abs_of_pos (show (0 : Int) < 10 by decide)]
        ring
      have guard : ¬ (mantissa > UPPER_BOUND / 10 || mantissa < -(UPPER_BOUND / 10)) = true := by
        have scaled : |mantissa| * 10 ≤ |mantissa| * 10 * 10 ^ count :=
          le_mul_of_one_le_right (by positivity) (one_le_pow₀ (by decide))
        have limit : (10 : Int) ^ 18 = 1000000000000000000 := by norm_num
        have bound : |mantissa| < 100000000000000000 := by
          rw [pow_succ] at fits
          linarith
        rw [abs_lt] at bound
        rw [Bool.or_eq_true, decide_eq_true_iff, decide_eq_true_iff, UPPER_BOUND]
        omega
      rw [scaleMantissa, if_neg guard, scaleMantissa_eq count (mantissa * 10) (regroup ▸ fits)]
      ring_nf

/-! ## `ParseFixedPoint` on a decimal -/

/--
The integer part: a single `'0'`, or digits that do not start with one, up to
a character that is no digit.  The pair stands for their value.
-/
theorem parseIntegerPart_spec {W rest : List UInt8} (stop : ∀ c ∈ rest.head?, isdigit c = false)
    (lead : W = [48] ∨ ∃ c W', W = c :: W' ∧ c ≠ 48) (digits : ∀ c ∈ W, isdigit c = true)
    (fits : digitsValue W < 10 ^ 18) :
    ∃ mantissa tzeros, parseIntegerPart (W ++ rest) = some (mantissa, tzeros, rest) ∧
      0 ≤ mantissa ∧ mantissa * 10 ^ tzeros = digitsValue W ∧ (digitsValue W = 0 → tzeros = 0) := by
  rcases lead with rfl | ⟨c, W', rfl, nonzero⟩
  · exact ⟨0, 0, by simp [parseIntegerPart], le_rfl, by simp [digitValue], fun _ => rfl⟩
  · have digit := (isdigit_iff c).mp (digits c List.mem_cons_self)
    have leading : (49 ≤ c && c ≤ 57) = true := by
      have different : c.toNat ≠ 48 := fun same => nonzero (UInt8.toNat_inj.mp same)
      simp only [Bool.and_eq_true, decide_eq_true_eq, UInt8.le_iff_toNat_le, UInt8.reduceToNat]
      omega
    obtain ⟨mantissa, tzeros, read, nonneg, -, value⟩ :=
      mantissaDigits_spec stop (c :: W') 0 0 digits le_rfl (by simpa using fits)
    rw [List.cons_append] at read
    refine ⟨mantissa, tzeros, ?_, nonneg, by simpa using value, ?_⟩
    · simp [parseIntegerPart, nonzero, leading, read]
    · intro zero
      exact absurd zero (digitsValue_pos (digits c List.mem_cons_self) nonzero).ne'

/-- The part after the point: digits up to the end of the string. -/
theorem parseFractionPart_spec {G : List UInt8} {mantissa : Int} {tzeros : Nat}
    (digits : ∀ c ∈ G, isdigit c = true) (nonempty : G ≠ []) (nonneg : 0 ≤ mantissa)
    (fits : mantissa * 10 ^ tzeros * 10 ^ G.length + digitsValue G < 10 ^ 18) :
    ∃ mantissa' tzeros', parseFractionPart mantissa tzeros (46 :: G) =
        some (mantissa', tzeros', G.length, []) ∧
      0 ≤ mantissa' ∧ tzeros' ≤ tzeros + G.length ∧
      mantissa' * 10 ^ tzeros' = mantissa * 10 ^ tzeros * 10 ^ G.length + digitsValue G := by
  obtain ⟨mantissa', tzeros', read, facts⟩ :=
    @mantissaDigits_spec [] nofun G mantissa tzeros digits nonneg fits
  refine ⟨mantissa', tzeros', ?_, facts⟩
  cases G with
  | nil => exact absurd rfl nonempty
  | cons d G =>
      rw [List.append_nil] at read
      simp [parseFractionPart, digits d List.mem_cons_self, read]

/-- A positive mantissa times `10 ^ e` below `10 ^ 18` has `e < 18`. -/
theorem exponent_lt_of_pos {mantissa : Int} {e : Nat} (positive : 0 < mantissa)
    (fits : mantissa * 10 ^ e < 10 ^ 18) : e < 18 := by
  have power : (10 : Int) ^ e < 10 ^ 18 :=
    lt_of_le_of_lt (le_mul_of_one_le_left (by positivity) positive) fits
  exact (pow_lt_pow_iff_right₀ (by norm_num)).mp power

/--
`ParseFixedPoint` after its sign, on digits, a point and more digits whose
value, scaled to `decimals` places, is below `10 ^ 18`: that scaled value,
negated after a `'-'`.
-/
theorem parseFixedPoint_of_sign {val W G : List UInt8} {sign : Bool} {decimals : Nat}
    (signed : parseSign val = (sign, W ++ 46 :: G))
    (lead : W = [48] ∨ ∃ c W', W = c :: W' ∧ c ≠ 48) (digitsW : ∀ c ∈ W, isdigit c = true)
    (digitsG : ∀ c ∈ G, isdigit c = true) (nonempty : G ≠ []) (places : G.length ≤ decimals)
    (wide : decimals < 18) (fits : digitsValue (W ++ G) * 10 ^ (decimals - G.length) < 10 ^ 18) :
    parseFixedPoint val decimals =
      some (if sign then -((digitsValue (W ++ G) * 10 ^ (decimals - G.length) : Nat) : Int)
        else ((digitsValue (W ++ G) * 10 ^ (decimals - G.length) : Nat) : Int)) := by
  have split := digitsValue_append W G
  have scale_pos : 1 ≤ 10 ^ (decimals - G.length) := Nat.one_le_pow _ _ (by decide)
  have value_fits : digitsValue (W ++ G) < 10 ^ 18 :=
    lt_of_le_of_lt (Nat.le_mul_of_pos_right _ scale_pos) fits
  have whole_fits : digitsValue W < 10 ^ 18 := by
    have scaled_up : digitsValue W ≤ digitsValue W * 10 ^ G.length :=
      Nat.le_mul_of_pos_right _ (Nat.pow_pos (by decide))
    omega
  obtain ⟨mantissa, tzeros, integer, nonneg, value, zero_tzeros⟩ :=
    @parseIntegerPart_spec W (46 :: G) (fun c first => by
      rw [List.head?_cons, Option.mem_some_iff] at first
      rw [← first]
      rfl) lead digitsW whole_fits
  obtain ⟨mantissa', tzeros', fraction, nonneg', grown, value'⟩ :=
    parseFractionPart_spec digitsG nonempty nonneg (by rw [value]; exact_mod_cast split ▸ value_fits)
  have read : mantissa' * 10 ^ tzeros' = digitsValue (W ++ G) := by
    rw [value', value, split]
    push_cast
    ring
  have exponent : (0 : Int) - G.length + tzeros' + decimals =
      ((tzeros' + (decimals - G.length) : Nat) : Int) := by
    omega
  have scaled : mantissa' * 10 ^ (tzeros' + (decimals - G.length)) =
      ((digitsValue (W ++ G) * 10 ^ (decimals - G.length) : Nat) : Int) := by
    rw [pow_add, ← mul_assoc, read]
    push_cast
    rfl
  have below : tzeros' + (decimals - G.length) < 18 := by
    rcases Nat.eq_zero_or_pos (digitsValue (W ++ G)) with zero | positive
    · rw [split] at zero
      have whole_zero : digitsValue W = 0 :=
        (Nat.mul_eq_zero.mp (Nat.add_eq_zero_iff.mp zero).1).resolve_right (Nat.pow_pos (by decide)).ne'
      have no_zeros := zero_tzeros whole_zero
      omega
    · have positive' : 0 < mantissa' := by
        rcases nonneg'.lt_or_eq with positive' | zero
        · exact positive'
        · rw [← zero, zero_mul] at read
          omega
      exact exponent_lt_of_pos positive' (by rw [scaled]; exact_mod_cast fits)
  have magnitude : |(if sign then -mantissa' else mantissa')| *
      10 ^ (tzeros' + (decimals - G.length)) < 10 ^ 18 := by
    have same : |(if sign then -mantissa' else mantissa')| = mantissa' := by
      cases sign <;> simp [abs_of_nonneg nonneg']
    rw [same, scaled]
    exact_mod_cast fits
  have guard : ¬ (decide ((if sign then -mantissa' else mantissa') *
      10 ^ (tzeros' + (decimals - G.length)) > UPPER_BOUND) ||
        decide ((if sign then -mantissa' else mantissa') * 10 ^ (tzeros' + (decimals - G.length)) <
          -UPPER_BOUND)) = true := by
    have limit : (10 : Int) ^ 18 = 1000000000000000000 := by norm_num
    have bounds : |(if sign then -mantissa' else mantissa') * 10 ^ (tzeros' + (decimals - G.length))| <
        10 ^ 18 := by
      rw [abs_mul, abs_of_pos (by positivity : (0 : Int) < 10 ^ (tzeros' + (decimals - G.length)))]
      exact magnitude
    rw [abs_lt] at bounds
    rw [Bool.or_eq_true, decide_eq_true_iff, decide_eq_true_iff, UPPER_BOUND]
    omega
  unfold parseFixedPoint
  simp only [signed, integer, fraction, Option.bind_eq_bind, Option.bind_some]
  simp only [parseExponentPart, Option.bind_some, List.isEmpty_nil, Bool.not_true, Bool.false_eq_true,
    if_false]
  rw [exponent, if_neg (by omega), if_neg (by omega), Int.toNat_natCast, scaleMantissa_eq _ _ magnitude,
    Option.bind_some, if_neg guard]
  cases sign <;> simp [scaled]

/--
`ParseFixedPoint` reads digits, a point and more digits, with or without a
leading `'-'`, whenever the value they stand for at `decimals` places is
below `10 ^ 18`.
-/
theorem parseFixedPoint_decimal {W G : List UInt8} {decimals : Nat}
    (lead : W = [48] ∨ ∃ c W', W = c :: W' ∧ c ≠ 48) (digitsW : ∀ c ∈ W, isdigit c = true)
    (digitsG : ∀ c ∈ G, isdigit c = true) (nonempty : G ≠ []) (places : G.length ≤ decimals)
    (wide : decimals < 18) (fits : digitsValue (W ++ G) * 10 ^ (decimals - G.length) < 10 ^ 18) :
    parseFixedPoint (W ++ 46 :: G) decimals =
        some ((digitsValue (W ++ G) * 10 ^ (decimals - G.length) : Nat) : Int) ∧
      parseFixedPoint (45 :: (W ++ 46 :: G)) decimals =
        some (-((digitsValue (W ++ G) * 10 ^ (decimals - G.length) : Nat) : Int)) := by
  have unsigned : parseSign (W ++ 46 :: G) = (false, W ++ 46 :: G) := by
    obtain ⟨c, W', rfl⟩ : ∃ c W', W = c :: W' := by
      rcases lead with rfl | ⟨c, W', rfl, -⟩ <;> exact ⟨_, _, rfl⟩
    have not_minus : (c == 45) = false := isdigit_beq_eq_false (digitsW c List.mem_cons_self) (by decide)
    simp [parseSign, not_minus]
  have negative : parseSign (45 :: (W ++ 46 :: G)) = (true, W ++ 46 :: G) := rfl
  constructor
  · simpa using parseFixedPoint_of_sign unsigned lead digitsW digitsG nonempty places wide fits
  · simpa using parseFixedPoint_of_sign negative lead digitsW digitsG nonempty places wide fits

end Dogecoin.Util
