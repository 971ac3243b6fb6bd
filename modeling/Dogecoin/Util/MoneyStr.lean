import Mathlib.Data.List.GetD
import Dogecoin.Primitives.Transaction
import Dogecoin.Util.StrEncodings

/-!
# Formatting and parsing amounts (utilmoneystr.cpp)

`FormatMoney` writes an amount as its whole coins, a point and eight
decimals, and right-trims the zeros of the decimals down to two.
`ParseMoney` reads at most ten whole digits and eight decimals, with
whitespace around them; `ParseFixedPoint` with eight places reads the same
strings, and a sign.

The string `FormatMoney` writes is the digits of the whole coins, a point and
two to eight digits that stand for the atomary units (`formatMoney_eq`).
Both parsers read it back for every amount below `MAX_MONEY` in magnitude,
and what `ParseMoney` accepts is a sum of ten whole digits and eight decimals,
below `MAX_MONEY`.  `MAX_MONEY` itself is `10 ^ 10` coins: its eleven whole
digits are more than `ParseMoney` takes, and its exponent 18 is one more than
`ParseFixedPoint` takes, so neither reads `FormatMoney(MAX_MONEY)` back.

`strprintf("%d.%08d", ...)` is `Nat.toDigits`, the digits Lean prints, and
amounts are integers: `FormatMoney` reads the magnitude of its amount, which
for `INT64_MIN` would not fit in 64 bits.
-/

namespace Dogecoin.Util

open Dogecoin.Primitives

/-- `E8COIN` (amount.h): the atomary units of a coin. -/
def E8COIN : Int :=
  100000000

/-- `E8CENT` (amount.h), which is `E6COIN`. -/
def E8CENT : Int :=
  1000000

/-- `%0<width>d` of a number that is not negative: its digits, padded on the left with `'0'`. -/
def formatDecimal (width n : Nat) : List UInt8 :=
  List.replicate (width - (Nat.toDigits 10 n).length) 48 ++ (Nat.toDigits 10 n).map Char.toUInt8

/-- The loop of `FormatMoney` that counts `nTrim`, from index `i` down. -/
def trimCount (str : List UInt8) : Nat → Nat
  | i + 2 =>
      if str.getD (i + 2) 0 == 48 && isdigit (str.getD i 0) then trimCount str (i + 1) + 1 else 0
  | _ => 0

/-- `FormatMoney`. -/
def formatMoney (n : Int) : List UInt8 :=
  -- not using straight sprintf here because we do NOT want
  -- localized number formatting
  let n_abs := if n > 0 then n else -n
  -- `n_abs` is not negative, where the division and remainder of C are those of Lean
  let quotient := n_abs / E8COIN
  let remainder := n_abs % E8COIN
  let str := formatDecimal 0 quotient.toNat ++ [46] ++ formatDecimal 8 remainder.toNat
  -- Right-trim excess zeros before the decimal point:
  let nTrim := trimCount str (str.length - 1)
  let str := if nTrim > 0 then str.take (str.length - nTrim) else str
  if n < 0 then 45 :: str else str

/-- The digits after the point in `ParseMoney`, one for each `nMult` down to the last. -/
def parseUnits : List UInt8 → Int → Int → Int × List UInt8
  | [], _, nUnits => (nUnits, [])
  | c :: p, nMult, nUnits =>
      if isdigit c && nMult > 0 then parseUnits p (nMult / 10) (nUnits + nMult * ((c.toNat : Int) - 48))
      else (nUnits, c :: p)

/--
The loop `for ( ; *p ; p ++ )` of `ParseMoney`: the whole digits, the units
after a point, and the characters left; `none` where it returns false.
-/
def parseWhole : List UInt8 → List UInt8 → Option (List UInt8 × Int × List UInt8)
  | [], strWhole => some (strWhole, 0, [])
  | c :: p, strWhole =>
      if c == 46 then
        let units := parseUnits p (E8CENT * 10) 0
        some (strWhole, units.1, units.2)
      else if isspace c then some (strWhole, 0, c :: p)
      else if !isdigit c then none
      else parseWhole p (strWhole ++ [c])

/-- `ParseMoney(str, nRet)`: the amount, or `none` where it returns false. -/
def parseMoney (str : List UInt8) : Option Int := do
  let p := (cStr str).dropWhile isspace
  let (strWhole, nUnits, p) ← parseWhole p []
  if !p.all isspace then none
  if strWhole.length > 10 then none -- guard against 63 bit overflow
  if nUnits < 0 || nUnits > E8COIN then none
  let nWhole := atoi64 strWhole
  let nValue := nWhole * E8COIN + nUnits
  pure nValue

example : formatMoney 123450000 = "1.2345".toList.map Char.toUInt8 := by decide

example : parseMoney (" 1.2345 ".toList.map Char.toUInt8) = some 123450000 := by decide

/-! ## The digits `%d` prints -/

/-- The decimal digits of `n`, most significant first, as `%d` prints them. -/
def decimalDigits (n : Nat) : List Nat :=
  if n = 0 then [0] else (Nat.digits 10 n).reverse

/-- The character of each digit, as a byte. -/
def digitBytes (ds : List Nat) : List UInt8 :=
  ds.map fun d => UInt8.ofNat (48 + d)

theorem digitByte_facts : ∀ d < 10, isdigit (UInt8.ofNat (48 + d)) = true ∧
    digitValue (UInt8.ofNat (48 + d)) = d ∧ (UInt8.ofNat (48 + d) = 48 ↔ d = 0) := by
  decide

theorem digitChar_toUInt8 : ∀ d < 10, (Nat.digitChar d).toUInt8 = UInt8.ofNat (48 + d) := by
  decide

theorem decimalDigits_lt (n : Nat) : ∀ d ∈ decimalDigits n, d < 10 := by
  unfold decimalDigits
  split
  · simp
  · exact fun d member => Nat.digits_lt_base (by decide) (List.mem_reverse.mp member)

theorem ofDigits_decimalDigits (n : Nat) : Nat.ofDigits 10 (decimalDigits n).reverse = n := by
  unfold decimalDigits
  split
  · simp [*]
  · rw [List.reverse_reverse, Nat.ofDigits_digits]

/-- `Nat.toDigits` in base ten is the characters of the decimal digits. -/
theorem toDigits_ten (n : Nat) : Nat.toDigits 10 n = (decimalDigits n).map Nat.digitChar := by
  induction n using Nat.strong_induction_on with
  | _ n more =>
      rw [Nat.toDigits_eq_if (by decide)]
      split
      · rename_i small
        rcases Nat.eq_zero_or_pos n with rfl | positive
        · rfl
        · simp [decimalDigits, positive.ne', Nat.digits_of_lt 10 n positive.ne' small]
      · rename_i large
        have top : 0 < n / 10 := Nat.div_pos (by omega) (by decide)
        rw [more (n / 10) (Nat.div_lt_self (by omega) (by decide))]
        simp [decimalDigits, top.ne', (show n ≠ 0 by omega),
          Nat.digits_eq_cons_digits_div (show 1 < 10 by decide) (show n ≠ 0 by omega)]

theorem length_decimalDigits_le {n k : Nat} (positive : 0 < k) :
    (decimalDigits n).length ≤ k ↔ n < 10 ^ k := by
  rw [← Nat.length_toDigits_le_iff (by decide) positive, toDigits_ten, List.length_map]

/-- `%0<width>d` is the bytes of the decimal digits after zeros up to the width. -/
theorem formatDecimal_eq (width n : Nat) :
    formatDecimal width n =
      digitBytes (List.replicate (width - (decimalDigits n).length) 0 ++ decimalDigits n) := by
  have bytes : (decimalDigits n).map (Char.toUInt8 ∘ Nat.digitChar) = digitBytes (decimalDigits n) :=
    List.map_congr_left fun d member => digitChar_toUInt8 d (decimalDigits_lt n d member)
  rw [formatDecimal, toDigits_ten, List.length_map, List.map_map, bytes]
  simp only [digitBytes, List.map_append, List.map_replicate]
  rfl

theorem isdigit_digitBytes {ds : List Nat} (small : ∀ d ∈ ds, d < 10) :
    ∀ c ∈ digitBytes ds, isdigit c = true := by
  intro c member
  obtain ⟨d, inside, rfl⟩ := List.mem_map.mp member
  exact (digitByte_facts d (small d inside)).1

theorem digitsValue_digitBytes {ds : List Nat} (small : ∀ d ∈ ds, d < 10) :
    digitsValue (digitBytes ds) = Nat.ofDigits 10 ds.reverse := by
  have values : (digitBytes ds).map digitValue = ds := by
    rw [digitBytes, List.map_map]
    exact (List.map_congr_left fun d member => (digitByte_facts d (small d member)).2.1).trans
      (List.map_id _)
  rw [digitsValue_eq_ofDigits, values]

theorem isdigit_formatDecimal (width n : Nat) : ∀ c ∈ formatDecimal width n, isdigit c = true := by
  rw [formatDecimal_eq]
  apply isdigit_digitBytes
  intro d member
  rcases List.mem_append.mp member with zero | digit
  · rw [List.eq_of_mem_replicate zero]
    decide
  · exact decimalDigits_lt n d digit

theorem digitsValue_formatDecimal (width n : Nat) : digitsValue (formatDecimal width n) = n := by
  rw [formatDecimal_eq, digitsValue_digitBytes, List.reverse_append, List.reverse_replicate,
    Nat.ofDigits_append_replicate_zero, ofDigits_decimalDigits]
  intro d member
  rcases List.mem_append.mp member with zero | digit
  · rw [List.eq_of_mem_replicate zero]
    decide
  · exact decimalDigits_lt n d digit

theorem length_formatDecimal {width n : Nat} (fits : n < 10 ^ width) (positive : 0 < width) :
    (formatDecimal width n).length = width := by
  have short := (length_decimalDigits_le positive).mpr fits
  rw [formatDecimal_eq, digitBytes, List.length_map, List.length_append, List.length_replicate]
  omega

theorem length_formatDecimal_zero_le {n k : Nat} (positive : 0 < k) :
    (formatDecimal 0 n).length ≤ k ↔ n < 10 ^ k := by
  rw [formatDecimal_eq, digitBytes, List.length_map, Nat.zero_sub, List.replicate_zero, List.nil_append]
  exact length_decimalDigits_le positive

/-- `%d` writes a single `'0'`, or digits that do not start with one. -/
theorem formatDecimal_lead (n : Nat) :
    formatDecimal 0 n = [48] ∨ ∃ c W', formatDecimal 0 n = c :: W' ∧ c ≠ 48 := by
  rw [formatDecimal_eq, Nat.zero_sub, List.replicate_zero, List.nil_append]
  unfold decimalDigits
  split
  · exact .inl rfl
  · rename_i positive
    have nonempty : (Nat.digits 10 n).reverse ≠ [] := by simpa using Nat.digits_ne_nil_iff_ne_zero.mpr positive
    obtain ⟨d, ds, split⟩ := List.exists_cons_of_ne_nil nonempty
    have top : d ≠ 0 := head_digits_reverse 10 n d (by rw [split]; rfl)
    have digit : d < 10 := Nat.digits_lt_base (by decide) (List.mem_reverse.mp (split ▸ List.mem_cons_self))
    refine .inr ⟨UInt8.ofNat (48 + d), digitBytes ds, by rw [split]; rfl, ?_⟩
    exact fun same => top ((digitByte_facts d digit).2.2.mp same)

theorem digitsValue_replicate_zero (count : Nat) : digitsValue (List.replicate count 48) = 0 := by
  rw [digitsValue_eq_ofDigits, List.map_replicate, List.reverse_replicate]
  exact Nat.ofDigits_replicate_zero

/-! ## The string `FormatMoney` writes -/

theorem trimCount_succ_succ (str : List UInt8) (i : Nat) :
    trimCount str (i + 2) =
      if str.getD (i + 2) 0 == 48 && isdigit (str.getD i 0) then trimCount str (i + 1) + 1 else 0 :=
  rfl

/-- What the trimming loop reads after the point. -/
theorem getD_after_point {pre E : List UInt8} {j : Nat} (after : pre.length + 1 ≤ j) :
    (pre ++ 46 :: E).getD j 0 = E.getD (j - pre.length - 1) 0 := by
  have split : pre ++ 46 :: E = (pre ++ [46]) ++ E := by simp
  rw [split, List.getD_append_right _ _ _ _ (by simpa using after), List.length_append,
    List.length_singleton, Nat.sub_add_eq]

/--
The trimming loop of `FormatMoney` over a point, digits `D` and `T` zeros,
started at the `k`-th zero: it counts the zeros up to there.  It stops at `D`,
which ends in some other digit, or has only the two digits the loop keeps
because the point stands two characters before the second.
-/
theorem trimCount_zeros {pre D : List UInt8} {T : Nat} (digits : ∀ c ∈ D, isdigit c = true)
    (two : 2 ≤ D.length) (stop : D.length = 2 ∨ ∀ c ∈ D.getLast?, c ≠ 48) :
    ∀ k ≤ T, trimCount (pre ++ 46 :: (D ++ List.replicate T 48)) (pre.length + D.length + k) = k := by
  have after : ∀ j, pre.length + 1 ≤ j → j < pre.length + 1 + D.length + T →
      isdigit ((pre ++ 46 :: (D ++ List.replicate T 48)).getD j 0) = true := by
    intro j low high
    have index : j - pre.length - 1 < (D ++ List.replicate T 48).length := by simp; omega
    rw [getD_after_point low, List.getD_eq_getElem _ _ index]
    rcases List.mem_append.mp (List.getElem_mem index) with inside | zero
    · exact digits _ inside
    · rw [List.eq_of_mem_replicate zero]
      rfl
  have zeros : ∀ k < T, (pre ++ 46 :: (D ++ List.replicate T 48)).getD (pre.length + D.length + (k + 1)) 0 = 48 := by
    intro k below
    rw [getD_after_point (by omega), List.getD_append_right _ _ _ _ (by omega),
      show pre.length + D.length + (k + 1) - pre.length - 1 - D.length = k by omega,
      List.getD_replicate _ (by omega)]
  intro k
  induction k with
  | zero =>
      intro _
      obtain ⟨i, hi⟩ : ∃ i, pre.length + D.length + 0 = i + 2 := ⟨pre.length + D.length - 2, by omega⟩
      rw [hi, trimCount_succ_succ]
      rcases stop with pair | last
      · have point : (pre ++ 46 :: (D ++ List.replicate T 48)).getD i 0 = 46 := by
          rw [show i = pre.length by omega, List.getD_eq_getElem _ _ (by simp)]
          simp
        rw [point, show isdigit 46 = false from rfl, Bool.and_false, if_neg Bool.false_ne_true]
      · have nonempty : D ≠ [] := List.ne_nil_of_length_pos (by omega)
        have ends : (pre ++ 46 :: (D ++ List.replicate T 48)).getD (i + 2) 0 = D.getLast nonempty := by
          rw [getD_after_point (by omega), List.getD_append _ _ _ _ (by omega),
            List.getD_eq_getElem _ _ (by omega), List.getLast_eq_getElem]
          congr 1
          omega
        have different := last _ (List.getLast?_eq_some_getLast nonempty)
        rw [ends, beq_eq_false_iff_ne.mpr different, Bool.false_and, if_neg Bool.false_ne_true]
  | succ k more =>
      intro bounded
      obtain ⟨i, hi⟩ : ∃ i, pre.length + D.length + (k + 1) = i + 2 :=
        ⟨pre.length + D.length + k - 1, by omega⟩
      have digit := after i (by omega) (by omega)
      have zero := zeros k (by omega)
      rw [hi] at zero ⊢
      rw [trimCount_succ_succ, zero, digit, show i + 1 = pre.length + D.length + k by omega,
        more (by omega)]
      rfl

/-- A list is a part that does not end in `c`, then copies of `c`. -/
theorem eq_append_replicate (c : UInt8) (l : List UInt8) :
    ∃ X T, l = X ++ List.replicate T c ∧ ∀ x ∈ X.getLast?, x ≠ c := by
  induction l using List.reverseRecOn with
  | nil => exact ⟨[], 0, rfl, nofun⟩
  | append_singleton l x more =>
      by_cases same : x = c
      · obtain ⟨X, T, rfl, last⟩ := more
        refine ⟨X, T + 1, ?_, last⟩
        rw [same, List.replicate_succ', List.append_assoc]
      · exact ⟨l ++ [x], 0, by simp, by simpa using same⟩

/--
`FormatMoney` writes the digits of the whole coins, a point, and two to eight
digits that stand for the atomary units left, after a `'-'` for a negative
amount.
-/
theorem formatMoney_eq (n : Int) :
    ∃ G, formatMoney n = (if n < 0 then [45] else []) ++
        (formatDecimal 0 (n.natAbs / 100000000) ++ 46 :: G) ∧
      2 ≤ G.length ∧ G.length ≤ 8 ∧ (∀ c ∈ G, isdigit c = true) ∧
      digitsValue G * 10 ^ (8 - G.length) = n.natAbs % 100000000 := by
  set W := formatDecimal 0 (n.natAbs / 100000000)
  set F := formatDecimal 8 (n.natAbs % 100000000) with hF
  have F_length : F.length = 8 := length_formatDecimal (Nat.mod_lt _ (by decide)) (by decide)
  obtain ⟨X, T, rest, last⟩ := eq_append_replicate 48 (F.drop 2)
  have F_split : F = (F.take 2 ++ X) ++ List.replicate T 48 := by
    rw [List.append_assoc, ← rest, List.take_append_drop]
  have two : 2 ≤ (F.take 2 ++ X).length := by simp [F_length]
  have stop : (F.take 2 ++ X).length = 2 ∨ ∀ c ∈ (F.take 2 ++ X).getLast?, c ≠ 48 := by
    cases X with
    | nil => exact .inl (by simp [F_length])
    | cons x xs =>
        right
        rw [List.getLast?_append, List.getLast?_eq_some_getLast (List.cons_ne_nil x xs), Option.some_or,
          ← List.getLast?_eq_some_getLast]
        exact last
  generalize F.take 2 ++ X = D at F_split two stop
  have D_length : D.length + T = 8 := by
    have lengths := congrArg List.length F_split
    rw [F_length, List.length_append, List.length_replicate] at lengths
    omega
  have D_digits : ∀ c ∈ D, isdigit c = true :=
    fun c member => isdigit_formatDecimal 8 _ c (hF ▸ F_split ▸ List.mem_append_left _ member)
  have trimmed : trimCount (W ++ 46 :: (D ++ List.replicate T 48))
      ((W ++ 46 :: (D ++ List.replicate T 48)).length - 1) = T := by
    have last_index : (W ++ 46 :: (D ++ List.replicate T 48)).length - 1 = W.length + D.length + T := by
      simp only [List.length_append, List.length_cons, List.length_replicate]
      omega
    rw [last_index]
    exact trimCount_zeros D_digits two stop T le_rfl
  have kept : (if T > 0 then (W ++ 46 :: (D ++ List.replicate T 48)).take
      ((W ++ 46 :: (D ++ List.replicate T 48)).length - T) else W ++ 46 :: (D ++ List.replicate T 48)) =
        W ++ 46 :: D := by
    have regroup : W ++ 46 :: (D ++ List.replicate T 48) = (W ++ 46 :: D) ++ List.replicate T 48 := by simp
    split
    · rw [regroup, List.take_left' (by simp; omega)]
    · rw [show T = 0 by omega, List.replicate_zero, List.append_nil]
  refine ⟨D, ?_, two, by omega, D_digits, ?_⟩
  · have magnitude : (if n > 0 then n else -n) = (n.natAbs : Int) := by split <;> omega
    have coins : ((n.natAbs : Int) / E8COIN).toNat = n.natAbs / 100000000 := by
      simp only [E8COIN]
      omega
    have units : ((n.natAbs : Int) % E8COIN).toNat = n.natAbs % 100000000 := by
      simp only [E8COIN]
      omega
    have str : formatDecimal 0 (n.natAbs / 100000000) ++ [46] ++ F = W ++ 46 :: (D ++ List.replicate T 48) := by
      rw [F_split, List.append_assoc, List.singleton_append]
    unfold formatMoney
    simp only [magnitude, coins, units, ← hF, str, trimmed, kept]
    split <;> rfl
  · have value := digitsValue_formatDecimal 8 (n.natAbs % 100000000)
    rw [← hF, F_split, digitsValue_append, digitsValue_replicate_zero, List.length_replicate,
      Nat.add_zero] at value
    rw [show 8 - D.length = T by omega, value]

/-! ## `ParseMoney` -/

theorem parseUnits_zero (p : List UInt8) (nUnits : Int) : parseUnits p 0 nUnits = (nUnits, p) := by
  cases p with
  | nil => rfl
  | cons c p => simp [parseUnits]

theorem ten_pow_div_ten (j : Nat) : (10 : Int) ^ (j + 1) / 10 = 10 ^ j := by
  rw [pow_succ, Int.mul_ediv_cancel _ (by decide)]

/-- Digits after the point, as many as the multipliers from `10 ^ j` down: their value, scaled. -/
theorem parseUnits_digits : ∀ (G : List UInt8) (j : Nat) (nUnits : Int), (∀ c ∈ G, isdigit c = true) →
    G.length ≤ j + 1 → parseUnits G (10 ^ j) nUnits = (nUnits + digitsValue G * 10 ^ (j + 1 - G.length), [])
  | [], j, nUnits, _, _ => by simp [parseUnits]
  | c :: G, j, nUnits, digits, short => by
      have digit := digits c List.mem_cons_self
      have split : (digitsValue (c :: G) : Int) = digitValue c * 10 ^ G.length + digitsValue G := by
        rw [← List.singleton_append, digitsValue_append, digitsValue_singleton]
        push_cast
        ring
      have guard : (isdigit c && decide ((10 : Int) ^ j > 0)) = true := by
        simp [digit, pow_pos]
      rw [parseUnits, if_pos guard, ← digitValue_cast digit]
      cases G with
      | nil => simp [parseUnits, mul_comm]
      | cons d G =>
          obtain ⟨j, rfl⟩ : ∃ j', j = j' + 1 := ⟨j - 1, by simp at short; omega⟩
          rw [ten_pow_div_ten, parseUnits_digits (d :: G) j _ (fun e member => digits e (List.mem_cons_of_mem c member))
            (by simpa using short), split]
          have shift : (10 : Int) ^ (j + 1) = 10 ^ (d :: G).length * 10 ^ (j + 1 - (d :: G).length) := by
            rw [← pow_add]
            congr 1
            simp at short ⊢
            omega
          simp only [Prod.mk.injEq, and_true]
          rw [shift, show j + 1 + 1 - (c :: d :: G).length = j + 1 - (d :: G).length by simp]
          ring

/-- Whatever follows the point, the units stay below ten times the first multiplier. -/
theorem parseUnits_lt : ∀ (p : List UInt8) (j : Nat) (nUnits : Int),
    nUnits ≤ (parseUnits p (10 ^ j) nUnits).1 ∧ (parseUnits p (10 ^ j) nUnits).1 < nUnits + 10 ^ (j + 1)
  | [], j, nUnits => by
      have : (0 : Int) < 10 ^ (j + 1) := by positivity
      simp only [parseUnits]
      omega
  | c :: p, j, nUnits => by
      have scale : (0 : Int) < 10 ^ j := by positivity
      by_cases digit : isdigit c = true
      · have bounds := (isdigit_iff c).mp digit
        have low : 0 ≤ (10 : Int) ^ j * ((c.toNat : Int) - 48) := mul_nonneg scale.le (by omega)
        have high : (10 : Int) ^ j * ((c.toNat : Int) - 48) ≤ 10 ^ j * 9 :=
          mul_le_mul_of_nonneg_left (by omega) scale.le
        have guard : (isdigit c && decide ((10 : Int) ^ j > 0)) = true := by simp [digit, scale]
        rw [parseUnits, if_pos guard]
        cases j with
        | zero =>
            rw [show (10 : Int) ^ 0 / 10 = 0 by decide, parseUnits_zero]
            simp only [pow_zero, zero_add, pow_one] at low high ⊢
            omega
        | succ j =>
            rw [ten_pow_div_ten]
            have rest := parseUnits_lt p j (nUnits + 10 ^ (j + 1) * ((c.toNat : Int) - 48))
            have larger : (10 : Int) ^ (j + 1 + 1) = 10 ^ (j + 1) * 10 := pow_succ _ _
            omega
      · have guard : ¬ (isdigit c && decide ((10 : Int) ^ j > 0)) = true := by simp [digit]
        have : (0 : Int) < 10 ^ (j + 1) := by positivity
        rw [parseUnits, if_neg guard]
        omega

/-- `ParseMoney` over whole digits and a point: the digits, and the units after the point. -/
theorem parseWhole_digits {G : List UInt8} : ∀ (W strWhole : List UInt8), (∀ c ∈ W, isdigit c = true) →
    parseWhole (W ++ 46 :: G) strWhole =
      some (strWhole ++ W, (parseUnits G (E8CENT * 10) 0).1, (parseUnits G (E8CENT * 10) 0).2)
  | [], strWhole, _ => by simp [parseWhole]
  | c :: W, strWhole, digits => by
      have digit := digits c List.mem_cons_self
      have not_point : (c == 46) = false := isdigit_beq_eq_false digit (by decide)
      rw [List.cons_append, parseWhole, not_point, isspace_eq_false_of_isdigit digit, digit,
        parseWhole_digits W _ fun d member => digits d (List.mem_cons_of_mem c member)]
      simp

/-- What the loop of `ParseMoney` returns: digits, and units below a coin. -/
theorem parseWhole_spec : ∀ {p strWhole : List UInt8} {whole : List UInt8} {nUnits : Int} {rest : List UInt8},
    parseWhole p strWhole = some (whole, nUnits, rest) → (∀ c ∈ strWhole, isdigit c = true) →
      (∀ c ∈ whole, isdigit c = true) ∧ 0 ≤ nUnits ∧ nUnits < E8COIN
  | [], strWhole, whole, nUnits, rest, read, digits => by
      simp only [parseWhole, Option.some.injEq, Prod.mk.injEq] at read
      obtain ⟨rfl, rfl, -⟩ := read
      exact ⟨digits, le_rfl, by decide⟩
  | c :: p, strWhole, whole, nUnits, rest, read, digits => by
      unfold parseWhole at read
      split at read
      · simp only [Option.some.injEq, Prod.mk.injEq] at read
        obtain ⟨rfl, rfl, -⟩ := read
        have bounds := parseUnits_lt p 7 0
        rw [show (10 : Int) ^ 7 = E8CENT * 10 by decide] at bounds
        exact ⟨digits, by simpa using bounds.1, by simpa [E8COIN] using bounds.2⟩
      · split at read
        · simp only [Option.some.injEq, Prod.mk.injEq] at read
          obtain ⟨rfl, rfl, -⟩ := read
          exact ⟨digits, le_rfl, by decide⟩
        · split at read
          · cases read
          · rename_i digit
            simp only [Bool.not_eq_true', Bool.not_eq_false] at digit
            refine parseWhole_spec read fun d member => ?_
            rcases List.mem_append.mp member with earlier | last
            · exact digits d earlier
            · rw [List.mem_singleton.mp last]
              exact digit

/-- `ParseMoney` on at most ten whole digits, a point and at most eight decimals. -/
theorem parseMoney_decimal {W G : List UInt8} (digitsW : ∀ c ∈ W, isdigit c = true)
    (shortW : W.length ≤ 10) (digitsG : ∀ c ∈ G, isdigit c = true) (shortG : G.length ≤ 8) :
    parseMoney (W ++ 46 :: G) = some (digitsValue W * E8COIN + digitsValue G * 10 ^ (8 - G.length)) := by
  have no_nul : cStr (W ++ 46 :: G) = W ++ 46 :: G := by
    apply cStr_eq_self
    intro c member same
    subst same
    rcases List.mem_append.mp member with whole | point | ⟨-, decimal⟩
    · simpa using (isdigit_iff 0).mp (digitsW 0 whole)
    · simpa using (isdigit_iff 0).mp (digitsG 0 decimal)
  have unspaced : (W ++ 46 :: G).dropWhile isspace = W ++ 46 :: G := by
    apply dropWhile_of_head
    cases W with
    | nil => intro c member; rw [List.nil_append, List.head?_cons, Option.mem_some_iff] at member; rw [← member]; rfl
    | cons c W =>
        intro d member
        rw [List.cons_append, List.head?_cons, Option.mem_some_iff] at member
        rw [← member]
        exact isspace_eq_false_of_isdigit (digitsW c List.mem_cons_self)
  have units := parseUnits_digits G 7 0 digitsG (by omega)
  rw [show (10 : Int) ^ 7 = E8CENT * 10 by decide, zero_add, show 7 + 1 = 8 from rfl] at units
  have whole := @parseWhole_digits G W [] digitsW
  rw [units, List.nil_append] at whole
  have scaled : (digitsValue G : Int) * 10 ^ (8 - G.length) < E8COIN := by
    have small := digitsValue_lt digitsG
    have power : (10 : Nat) ^ G.length * 10 ^ (8 - G.length) = 10 ^ 8 := by
      rw [← pow_add]
      congr 1
      omega
    have : digitsValue G * 10 ^ (8 - G.length) < 10 ^ 8 :=
      power ▸ Nat.mul_lt_mul_of_pos_right small (Nat.pow_pos (by decide))
    simp only [E8COIN]
    exact_mod_cast this
  have nonneg : (0 : Int) ≤ digitsValue G * 10 ^ (8 - G.length) := by positivity
  unfold parseMoney
  simp only [no_nul, unspaced, whole, Option.bind_eq_bind, Option.bind_some]
  have in_range : ¬ (decide ((digitsValue G : Int) * 10 ^ (8 - G.length) < 0) ||
      decide ((digitsValue G : Int) * 10 ^ (8 - G.length) > E8COIN)) = true := by
    rw [Bool.or_eq_true, decide_eq_true_iff, decide_eq_true_iff]
    omega
  rw [if_neg (by simp), if_neg (by omega), if_neg in_range, atoi64_digits digitsW (by omega)]
  rfl

/--
What `ParseMoney` returns is at most ten whole digits of coins plus units
below a coin: it is below `MAX_MONEY`, and each of its terms fits in 64 bits.
-/
theorem parseMoney_eq_some {str : List UInt8} {nValue : Int} (parsed : parseMoney str = some nValue) :
    ∃ nWhole nUnits, 0 ≤ nWhole ∧ nWhole < 10 ^ 10 ∧ 0 ≤ nUnits ∧ nUnits < E8COIN ∧
      nValue = nWhole * E8COIN + nUnits := by
  unfold parseMoney at parsed
  simp only [Option.bind_eq_bind, Option.bind_eq_some_iff] at parsed
  obtain ⟨⟨whole, nUnits, rest⟩, read, finish⟩ := parsed
  obtain ⟨digits, low, high⟩ := parseWhole_spec read nofun
  dsimp only at finish
  split at finish
  · simp at finish
  split at finish
  · simp at finish
  rename_i short
  split at finish
  · simp at finish
  have whole_value := atoi64_digits digits (by omega)
  have small : (digitsValue whole : Int) < 10 ^ 10 := by
    have below := digitsValue_lt digits
    have bounded : (10 : Nat) ^ whole.length ≤ 10 ^ 10 := Nat.pow_le_pow_right (by decide) (by omega)
    exact_mod_cast lt_of_lt_of_le below bounded
  refine ⟨digitsValue whole, nUnits, by positivity, small, low, high, ?_⟩
  rw [← whole_value]
  exact (Option.some.inj finish).symm

/-! ## Round trips -/

/-- The digits `FormatMoney` writes, read as one number at eight places, are the magnitude. -/
theorem digitsValue_formatMoney {n : Int} {G : List UInt8} (eight : G.length ≤ 8)
    (units : digitsValue G * 10 ^ (8 - G.length) = n.natAbs % 100000000) :
    digitsValue (formatDecimal 0 (n.natAbs / 100000000) ++ G) * 10 ^ (8 - G.length) = n.natAbs := by
  have whole := Nat.div_add_mod n.natAbs 100000000
  rw [digitsValue_append, digitsValue_formatDecimal, Nat.add_mul, Nat.mul_assoc, ← pow_add,
    show G.length + (8 - G.length) = 8 by omega, units]
  omega

/-- `ParseMoney` reads back every amount from zero up to below `MAX_MONEY`. -/
theorem parseMoney_formatMoney {n : Int} (nonneg : 0 ≤ n) (below : n < MAX_MONEY) :
    parseMoney (formatMoney n) = some n := by
  obtain ⟨G, formatted, -, eight, digitsG, units⟩ := formatMoney_eq n
  have coins : n.natAbs / 100000000 < 10 ^ 10 := by
    simp only [MAX_MONEY] at below
    omega
  have units' : (digitsValue G : Int) * 10 ^ (8 - G.length) = ((n.natAbs % 100000000 : Nat) : Int) := by
    rw [← units]
    push_cast
    rfl
  rw [formatted, if_neg (by omega), List.nil_append,
    parseMoney_decimal (isdigit_formatDecimal 0 _) ((length_formatDecimal_zero_le (by decide)).mpr coins)
      digitsG eight, digitsValue_formatDecimal, units', E8COIN]
  congr 1
  omega

/-- `ParseFixedPoint` at eight places reads back every amount below `MAX_MONEY` in magnitude. -/
theorem parseFixedPoint_formatMoney {n : Int} (above : -MAX_MONEY < n) (below : n < MAX_MONEY) :
    parseFixedPoint (formatMoney n) 8 = some n := by
  obtain ⟨G, formatted, two, eight, digitsG, units⟩ := formatMoney_eq n
  have value := digitsValue_formatMoney eight units
  have fits : digitsValue (formatDecimal 0 (n.natAbs / 100000000) ++ G) * 10 ^ (8 - G.length) < 10 ^ 18 := by
    rw [value]
    simp only [MAX_MONEY] at above below
    omega
  have nonempty : G ≠ [] := List.ne_nil_of_length_pos (by omega)
  obtain ⟨unsigned, signed⟩ := @parseFixedPoint_decimal _ G 8 (formatDecimal_lead _)
    (isdigit_formatDecimal 0 _) digitsG nonempty eight (by decide) fits
  rw [formatted]
  by_cases negative : n < 0
  · rw [if_pos negative, List.singleton_append]
    rw [value] at signed
    exact signed.trans (congrArg some (by omega))
  · rw [if_neg negative, List.nil_append]
    rw [value] at unsigned
    exact unsigned.trans (congrArg some (by omega))

/--
Amounts below `MAX_MONEY` in magnitude survive formatting and parsing:
`ParseMoney` and `ParseFixedPoint` at eight places read back every such
amount from zero up, and `ParseFixedPoint` every negative one.  What
`ParseMoney` accepts is coins of at most ten digits and units below a coin,
each term and the sum within 64 bits, below `MAX_MONEY`.
-/
theorem formatMoney_roundTrip :
    (∀ n, 0 ≤ n → n < MAX_MONEY →
        parseMoney (formatMoney n) = some n ∧ parseFixedPoint (formatMoney n) 8 = some n) ∧
      (∀ n, -MAX_MONEY < n → n < 0 → parseFixedPoint (formatMoney n) 8 = some n) ∧
      ∀ str nValue, parseMoney str = some nValue →
        (∃ nWhole nUnits, 0 ≤ nWhole ∧ nWhole < 10 ^ 10 ∧ 0 ≤ nUnits ∧ nUnits < E8COIN ∧
          nValue = nWhole * E8COIN + nUnits) ∧ 0 ≤ nValue ∧ nValue < MAX_MONEY := by
  refine ⟨fun n nonneg below => ⟨parseMoney_formatMoney nonneg below,
      parseFixedPoint_formatMoney (by simp only [MAX_MONEY] at below ⊢; omega) below⟩,
    fun n above negative => parseFixedPoint_formatMoney above (by simp only [MAX_MONEY]; omega),
    fun str nValue parsed => ?_⟩
  obtain ⟨nWhole, nUnits, whole_low, whole_high, units_low, units_high, rfl⟩ := parseMoney_eq_some parsed
  refine ⟨⟨nWhole, nUnits, whole_low, whole_high, units_low, units_high, rfl⟩, ?_, ?_⟩
  · simp only [E8COIN]
    omega
  · simp only [E8COIN, MAX_MONEY] at units_high ⊢
    omega

/--
`FormatMoney(MAX_MONEY)` is `"10000000000.00"`: eleven whole digits, more
than `ParseMoney` takes, and at eight places the exponent 18, which
`ParseFixedPoint` refuses, as it does after a `'-'`.
-/
theorem formatMoney_max_money :
    formatMoney MAX_MONEY = "10000000000.00".toList.map Char.toUInt8 ∧
      parseMoney (formatMoney MAX_MONEY) = none ∧ parseFixedPoint (formatMoney MAX_MONEY) 8 = none ∧
      parseFixedPoint (formatMoney (-MAX_MONEY)) 8 = none := by
  decide

end Dogecoin.Util
