import Mathlib.Data.Nat.Digits.Lemmas
import Dogecoin.Lib.TrimRestore

/-!
# Schoolbook conversion between bases in a fixed buffer

A number is converted from one base to another by reading its digits, most
significant first, into a buffer of digits of the target base.  Each digit
multiplies the buffer by the source base and adds itself, with a carry taken
from the least significant digit up.  The carry loop stops once the carry is
spent and it has passed a watermark, the number of digits the buffer has used
so far; above the watermark the buffer holds zeros.

`Holds base size buf length value` says that the buffer, least significant
digit first, holds `value` below the watermark and zeros above it.
`Holds.pass` is one pass of the carry loop and `pushDigits_holds` the whole
conversion, which leaves no carry when the value fits in the buffer;
`Holds.extract` reads the digits back without the zeros at the top, and they
are `Nat.digits` of the value.  `pow_lt_pow_div_succ` sizes the buffer from a
rational bound on the ratio of the logarithms of the two bases.
-/

namespace BaseConversion

/--
One pass of the carry loop over a buffer, least significant digit first: the
buffer times `factor` plus `carry`, walking up from position `i` while there
is a carry or the position is below the watermark `length`.  The result is the
buffer, the carry left where the buffer ends, and the position reached.
-/
def mulAdd (base factor : Nat) : List Nat → Nat → Nat → Nat → List Nat × Nat × Nat
  | [], carry, i, _ => ([], carry, i)
  | d :: ds, carry, i, length =>
      if carry ≠ 0 ∨ i < length then
        let next := mulAdd base factor ds ((carry + factor * d) / base) (i + 1) length
        ((carry + factor * d) % base :: next.1, next.2.1, next.2.2)
      else (d :: ds, carry, i)

/--
The digits `xs`, most significant first, pushed into the buffer one pass
each, the watermark moving to where each pass stopped; `none` when a pass
leaves a carry.
-/
def pushDigits (base factor : Nat) (buf : List Nat) (length : Nat) :
    List Nat → Option (List Nat × Nat)
  | [] => some (buf, length)
  | x :: xs =>
      let pass := mulAdd base factor buf x 0 length
      if pass.2.1 = 0 then pushDigits base factor pass.1 pass.2.2 xs else none

/-- A buffer of `size` digits in base `base` holds `value` below the watermark `length` and zeros above it. -/
structure Holds (base size : Nat) (buf : List Nat) (length value : Nat) : Prop where
  length_eq : buf.length = size
  length_le : length ≤ size
  digits_lt : ∀ d ∈ buf, d < base
  zeros : ∀ d ∈ buf.drop length, d = 0
  value_eq : Nat.ofDigits base buf = value

variable {base factor : Nat}

/-! ## One pass -/

@[simp] theorem length_mulAdd (buf : List Nat) (carry i length : Nat) :
    (mulAdd base factor buf carry i length).1.length = buf.length := by
  fun_induction mulAdd base factor buf carry i length with
  | case1 => rfl
  | case2 d ds carry i length _ next more =>
      rw [List.length_cons, List.length_cons]
      exact congrArg (· + 1) more
  | case3 => rfl

theorem position_mulAdd (buf : List Nat) (carry i length : Nat) :
    i ≤ (mulAdd base factor buf carry i length).2.2 ∧
      (mulAdd base factor buf carry i length).2.2 ≤ i + buf.length := by
  fun_induction mulAdd base factor buf carry i length with
  | case1 => simp
  | case2 d ds carry i length _ next more =>
      have inside : i + 1 ≤ next.2.2 ∧ next.2.2 ≤ i + 1 + ds.length := more
      simp only [List.length_cons]
      omega
  | case3 => simp

theorem digits_lt_mulAdd (base_pos : 0 < base) (buf : List Nat) (carry i length : Nat)
    (digits : ∀ d ∈ buf, d < base) : ∀ d ∈ (mulAdd base factor buf carry i length).1, d < base := by
  fun_induction mulAdd base factor buf carry i length with
  | case1 => simp
  | case2 d ds carry i length _ next more =>
      intro e member
      rcases List.mem_cons.mp member with rfl | later
      · exact Nat.mod_lt _ base_pos
      · exact more (fun e member => digits e (List.mem_cons_of_mem d member)) e later
  | case3 => exact digits

/-- Above where a pass stopped the buffer still holds zeros. -/
theorem zeros_mulAdd (buf : List Nat) (carry i length : Nat)
    (zeros : ∀ d ∈ buf.drop (length - i), d = 0) :
    ∀ d ∈ (mulAdd base factor buf carry i length).1.drop
      ((mulAdd base factor buf carry i length).2.2 - i), d = 0 := by
  fun_induction mulAdd base factor buf carry i length with
  | case1 => simp
  | case2 d ds carry i length _ next more =>
      have above : i + 1 ≤ next.2.2 :=
        (@position_mulAdd base factor ds ((carry + factor * d) / base) (i + 1) length).1
      have shifted : next.2.2 - i = next.2.2 - (i + 1) + 1 := by omega
      rw [shifted, List.drop_succ_cons]
      apply more
      by_cases below : i < length
      · rwa [show length - i = length - (i + 1) + 1 by omega, List.drop_succ_cons] at zeros
      · rw [show length - i = 0 by omega, List.drop_zero] at zeros
        rw [show length - (i + 1) = 0 by omega, List.drop_zero]
        exact fun e member => zeros e (List.mem_cons_of_mem d member)
  | case3 d ds carry i length stop =>
      rw [show length - i = 0 by omega] at zeros
      simpa using zeros

/--
The value equation of a pass: the new buffer and the carry left at its end
are the old buffer times `factor` plus the carry, when the buffer holds zeros
from the watermark on.
-/
theorem value_mulAdd (buf : List Nat) (carry i length : Nat)
    (zeros : ∀ d ∈ buf.drop (length - i), d = 0) :
    Nat.ofDigits base (mulAdd base factor buf carry i length).1 +
        (mulAdd base factor buf carry i length).2.1 * base ^ buf.length =
      factor * Nat.ofDigits base buf + carry := by
  fun_induction mulAdd base factor buf carry i length with
  | case1 => simp
  | case2 d ds carry i length _ next more =>
      have rest_zeros : ∀ e ∈ ds.drop (length - (i + 1)), e = 0 := by
        by_cases below : i < length
        · rwa [show length - i = length - (i + 1) + 1 by omega, List.drop_succ_cons] at zeros
        · rw [show length - i = 0 by omega, List.drop_zero] at zeros
          rw [show length - (i + 1) = 0 by omega, List.drop_zero]
          exact fun e member => zeros e (List.mem_cons_of_mem d member)
      have rest : Nat.ofDigits base next.1 + next.2.1 * base ^ ds.length =
          factor * Nat.ofDigits base ds + (carry + factor * d) / base := more rest_zeros
      have split := Nat.mod_add_div (carry + factor * d) base
      simp only [Nat.ofDigits_cons, List.length_cons, pow_succ]
      calc (carry + factor * d) % base + base * Nat.ofDigits base next.1 +
            next.2.1 * (base ^ ds.length * base)
          = (carry + factor * d) % base +
              base * (Nat.ofDigits base next.1 + next.2.1 * base ^ ds.length) := by ring
        _ = (carry + factor * d) % base +
              base * (factor * Nat.ofDigits base ds + (carry + factor * d) / base) := by rw [rest]
        _ = ((carry + factor * d) % base + base * ((carry + factor * d) / base)) +
              factor * base * Nat.ofDigits base ds := by ring
        _ = factor * (d + base * Nat.ofDigits base ds) + carry := by
              rw [split]
              ring
  | case3 d ds carry i length stop =>
      have spent : carry = 0 := by omega
      have all_zero : ∀ e ∈ d :: ds, e = 0 := by
        rw [show length - i = 0 by omega, List.drop_zero] at zeros
        exact zeros
      have nothing : Nat.ofDigits base (d :: ds) = 0 := by
        rw [List.eq_replicate_iff.mpr ⟨rfl, all_zero⟩, Nat.ofDigits_replicate_zero]
      rw [nothing, spent]
      simp

/-- A pass that adds `x` to a buffer that holds `value` leaves no carry when the result fits. -/
theorem Holds.pass {size : Nat} {buf : List Nat} {length value : Nat}
    (holds : Holds base size buf length value) (base_gt : 1 < base) (x : Nat)
    (fits : factor * value + x < base ^ size) :
    (mulAdd base factor buf x 0 length).2.1 = 0 ∧
      Holds base size (mulAdd base factor buf x 0 length).1 (mulAdd base factor buf x 0 length).2.2
        (factor * value + x) := by
  have zeros : ∀ d ∈ buf.drop (length - 0), d = 0 := by simpa using holds.zeros
  have value := @value_mulAdd base factor buf x 0 length zeros
  have digits := @digits_lt_mulAdd base factor (by omega) buf x 0 length holds.digits_lt
  have below := Nat.ofDigits_lt_base_pow_length base_gt digits
  rw [length_mulAdd, holds.length_eq] at below
  rw [holds.length_eq, holds.value_eq] at value
  have spent : (mulAdd base factor buf x 0 length).2.1 = 0 := by
    by_contra left
    have carried : base ^ size ≤ (mulAdd base factor buf x 0 length).2.1 * base ^ size :=
      Nat.le_mul_of_pos_left _ (Nat.pos_of_ne_zero left)
    omega
  have within := (@position_mulAdd base factor buf x 0 length).2
  have sized := holds.length_eq
  refine ⟨spent, ⟨by rw [length_mulAdd, holds.length_eq], by omega, digits, ?_, ?_⟩⟩
  · simpa using @zeros_mulAdd base factor buf x 0 length zeros
  · rw [spent, Nat.zero_mul, Nat.add_zero] at value
    exact value

/-! ## A whole conversion -/

/-- Reading digits, most significant first, into a number in base `factor`. -/
theorem foldl_horner (xs : List Nat) (value : Nat) :
    xs.foldl (fun v x => factor * v + x) value =
      value * factor ^ xs.length + Nat.ofDigits factor xs.reverse := by
  induction xs generalizing value with
  | nil => simp
  | cons x xs more =>
      rw [List.foldl_cons, more, List.reverse_cons, Nat.ofDigits_append, List.length_reverse,
        Nat.ofDigits_singleton, List.length_cons, pow_succ]
      ring

theorem le_foldl_horner (factor_pos : 0 < factor) (xs : List Nat) (value : Nat) :
    value ≤ xs.foldl (fun v x => factor * v + x) value := by
  rw [foldl_horner]
  exact Nat.le_add_right_of_le (Nat.le_mul_of_pos_right _ (Nat.pow_pos factor_pos))

/-- Pushing digits into a buffer leaves no carry, and the buffer holds the number, when it fits. -/
theorem pushDigits_holds {size : Nat} (base_gt : 1 < base) (factor_pos : 0 < factor) :
    ∀ (xs buf : List Nat) (length value : Nat), Holds base size buf length value →
      xs.foldl (fun v x => factor * v + x) value < base ^ size →
        ∃ buf' length', pushDigits base factor buf length xs = some (buf', length') ∧
          Holds base size buf' length' (xs.foldl (fun v x => factor * v + x) value)
  | [], buf, length, value, holds, _ => ⟨buf, length, rfl, holds⟩
  | x :: xs, buf, length, value, holds, fits => by
      rw [List.foldl_cons] at fits ⊢
      have first := le_foldl_horner factor_pos xs (factor * value + x)
      obtain ⟨spent, holds'⟩ := holds.pass base_gt x (show factor * value + x < base ^ size by omega)
      obtain ⟨buf', length', pushed, holds''⟩ :=
        pushDigits_holds base_gt factor_pos xs _ _ _ holds' fits
      refine ⟨buf', length', ?_, holds''⟩
      rw [pushDigits, if_pos spent]
      exact pushed

/-- An empty buffer holds zero. -/
theorem holds_replicate_zero (base_pos : 0 < base) (size : Nat) :
    Holds base size (List.replicate size 0) 0 0 where
  length_eq := List.length_replicate
  length_le := Nat.zero_le _
  digits_lt := fun d member => by rw [List.eq_of_mem_replicate member]; exact base_pos
  zeros := fun d member => List.eq_of_mem_replicate (List.mem_of_mem_drop member)
  value_eq := Nat.ofDigits_replicate_zero

/--
The digits of the buffer from the watermark down, most significant first,
without the zeros at the top, are the digits of its value.
-/
theorem Holds.extract {size : Nat} {buf : List Nat} {length value : Nat}
    (holds : Holds base size buf length value) (base_gt : 1 < base) :
    (buf.reverse.drop (size - length)).dropWhile (· == 0) = (Nat.digits base value).reverse := by
  have whole := List.take_append_drop length buf
  have upper : (buf.drop length).reverse.length = size - length := by
    rw [List.length_reverse, List.length_drop, holds.length_eq]
  have below : buf.reverse.drop (size - length) = (buf.take length).reverse := by
    conv_lhs => rw [← whole, List.reverse_append]
    exact List.drop_left' upper
  have significant : Nat.ofDigits base (buf.take length) = value := by
    have dropped : buf.drop length = List.replicate (buf.drop length).length 0 :=
      List.eq_replicate_iff.mpr ⟨rfl, holds.zeros⟩
    calc Nat.ofDigits base (buf.take length)
        = Nat.ofDigits base (buf.take length ++ List.replicate (buf.drop length).length 0) :=
          (Nat.ofDigits_append_replicate_zero _).symm
      _ = value := by rw [← dropped, whole, holds.value_eq]
  have trimmed := @TrimRestore.eq_rdropWhile_append_replicate _ (· == 0) 0 (buf.take length)
    (fun y _ zero => by simpa using zero)
  have trimmed_value : Nat.ofDigits base ((buf.take length).rdropWhile (· == 0)) = value := by
    calc Nat.ofDigits base ((buf.take length).rdropWhile (· == 0))
        = Nat.ofDigits base ((buf.take length).rdropWhile (· == 0) ++ List.replicate
            ((buf.take length).length - ((buf.take length).rdropWhile (· == 0)).length) 0) :=
          (Nat.ofDigits_append_replicate_zero _).symm
      _ = value := by rw [← trimmed, significant]
  have digits : Nat.digits base value = (buf.take length).rdropWhile (· == 0) := by
    rw [← trimmed_value]
    apply Nat.digits_ofDigits base base_gt
    · intro d member
      exact holds.digits_lt d (List.mem_of_mem_take ((List.rdropWhile_prefix _ _).subset member))
    · intro nonempty
      simpa using List.rdropWhile_last_not (· == 0) (buf.take length) nonempty
  rw [below, digits, List.rdropWhile, List.reverse_reverse]

/-! ## Sizing the buffer -/

/--
`n` digits in base `a` fit in `n * p / q + 1` digits in base `b` when
`a ^ q < b ^ p`, that is when `p / q` is above the ratio of the logarithms of
`a` and `b`.
-/
theorem pow_lt_pow_div_succ {a b p q : Nat} (q_pos : 0 < q) (b_gt : 1 < b)
    (ratio : a ^ q < b ^ p) (n : Nat) : a ^ n < b ^ (n * p / q + 1) := by
  rcases Nat.eq_zero_or_pos n with rfl | n_pos
  · simpa using b_gt
  · have enough : n * p ≤ q * (n * p / q + 1) := (Nat.lt_mul_div_succ (n * p) q_pos).le
    have raised : (a ^ n) ^ q < (b ^ (n * p / q + 1)) ^ q := by
      calc (a ^ n) ^ q = (a ^ q) ^ n := by rw [← pow_mul, ← pow_mul, Nat.mul_comm]
        _ < (b ^ p) ^ n := Nat.pow_lt_pow_left ratio (Nat.pos_iff_ne_zero.mp n_pos)
        _ = b ^ (n * p) := by rw [← pow_mul, Nat.mul_comm]
        _ ≤ b ^ (q * (n * p / q + 1)) := Nat.pow_le_pow_right (by omega) enough
        _ = (b ^ (n * p / q + 1)) ^ q := by rw [← pow_mul, Nat.mul_comm]
    exact (Nat.pow_lt_pow_iff_left (Nat.pos_iff_ne_zero.mp q_pos)).mp raised

end BaseConversion
