import Mathlib.Data.List.DropRight

/-!
# Clearing one position of a list and restoring it

A list is *trimmed* when it does not end with an element that `blank` holds
of.  Clearing one position of a trimmed list to the blank `fill` and dropping
the blanks at its end loses nothing that cannot be rebuilt: padding the result
with `fill` up to the position, as `std::vector::resize` does, and writing the
old element back gives the list back, provided that every blank of the list is
`fill` itself.
-/

namespace TrimRestore

variable {α : Type*}

/-- `std::vector::resize`: keep the first `count` elements and pad with `fill`. -/
def resize (l : List α) (count : Nat) (fill : α) : List α :=
  l.take count ++ List.replicate (count - l.length) fill

theorem resize_of_le {l : List α} {count : Nat} (fill : α) (longer : l.length ≤ count) :
    resize l count fill = l ++ List.replicate (count - l.length) fill := by
  rw [resize, List.take_of_length_le longer]

@[simp] theorem length_resize (l : List α) (count : Nat) (fill : α) :
    (resize l count fill).length = count := by
  simp only [resize, List.length_append, List.length_take, List.length_replicate]
  omega

/-- Resizing keeps every prefix that both lengths hold. -/
theorem take_resize {l : List α} {count n : Nat} (fill : α) (old : n ≤ l.length)
    (new : n ≤ count) : (resize l count fill).take n = l.take n := by
  rw [resize, List.take_append_of_le_length (by simp; omega), List.take_take,
    Nat.min_eq_left new]

section Restore

variable (blank : α → Bool) (fill : α)

/-- The blanks at the end of a list whose blanks are all `fill` are copies of `fill`. -/
theorem eq_rdropWhile_append_replicate {l : List α}
    (blanks : ∀ y ∈ l, blank y = true → y = fill) :
    l = l.rdropWhile blank ++ List.replicate (l.length - (l.rdropWhile blank).length) fill := by
  have whole := @List.rdropWhile_append_rtakeWhile _ blank l
  have tail : l.rtakeWhile blank =
      List.replicate (l.length - (l.rdropWhile blank).length) fill := by
    rw [List.eq_replicate_iff]
    constructor
    · have lengths := congrArg List.length whole
      rw [List.length_append] at lengths
      omega
    · intro y member
      exact blanks y ((List.rtakeWhile_suffix blank l).subset member)
        (List.mem_rtakeWhile_imp member)
  rw [← tail, whole]

/-- Clearing the last element and trimming leaves only blanks to refill before it. -/
theorem set_restore_last {front : List α} {x : α}
    (blanks : ∀ y ∈ front, blank y = true → y = fill) (fillBlank : blank fill = true) :
    (if (((front ++ [x]).set front.length fill).rdropWhile blank).length < front.length + 1 then
        resize (((front ++ [x]).set front.length fill).rdropWhile blank) (front.length + 1) fill
      else ((front ++ [x]).set front.length fill).rdropWhile blank).set front.length x =
      front ++ [x] := by
  have cleared : ((front ++ [x]).set front.length fill).rdropWhile blank =
      front.rdropWhile blank := by
    rw [List.set_append_right _ _ (le_refl _), Nat.sub_self, List.set_cons_zero,
      List.rdropWhile_concat_pos _ _ _ fillBlank]
  have shorter : (front.rdropWhile blank).length ≤ front.length :=
    (List.rdropWhile_prefix blank front).length_le
  rw [cleared, if_pos (by omega)]
  have refilled : resize (front.rdropWhile blank) (front.length + 1) fill = front ++ [fill] := by
    calc resize (front.rdropWhile blank) (front.length + 1) fill
        = front.rdropWhile blank ++
            List.replicate (front.length - (front.rdropWhile blank).length + 1) fill := by
          rw [resize_of_le fill (by omega)]
          congr 2
          omega
      _ = (front.rdropWhile blank ++
            List.replicate (front.length - (front.rdropWhile blank).length) fill) ++ [fill] := by
          rw [List.replicate_succ', List.append_assoc]
      _ = front ++ [fill] := by
          rw [← eq_rdropWhile_append_replicate blank fill blanks]
  rw [refilled, List.set_append_right _ _ (le_refl _), Nat.sub_self, List.set_cons_zero]

/-- Clearing an element before the last one leaves a trimmed list trimmed. -/
theorem rdropWhile_set_of_lt {l : List α} (trimmed : l.rdropWhile blank = l) {n : Nat}
    (inner : n + 1 < l.length) (y : α) :
    (l.set n y).rdropWhile blank = l.set n y := by
  have nonempty : l ≠ [] := List.ne_nil_of_length_pos (by omega)
  have lastKept : ¬ blank (l.getLast nonempty) = true := by
    have kept := List.rdropWhile_last_not blank l (by rw [trimmed]; exact nonempty)
    simp only [trimmed] at kept
    exact kept
  have decomposed := List.dropLast_append_getLast nonempty
  have before : n < l.dropLast.length := by
    rw [List.length_dropLast]
    omega
  rw [← decomposed, List.set_append_left _ _ before]
  exact List.rdropWhile_concat_neg _ _ _ lastKept

/--
Clearing position `n` of a trimmed list whose blanks are all `fill`, trimming,
padding back up to `n` and writing the old element back gives the list back.
-/
theorem set_restore {l : List α} (trimmed : l.rdropWhile blank = l)
    (blanks : ∀ y ∈ l, blank y = true → y = fill) (fillBlank : blank fill = true)
    {n : Nat} (inRange : n < l.length) :
    (if ((l.set n fill).rdropWhile blank).length < n + 1 then
        resize ((l.set n fill).rdropWhile blank) (n + 1) fill
      else (l.set n fill).rdropWhile blank).set n l[n] = l := by
  by_cases inner : n + 1 < l.length
  · rw [rdropWhile_set_of_lt blank trimmed inner, if_neg (by rw [List.length_set]; omega),
      List.set_set, List.set_getElem_self]
  · have shape : l = l.take n ++ [l[n]] := by
      conv_lhs => rw [← List.take_append_drop n l]
      rw [List.drop_eq_getElem_cons inRange, List.drop_of_length_le (by omega)]
    have frontLength : (l.take n).length = n := List.length_take_of_le (by omega)
    have frontBlanks : ∀ y ∈ l.take n, blank y = true → y = fill := fun y member =>
      blanks y (List.mem_of_mem_take member)
    have restored := @set_restore_last _ blank fill (l.take n) l[n] frontBlanks fillBlank
    rw [frontLength, ← shape] at restored
    exact restored

end Restore

end TrimRestore
