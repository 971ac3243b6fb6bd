import Mathlib.Data.List.Basic

/-!
# Two specifications of computations in `Except`

A computation in `Except ε` either returns a value or raises an error.  This
module proves two kinds of fact about such computations along their
structure.

`Lenient strict lenient` compares two computations: wherever `strict`
returns a value, `lenient` returns the same value.  This is the order of a
flat domain in which every error lies below every value.  Two computations
built in the same way, by binds, folds and handlers that never recover, from
parts each more lenient than the other's, are in the same order.

`Raises allowed x` bounds the errors of one computation: every error it
raises satisfies `allowed`.  `Returns holds x` bounds its values in the same
way.  Both are built along the same structure.
-/

namespace ExceptSpec

variable {ε α β : Type}

@[simp]
theorem ok_bind (a : α) (f : α → Except ε β) : (Except.ok a >>= f) = f a :=
  rfl

@[simp]
theorem error_bind (e : ε) (f : α → Except ε β) : (Except.error e >>= f) = Except.error e :=
  rfl

@[simp]
theorem pure_eq_ok (a : α) : (pure a : Except ε α) = .ok a :=
  rfl

@[simp]
theorem throw_eq_error (e : ε) : (throw e : Except ε α) = .error e :=
  rfl

/-- A bind returns a value exactly when both of its parts do. -/
theorem bind_eq_ok {x : Except ε α} {f : α → Except ε β} {b : β} :
    x >>= f = .ok b ↔ ∃ a, x = .ok a ∧ f a = .ok b := by
  cases x with
  | error e => simp
  | ok a => simp

/-- A bind raises an error exactly when its first part does, or returns a value on which the rest does. -/
theorem bind_eq_error {x : Except ε α} {f : α → Except ε β} {e : ε} :
    x >>= f = .error e ↔ x = .error e ∨ ∃ a, x = .ok a ∧ f a = .error e := by
  cases x with
  | error e' => simp
  | ok a => simp

theorem tryCatch_ok (a : α) (handle : ε → Except ε α) :
    tryCatch (Except.ok a) handle = .ok a :=
  rfl

theorem tryCatch_error (e : ε) (handle : ε → Except ε α) :
    tryCatch (Except.error e) handle = handle e :=
  rfl

/-! ## More lenient computations -/

/-- `lenient` returns every value that `strict` returns. -/
def Lenient (strict lenient : Except ε α) : Prop :=
  ∀ value, strict = .ok value → lenient = .ok value

namespace Lenient

theorem refl (x : Except ε α) : Lenient x x :=
  fun _ returned => returned

theorem trans {x y z : Except ε α} (first : Lenient x y) (second : Lenient y z) :
    Lenient x z :=
  fun value returned => second value (first value returned)

theorem of_eq {x y : Except ε α} (same : x = y) : Lenient x y :=
  same ▸ refl x

/-- A computation that fails is stricter than any other. -/
theorem of_error (e : ε) (y : Except ε α) : Lenient (.error e) y :=
  fun _ returned => by cases returned

/-- Succeeding with the only value is more lenient than anything. -/
theorem to_unit (x : Except ε Unit) : Lenient x (pure ()) :=
  fun _ _ => rfl

theorem bind {x y : Except ε α} {f g : α → Except ε β} (first : Lenient x y)
    (next : ∀ a, x = .ok a → Lenient (f a) (g a)) : Lenient (x >>= f) (y >>= g) := by
  intro value returned
  obtain ⟨a, xa, fa⟩ := bind_eq_ok.1 returned
  rw [first a xa, ok_bind]
  exact next a xa value fa

/-- A check that fails less often, before computations in the same order. -/
theorem ite_throw {c c' : Bool} {e e' : ε} {x y : Except ε α}
    (weaker : c' = true → c = true) (rest : c = false → Lenient x y) :
    Lenient (if c then throw e else x) (if c' then throw e' else y) := by
  cases c with
  | true => exact of_error e _
  | false =>
      have kept : c' = false := by
        cases c'
        · rfl
        · exact absurd (weaker rfl) Bool.false_ne_true
      rw [kept]
      exact rest rfl

/-- The two branches of one condition, each in the order. -/
theorem ite {c : Prop} [Decidable c] {x x' y y' : Except ε α} (yes : c → Lenient x x')
    (no : ¬c → Lenient y y') : Lenient (if c then x else y) (if c then x' else y') := by
  by_cases holds : c
  · rw [if_pos holds, if_pos holds]
    exact yes holds
  · rw [if_neg holds, if_neg holds]
    exact no holds

/-- An action run under a condition that holds less often. -/
theorem when {c c' : Bool} (weaker : c' = true → c = true) (x : Except ε Unit) :
    Lenient (if c then x else pure ()) (if c' then x else pure ()) := by
  cases c' with
  | true => rw [weaker rfl]; exact refl _
  | false => exact to_unit _

/-- Two loops whose steps are in the same order. -/
theorem foldlM {f g : β → α → Except ε β} (each : ∀ b a, Lenient (f b a) (g b a)) :
    ∀ (items : List α) (init : β), Lenient (items.foldlM f init) (items.foldlM g init)
  | [], _ => refl _
  | item :: items, init => by
      rw [List.foldlM_cons, List.foldlM_cons]
      exact (each init item).bind fun next _ => foldlM each items next

/-- A handler that never returns a value keeps the order. -/
theorem tryCatch {x y : Except ε α} {handle : ε → Except ε α}
    (rethrows : ∀ e value, handle e ≠ .ok value) (inner : Lenient x y) :
    Lenient (tryCatch x handle) (tryCatch y handle) := by
  intro value returned
  cases x with
  | error e => exact absurd returned (rethrows e value)
  | ok a =>
      rw [inner a rfl, tryCatch_ok]
      exact returned

end Lenient

/-! ## The errors a computation raises -/

/-- Every error that `x` raises is `allowed`. -/
def Raises (allowed : ε → Prop) (x : Except ε α) : Prop :=
  ∀ e, x = .error e → allowed e

namespace Raises

variable {allowed : ε → Prop}

theorem of_ok (a : α) : Raises allowed (Except.ok a : Except ε α) :=
  fun _ raised => by cases raised

theorem pure (a : α) : Raises allowed (Pure.pure a : Except ε α) :=
  of_ok a

theorem of_eq_ok {x : Except ε α} {a : α} (returned : x = .ok a) : Raises allowed x :=
  returned ▸ of_ok a

theorem throw {e : ε} (ok : allowed e) : Raises allowed (MonadExcept.throw e : Except ε α) :=
  fun _ raised => by
    cases raised
    exact ok

theorem mono {allowed' : ε → Prop} {x : Except ε α} (weaker : ∀ e, allowed e → allowed' e)
    (raises : Raises allowed x) : Raises allowed' x :=
  fun e raised => weaker e (raises e raised)

theorem bind {x : Except ε α} {f : α → Except ε β} (first : Raises allowed x)
    (next : ∀ a, x = .ok a → Raises allowed (f a)) : Raises allowed (x >>= f) := by
  intro e raised
  cases returned : x with
  | error e' =>
      rw [returned, error_bind] at raised
      cases raised
      exact first e returned
  | ok a =>
      rw [returned, ok_bind] at raised
      exact next a returned e raised

theorem ite {c : Prop} [Decidable c] {x y : Except ε α} (yes : c → Raises allowed x)
    (no : ¬c → Raises allowed y) : Raises allowed (if c then x else y) := by
  by_cases holds : c
  · rw [if_pos holds]
    exact yes holds
  · rw [if_neg holds]
    exact no holds

/-- A loop whose steps raise only allowed errors. -/
theorem foldlM {f : β → α → Except ε β} (each : ∀ b a, Raises allowed (f b a)) :
    ∀ (items : List α) (init : β), Raises allowed (items.foldlM f init)
  | [], _ => pure _
  | item :: items, init => by
      rw [List.foldlM_cons]
      exact (each init item).bind fun next _ => foldlM each items next

/-- A handler decides what a caught error becomes. -/
theorem tryCatch {x : Except ε α} {handle : ε → Except ε α}
    (handled : ∀ e, x = .error e → Raises allowed (handle e)) :
    Raises allowed (tryCatch x handle) := by
  cases caught : x with
  | error e =>
      rw [tryCatch_error]
      exact handled e caught
  | ok a =>
      rw [tryCatch_ok]
      exact of_ok a

end Raises

/-! ## The values a computation returns -/

/-- Every value that `x` returns satisfies `holds`. -/
def Returns (holds : α → Prop) (x : Except ε α) : Prop :=
  ∀ a, x = .ok a → holds a

namespace Returns

variable {holds : α → Prop}

theorem pure {a : α} (holdsA : holds a) : Returns holds (Pure.pure a : Except ε α) :=
  fun _ returned => by
    cases returned
    exact holdsA

theorem throw (e : ε) : Returns holds (MonadExcept.throw e : Except ε α) :=
  fun _ returned => by cases returned

theorem mono {holds' : α → Prop} {x : Except ε α} (weaker : ∀ a, holds a → holds' a)
    (returns : Returns holds x) : Returns holds' x :=
  fun a returned => weaker a (returns a returned)

/-- What a bind returns, its second part returns. -/
theorem bind {x : Except ε β} {f : β → Except ε α} (next : ∀ b, x = .ok b → Returns holds (f b)) :
    Returns holds (x >>= f) := by
  intro a returned
  obtain ⟨b, xb, fb⟩ := bind_eq_ok.1 returned
  exact next b xb a fb

theorem ite {c : Prop} [Decidable c] {x y : Except ε α} (yes : c → Returns holds x)
    (no : ¬c → Returns holds y) : Returns holds (if c then x else y) := by
  by_cases holdsC : c
  · rw [if_pos holdsC]
    exact yes holdsC
  · rw [if_neg holdsC]
    exact no holdsC

end Returns

/-! ## Computations that return a value -/

/-- `x` returns a value, and the value satisfies `holds`: a triple of total correctness. -/
def Succeeds (holds : α → Prop) (x : Except ε α) : Prop :=
  ∃ a, x = .ok a ∧ holds a

namespace Succeeds

variable {holds : α → Prop}

theorem of_eq_ok {x : Except ε α} {a : α} (returned : x = .ok a) (holdsA : holds a) :
    Succeeds holds x :=
  ⟨a, returned, holdsA⟩

theorem pure {a : α} (holdsA : holds a) : Succeeds holds (Pure.pure a : Except ε α) :=
  ⟨a, rfl, holdsA⟩

theorem mono {holds' : α → Prop} {x : Except ε α} (weaker : ∀ a, holds a → holds' a)
    (succeeds : Succeeds holds x) : Succeeds holds' x :=
  let ⟨a, returned, holdsA⟩ := succeeds
  ⟨a, returned, weaker a holdsA⟩

/-- A bind returns a value when its first part does, and the rest does on every such value. -/
theorem bind {middle : β → Prop} {x : Except ε β} {f : β → Except ε α}
    (first : Succeeds middle x) (next : ∀ b, middle b → Succeeds holds (f b)) :
    Succeeds holds (x >>= f) := by
  obtain ⟨b, returned, middleB⟩ := first
  rw [returned, ok_bind]
  exact next b middleB

theorem ite {c : Prop} [Decidable c] {x y : Except ε α} (yes : c → Succeeds holds x)
    (no : ¬c → Succeeds holds y) : Succeeds holds (if c then x else y) := by
  by_cases holdsC : c
  · rw [if_pos holdsC]
    exact yes holdsC
  · rw [if_neg holdsC]
    exact no holdsC

end Succeeds

end ExceptSpec
