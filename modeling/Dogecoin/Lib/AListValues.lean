import Mathlib.Data.List.AList
import Mathlib.Algebra.Group.Int.Defs
import Mathlib.Algebra.Group.Nat.Defs
import Mathlib.Algebra.GroupWithZero.Nat

/-!
# Facts about all the values of an association list

Two kinds of facts over every entry of an `AList`.  The first is a property
that every value has, which `insert` keeps when the new value has it and the
other keys keep theirs, and which `erase` always keeps.  The second is the
total of a weight over the entries: `insert` and `erase` each remove the
weight of the entry the key had, if any, and `insert` adds the weight of the
new one, so that a present entry's weight is at most the total.
-/

namespace AListValues

variable {α γ : Type*}

/-! ## A property of every value -/

section Every

variable [DecidableEq α]

/-- Every value of the map satisfies `holds`. -/
def Every (holds : γ → Prop) (map : AList fun _ : α => γ) : Prop :=
  ∀ key value, map.lookup key = some value → holds value

variable {holds : γ → Prop} {map : AList fun _ : α => γ}

theorem Every.others (every : Every holds map) (key : α) :
    ∀ other ≠ key, ∀ value, map.lookup other = some value → holds value :=
  fun other _ => every other

theorem Every.of_mem (every : Every holds map) {key : α} {value : γ}
    (member : Sigma.mk key value ∈ map.entries) : holds value :=
  every key value (AList.mem_lookup_iff.2 member)

theorem Every.insert {key : α} {value : γ}
    (others : ∀ other ≠ key, ∀ value, map.lookup other = some value → holds value)
    (holdsValue : holds value) : Every holds (map.insert key value) := by
  intro other found lookedUp
  by_cases same : other = key
  · subst same
    rw [AList.lookup_insert, Option.some.injEq] at lookedUp
    exact lookedUp ▸ holdsValue
  · rw [AList.lookup_insert_ne same] at lookedUp
    exact others other same found lookedUp

theorem Every.erase_of_others {key : α}
    (others : ∀ other ≠ key, ∀ value, map.lookup other = some value → holds value) :
    Every holds (map.erase key) := by
  intro other found lookedUp
  by_cases same : other = key
  · subst same
    rw [AList.lookup_erase] at lookedUp
    cases lookedUp
  · rw [AList.lookup_erase_ne same] at lookedUp
    exact others other same found lookedUp

theorem Every.erase (every : Every holds map) (key : α) : Every holds (map.erase key) :=
  Every.erase_of_others (every.others key)

end Every

/-! ## The total of a weight -/

/-- The total weight of a list of entries. -/
def weight (f : α → γ → ℕ) (entries : List (Σ _ : α, γ)) : ℕ :=
  (entries.map fun entry => f entry.1 entry.2).sum

/-- The weight at a key of a lookup result, zero when the key is absent. -/
def weightAt (f : α → γ → ℕ) (key : α) (found : Option γ) : ℕ :=
  found.elim 0 (f key)

@[simp]
theorem weight_nil (f : α → γ → ℕ) : weight f [] = 0 := rfl

@[simp]
theorem weight_cons (f : α → γ → ℕ) (entry : Σ _ : α, γ)
    (entries : List (Σ _ : α, γ)) :
    weight f (entry :: entries) = f entry.1 entry.2 + weight f entries := by
  simp [weight]

variable [DecidableEq α]

/-- Erasing a key from a list removes the weight of its first entry. -/
theorem weight_kerase (f : α → γ → ℕ) (key : α) :
    ∀ entries : List (Σ _ : α, γ),
      weight f (entries.kerase key) + weightAt f key (entries.dlookup key) =
        weight f entries
  | [] => by simp [weightAt]
  | ⟨first, value⟩ :: entries => by
      by_cases same : key = first
      · subst same
        rw [List.kerase_cons_eq (show key = (⟨key, value⟩ : Σ _ : α, γ).1 from rfl),
          List.dlookup_cons_eq]
        simp [weightAt, Nat.add_comm]
      · rw [List.kerase_cons_ne same, List.dlookup_cons_ne _ _ same, weight_cons,
          weight_cons, Nat.add_assoc, weight_kerase f key entries]

theorem weight_insert (f : α → γ → ℕ) (key : α) (value : γ)
    (map : AList fun _ : α => γ) :
    weight f (map.insert key value).entries + weightAt f key (map.lookup key) =
      weight f map.entries + f key value := by
  rw [AList.entries_insert, weight_cons, Nat.add_assoc, AList.lookup,
    weight_kerase, Nat.add_comm]

theorem weight_erase (f : α → γ → ℕ) (key : α) (map : AList fun _ : α => γ) :
    weight f (map.erase key).entries + weightAt f key (map.lookup key) =
      weight f map.entries :=
  weight_kerase f key map.entries

/-- A present entry weighs at most the total. -/
theorem le_weight_of_lookup {f : α → γ → ℕ} {key : α} {value : γ}
    {map : AList fun _ : α => γ} (found : map.lookup key = some value) :
    f key value ≤ weight f map.entries := by
  have total := weight_erase f key map
  rw [found] at total
  simp only [weightAt, Option.elim_some] at total
  omega

end AListValues
