import Mathlib.Data.Option.Basic

/-!
# Ancestors along a parent function

A forest is given by a partial function `parent`; `climb parent n a` follows
it `n` times from `a`.  Climbs compose, stay in every set closed under
`parent`, and two parent functions that agree on such a set climb alike
from it.

A height is `Graded` when it drops by one along `parent` and is zero at the
roots.  Then the climb of `n` steps from `a` exists exactly when
`n ≤ height a`, and it ends at height `height a - n`: the ancestor of `a` at
each height up to its own is unique.
-/

namespace Ancestry

variable {α : Type} (parent : α → Option α)

/-- Follow `parent` `n` times from `a`. -/
def climb : Nat → α → Option α
  | 0, a => some a
  | n + 1, a => (parent a).bind (climb n)

@[simp]
theorem climb_zero (a : α) : climb parent 0 a = some a :=
  rfl

theorem climb_succ (n : Nat) (a : α) :
    climb parent (n + 1) a = (parent a).bind (climb parent n) :=
  rfl

@[simp]
theorem climb_one (a : α) : climb parent 1 a = parent a := by
  rw [climb_succ]
  cases parent a <;> rfl

/-- Climbing `m + n` steps climbs `n` steps, then `m`. -/
theorem climb_add (m n : Nat) (a : α) :
    climb parent (m + n) a = (climb parent n a).bind (climb parent m) := by
  induction n generalizing a with
  | zero => rfl
  | succ n ih =>
      rw [← Nat.add_assoc, climb_succ, climb_succ, Option.bind_assoc]
      congr 1
      funext b
      exact ih b

/-- Two parent functions that agree on a set closed under `parent` climb alike from it. -/
theorem climb_congr {parent' : α → Option α} {S : α → Prop}
    (agree : ∀ a, S a → parent' a = parent a)
    (closed : ∀ a b, S a → parent a = some b → S b) :
    ∀ (n : Nat) {a : α}, S a → climb parent' n a = climb parent n a
  | 0, _, _ => rfl
  | n + 1, a, member => by
      rw [climb_succ, climb_succ, agree a member]
      cases up : parent a with
      | none => rfl
      | some b => exact climb_congr agree closed n (closed a b member up)

/-- A climb from a set closed under `parent` stays in it. -/
theorem climb_mem {S : α → Prop} (closed : ∀ a b, S a → parent a = some b → S b) :
    ∀ (n : Nat) {a b : α}, S a → climb parent n a = some b → S b
  | 0, _, _, member, climbed => by
      cases climbed
      exact member
  | n + 1, a, b, member, climbed => by
      rw [climb_succ] at climbed
      cases up : parent a with
      | none =>
          rw [up] at climbed
          cases climbed
      | some c =>
          rw [up, Option.bind_some] at climbed
          exact climb_mem closed n (closed a c member up) climbed

/-! ## Ancestors -/

/-- `a` is `b` or one of its ancestors. -/
def IsAncestor (a b : α) : Prop :=
  ∃ n, climb parent n b = some a

/-- `c` is an ancestor, or the entry itself, of both `a` and `b`. -/
def Common (a b c : α) : Prop :=
  IsAncestor parent c a ∧ IsAncestor parent c b

/-- The ancestors of `a` by height, from the root up to `a`: the chain whose tip is `a`. -/
def line (height : α → Nat) (a : α) : List (Option α) :=
  (List.range (height a + 1)).map fun h => climb parent (height a - h) a

@[simp]
theorem length_line (height : α → Nat) (a : α) : (line parent height a).length = height a + 1 := by
  simp [line]

theorem getElem?_line (height : α → Nat) (a : α) (h : Nat) :
    (line parent height a)[h]? =
      if h ≤ height a then some (climb parent (height a - h) a) else none := by
  simp only [line, List.getElem?_map]
  by_cases le : h ≤ height a
  · rw [List.getElem?_range (by omega), if_pos le]
    rfl
  · rw [List.getElem?_eq_none (by simp; omega), if_neg le]
    rfl

/-- `r` is a highest element of `S` by `height`, and `none` only when `S` is empty. -/
def IsHighest {β : Type} (height : β → Nat) (S : β → Prop) : Option β → Prop
  | some c => S c ∧ ∀ c', S c' → height c' ≤ height c
  | none => ∀ c, ¬S c

theorem IsHighest.of_iff {β : Type} {height : β → Nat} {S T : β → Prop}
    (same : ∀ c, S c ↔ T c) {r : Option β} (highest : IsHighest height T r) :
    IsHighest height S r := by
  obtain rfl : S = T := funext fun c => propext (same c)
  exact highest

/-! ## Graded heights -/

/-- `height` drops by one along `parent` and is zero at the roots. -/
structure Graded (height : α → Nat) : Prop where
  parent_some : ∀ {a b}, parent a = some b → height a = height b + 1
  parent_none : ∀ {a}, parent a = none → height a = 0

variable {parent}

namespace IsAncestor

theorem refl (a : α) : IsAncestor parent a a :=
  ⟨0, rfl⟩

theorem trans {a b c : α} (ab : IsAncestor parent a b) (bc : IsAncestor parent b c) :
    IsAncestor parent a c := by
  obtain ⟨m, climbedAB⟩ := ab
  obtain ⟨n, climbedBC⟩ := bc
  exact ⟨m + n, by rw [climb_add, climbedBC, Option.bind_some, climbedAB]⟩

theorem of_parent {a b : α} (up : parent a = some b) : IsAncestor parent b a :=
  ⟨1, by rw [climb_one, up]⟩

/-- An ancestor of `a` other than `a` is an ancestor of its parent. -/
theorem parent_of_ne {a c : α} (anc : IsAncestor parent c a) (ne : c ≠ a) :
    ∃ b, parent a = some b ∧ IsAncestor parent c b := by
  obtain ⟨n, climbed⟩ := anc
  cases n with
  | zero =>
      cases climbed
      exact absurd rfl ne
  | succ n =>
      rw [climb_succ] at climbed
      cases up : parent a with
      | none =>
          rw [up] at climbed
          cases climbed
      | some b =>
          rw [up, Option.bind_some] at climbed
          exact ⟨b, rfl, n, climbed⟩

end IsAncestor

theorem common_comm {a b c : α} : Common parent a b c ↔ Common parent b a c :=
  and_comm

/-- Moving `a` to its parent keeps the common ancestors when `a` is not one of them. -/
theorem common_parent_left {a a' b : α} (notAnc : ¬IsAncestor parent a b)
    (up : parent a = some a') (c : α) : Common parent a b c ↔ Common parent a' b c := by
  constructor
  · rintro ⟨ca, cb⟩
    obtain ⟨a'', up', ca'⟩ := ca.parent_of_ne (by rintro rfl; exact notAnc cb)
    rw [up] at up'
    cases up'
    exact ⟨ca', cb⟩
  · rintro ⟨ca', cb⟩
    exact ⟨ca'.trans (.of_parent up), cb⟩

/-- A root that is not an ancestor of `b` has no common ancestor with it. -/
theorem not_common_root_left {a b : α} (notAnc : ¬IsAncestor parent a b)
    (root : parent a = none) (c : α) : ¬Common parent a b c := by
  rintro ⟨ca, cb⟩
  by_cases same : c = a
  · subst same
    exact notAnc cb
  · obtain ⟨_, up, _⟩ := ca.parent_of_ne same
    rw [root] at up
    cases up

namespace Graded

variable {height : α → Nat} (graded : Graded parent height)
include graded

/-- A climb of `n` steps lowers the height by `n`. -/
theorem height_climb : ∀ {n : Nat} {a b : α}, climb parent n a = some b → height b + n = height a
  | 0, _, _, climbed => by
      cases climbed
      rfl
  | n + 1, a, b, climbed => by
      rw [climb_succ] at climbed
      cases up : parent a with
      | none =>
          rw [up] at climbed
          cases climbed
      | some c =>
          rw [up, Option.bind_some] at climbed
          rw [graded.parent_some up, ← height_climb climbed]
          omega

/-- A climb of at most `height a` steps exists. -/
theorem climb_isSome : ∀ {n : Nat} {a : α}, n ≤ height a → ∃ b, climb parent n a = some b
  | 0, a, _ => ⟨a, rfl⟩
  | n + 1, a, le => by
      cases up : parent a with
      | none => exact absurd (graded.parent_none up) (by omega)
      | some c =>
          rw [climb_succ, up, Option.bind_some]
          exact climb_isSome (by rw [graded.parent_some up] at le; omega)

/-! ### Ancestors under a grading -/

/-- An ancestor is the climb of the difference in heights. -/
theorem climb_of_isAncestor {a b : α} (anc : IsAncestor parent a b) :
    height a ≤ height b ∧ climb parent (height b - height a) b = some a := by
  obtain ⟨n, climbed⟩ := anc
  have lowered := graded.height_climb climbed
  refine ⟨by omega, ?_⟩
  rw [show height b - height a = n by omega]
  exact climbed

theorem isAncestor_iff {a b : α} :
    IsAncestor parent a b ↔ height a ≤ height b ∧ climb parent (height b - height a) b = some a :=
  ⟨graded.climb_of_isAncestor, fun ⟨_, climbed⟩ => ⟨_, climbed⟩⟩

/-- The ancestors of one entry form a chain: the lower of two is an ancestor of the higher. -/
theorem isAncestor_of_le {a b c : α} (ac : IsAncestor parent a c) (bc : IsAncestor parent b c)
    (le : height a ≤ height b) : IsAncestor parent a b := by
  obtain ⟨_, climbedA⟩ := graded.climb_of_isAncestor ac
  obtain ⟨_, climbedB⟩ := graded.climb_of_isAncestor bc
  have split : height c - height a = (height b - height a) + (height c - height b) := by omega
  rw [split, climb_add, climbedB, Option.bind_some] at climbedA
  exact ⟨_, climbedA⟩

/-- An ancestor at the same height is the entry itself. -/
theorem eq_of_isAncestor {a b : α} (anc : IsAncestor parent a b) (same : height a = height b) :
    a = b := by
  obtain ⟨_, climbed⟩ := graded.climb_of_isAncestor anc
  rw [same, Nat.sub_self, climb_zero] at climbed
  cases climbed
  rfl

/-- Moving `a` to an ancestor no lower than `b` keeps the common ancestors. -/
theorem common_ancestor_left {a a' b : α} (anc : IsAncestor parent a' a) (le : height b ≤ height a')
    (c : α) : Common parent a b c ↔ Common parent a' b c := by
  constructor
  · rintro ⟨ca, cb⟩
    have lowC := (graded.climb_of_isAncestor cb).1
    exact ⟨graded.isAncestor_of_le ca anc (by omega), cb⟩
  · rintro ⟨ca', cb⟩
    exact ⟨ca'.trans anc, cb⟩

/-- Two different entries at one height share their parents' common ancestors. -/
theorem common_parents {a b a' b' : α} (ne : a ≠ b) (same : height a = height b)
    (upA : parent a = some a') (upB : parent b = some b') (c : α) :
    Common parent a b c ↔ Common parent a' b' c := by
  have notAB : ¬IsAncestor parent a b := fun ab => ne (graded.eq_of_isAncestor ab same)
  have lower : height a' < height b := by
    rw [← same, graded.parent_some upA]
    omega
  have notBA' : ¬IsAncestor parent b a' := fun ba' =>
    absurd (graded.climb_of_isAncestor ba').1 (by omega)
  calc Common parent a b c ↔ Common parent a' b c := common_parent_left notAB upA c
    _ ↔ Common parent b a' c := common_comm
    _ ↔ Common parent b' a' c := common_parent_left notBA' upB c
    _ ↔ Common parent a' b' c := common_comm

/-- Two different entries at one height, one of them a root, have no common ancestor. -/
theorem not_common_of_root {a b : α} (ne : a ≠ b) (same : height a = height b)
    (root : parent a = none ∨ parent b = none) (c : α) : ¬Common parent a b c := by
  rcases root with rootA | rootB
  · exact not_common_root_left (fun ab => ne (graded.eq_of_isAncestor ab same)) rootA c
  · rw [common_comm]
    exact not_common_root_left (fun ba => ne (graded.eq_of_isAncestor ba same.symm).symm) rootB c

/-- An ancestor of `b` is the highest common ancestor of itself and `b`. -/
theorem isHighest_common_self {a b : α} (ab : IsAncestor parent a b) :
    IsHighest height (Common parent a b) (some a) :=
  ⟨⟨.refl a, ab⟩, fun _ common => (graded.climb_of_isAncestor common.1).1⟩

/-- The chain with tip `a` holds `b` at the height of `b` exactly when `b` is an ancestor of `a`. -/
theorem getElem?_line_height {a b : α} :
    (line parent height a)[height b]? = some (some b) ↔ IsAncestor parent b a := by
  rw [getElem?_line, graded.isAncestor_iff]
  by_cases le : height b ≤ height a
  · simp [le]
  · simp [le]

/-- Below an ancestor `p` of `t`, climbing from `t` or from `p` reaches the same entries. -/
theorem climb_sub_of_isAncestor {p t : α} (anc : IsAncestor parent p t) {h : Nat}
    (le : h ≤ height p) : climb parent (height t - h) t = climb parent (height p - h) p := by
  obtain ⟨_, climbed⟩ := graded.climb_of_isAncestor anc
  have split : height t - h = (height p - h) + (height t - height p) := by omega
  rw [split, climb_add, climbed, Option.bind_some]

/-- The chains with tips `t` and `p` agree up to the height of `p` when `p` is an ancestor of `t`. -/
theorem getElem?_line_of_isAncestor {p t : α} (anc : IsAncestor parent p t) {h : Nat}
    (le : h ≤ height p) : (line parent height t)[h]? = (line parent height p)[h]? := by
  have below := (graded.climb_of_isAncestor anc).1
  rw [getElem?_line, getElem?_line, if_pos (by omega), if_pos le,
    graded.climb_sub_of_isAncestor anc le]

/-- The chain with tip `a` holds exactly the ancestors of `a`. -/
theorem mem_line {a b : α} : some b ∈ line parent height a ↔ IsAncestor parent b a := by
  constructor
  · intro member
    obtain ⟨h, found⟩ := List.mem_iff_getElem?.1 member
    rw [getElem?_line] at found
    split at found
    · exact ⟨_, Option.some.inj found⟩
    · cases found
  · intro anc
    exact List.mem_iff_getElem?.2 ⟨height b, graded.getElem?_line_height.2 anc⟩

end Graded

end Ancestry
