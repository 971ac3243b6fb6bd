import Mathlib.Data.Fintype.Card
import Mathlib.Logic.Relation

/-!
# Closing a set under a successor function with a worklist

A worklist traversal keeps a set `acc` of visited elements and a set `stage`
of elements still to visit.  One visit takes an element `it` of `stage`, moves
it to `acc`, and stages those of its successors that are not visited yet.

Two facts carry such a traversal:

* `ClosedUpTo acc stage`: the successors of every visited element are visited
  or staged, so when `stage` runs empty, `acc` is closed;
* `Within base roots (acc ∪ stage)`: everything visited or staged was in the
  set `base` the traversal started from or descends from one of `roots`, as
  long as `base` itself is closed.

Both are kept by a visit (`ClosedUpTo.visit`, `Within.visit`), and
`pending acc stage` drops at each visit, on any finite type, whatever the
visit finds (`pending_visit_lt`): the traversal ends even when `stage` meets
`acc`.  At the end, `acc` is `base` together with the descendants of `roots`
(`mem_iff_of_closed`).
-/

namespace Worklist

variable {α : Type} (children : α → Finset α)

/-- `y` is reached from `x` by following `children` zero or more times. -/
def Descends (x y : α) : Prop :=
  Relation.ReflTransGen (fun a b => b ∈ children a) x y

/-- A set that holds the successors of each of its elements. -/
def Closed (A : Finset α) : Prop :=
  ∀ x ∈ A, children x ⊆ A

/-- Every element of `A` was in `base` or descends from one of `roots`. -/
def Within (base roots A : Finset α) : Prop :=
  ∀ y ∈ A, y ∈ base ∨ ∃ x ∈ roots, Descends children x y

variable {children}

theorem Descends.refl (x : α) : Descends children x x :=
  Relation.ReflTransGen.refl

theorem Descends.tail {x y z : α} (descends : Descends children x y) (child : z ∈ children y) :
    Descends children x z :=
  Relation.ReflTransGen.tail descends child

theorem Descends.head {x y z : α} (child : y ∈ children x) (descends : Descends children y z) :
    Descends children x z :=
  Relation.ReflTransGen.head child descends

/-- A closed set holds every descendant of each of its elements. -/
theorem Closed.mem_of_descends {A : Finset α} (closed : Closed children A) {x y : α}
    (mem : x ∈ A) (descends : Descends children x y) : y ∈ A := by
  induction descends with
  | refl => exact mem
  | tail _ child ih => exact closed _ ih child

@[simp]
theorem closed_empty : Closed children (∅ : Finset α) := by
  intro x mem
  simp at mem

/-- When the traversal has ended, the visited set is the start together with the descendants of the roots. -/
theorem mem_iff_of_closed {base roots acc : Finset α} (closed : Closed children acc)
    (baseVisited : base ⊆ acc) (rootsVisited : roots ⊆ acc) (within : Within children base roots acc)
    (y : α) : y ∈ acc ↔ y ∈ base ∨ ∃ x ∈ roots, Descends children x y := by
  constructor
  · exact within y
  · rintro (inBase | ⟨x, root, descends⟩)
    · exact baseVisited inBase
    · exact closed.mem_of_descends (rootsVisited root) descends

/-- A set of exactly the start and the descendants of the roots is closed, with the start. -/
theorem closed_of_mem_iff {base roots A : Finset α} (closedBase : Closed children base)
    (mem : ∀ y, y ∈ A ↔ y ∈ base ∨ ∃ x ∈ roots, Descends children x y) : Closed children A := by
  intro x inA y child
  rcases (mem x).1 inA with inBase | ⟨root, isRoot, descends⟩
  · exact (mem y).2 (.inl (closedBase x inBase child))
  · exact (mem y).2 (.inr ⟨root, isRoot, descends.tail child⟩)

/-- Two successor functions that agree on a set closed under one of them have the same
descendants from it. -/
theorem descends_iff_of_agree {children' : α → Finset α} {A : Finset α} (closed : Closed children A)
    (agree : ∀ x ∈ A, children' x = children x) {x y : α} (mem : x ∈ A) :
    Descends children' x y ↔ Descends children x y := by
  have closed' : Closed children' A := fun z inA => (agree z inA).symm ▸ closed z inA
  constructor
  · intro descends
    induction descends with
    | refl => exact Descends.refl x
    | tail earlier child ih =>
        rw [agree _ (closed'.mem_of_descends mem earlier)] at child
        exact ih.tail child
  · intro descends
    induction descends with
    | refl => exact Descends.refl x
    | tail earlier child ih =>
        rw [← agree _ (closed.mem_of_descends mem earlier)] at child
        exact ih.tail child

variable [DecidableEq α] (children)

/-- The successors of every visited element are visited or staged. -/
def ClosedUpTo (acc stage : Finset α) : Prop :=
  ∀ x ∈ acc, children x ⊆ acc ∪ stage

/-- What one visit of `it` stages: the successors of `it` that are not visited. -/
def fresh (it : α) (acc : Finset α) : Finset α :=
  (children it).filter (· ∉ insert it acc)

variable {children}

/-- With nothing left to stage, the visited set is closed. -/
theorem ClosedUpTo.closed {acc : Finset α} (upTo : ClosedUpTo children acc ∅) :
    Closed children acc := by
  intro x mem
  simpa using upTo x mem

/-- A closed set is closed up to any stage. -/
theorem Closed.closedUpTo {acc : Finset α} (closed : Closed children acc) (stage : Finset α) :
    ClosedUpTo children acc stage :=
  fun x mem => (closed x mem).trans Finset.subset_union_left

theorem mem_fresh {it y : α} {acc : Finset α} :
    y ∈ fresh children it acc ↔ y ∈ children it ∧ y ∉ insert it acc := by
  simp [fresh]

/-- A traversal that stages some of the roots over its start starts within them. -/
theorem within_start {base roots stage : Finset α} (staged : stage ⊆ roots) :
    Within children base roots (base ∪ stage) := by
  intro y mem
  rcases Finset.mem_union.1 mem with inBase | inStage
  · exact .inl inBase
  · exact .inr ⟨y, staged inStage, Descends.refl y⟩

/-- A visit loses nothing that was visited or staged. -/
theorem subset_visit (acc stage : Finset α) (it : α) :
    acc ∪ stage ⊆ insert it acc ∪ (stage.erase it ∪ fresh children it acc) := by
  intro z mem
  by_cases same : z = it
  · simp [same]
  · simp only [Finset.mem_union, Finset.mem_insert, Finset.mem_erase] at mem ⊢
    tauto

/-- A visit keeps the successors of the visited elements visited or staged. -/
theorem ClosedUpTo.visit {acc stage : Finset α} (upTo : ClosedUpTo children acc stage)
    {it : α} (staged : it ∈ stage) :
    ClosedUpTo children (insert it acc) (stage.erase it ∪ fresh children it acc) := by
  intro x visited y child
  rcases Finset.mem_insert.1 visited with rfl | old
  · by_cases seen : y ∈ insert x acc
    · exact Finset.mem_union_left _ seen
    · exact Finset.mem_union_right _ (Finset.mem_union_right _ (mem_fresh.2 ⟨child, seen⟩))
  · exact subset_visit acc stage it (upTo x old child)

/-- A visit stages only descendants of the roots, when what the traversal started from is closed. -/
theorem Within.visit {base roots acc stage : Finset α} (closedBase : Closed children base)
    (within : Within children base roots (acc ∪ stage)) {it : α} (staged : it ∈ stage) :
    Within children base roots (insert it acc ∪ (stage.erase it ∪ fresh children it acc)) := by
  intro y mem
  simp only [Finset.mem_union, Finset.mem_insert, Finset.mem_erase] at mem
  rcases mem with (rfl | old) | (⟨-, old⟩ | new)
  · exact within y (Finset.mem_union_right _ staged)
  · exact within y (Finset.mem_union_left _ old)
  · exact within y (Finset.mem_union_right _ old)
  · have child := (mem_fresh.1 new).1
    rcases within it (Finset.mem_union_right _ staged) with inBase | ⟨x, root, descends⟩
    · exact .inl (closedBase it inBase child)
    · exact .inr ⟨x, root, descends.tail child⟩

section Termination

variable [Fintype α]

/-- The unvisited elements, and the staged elements that are visited already. -/
def pending (acc stage : Finset α) : Nat :=
  (Finset.univ \ acc).card + (stage ∩ acc).card

/-- A visit drops `pending`: it visits a new element, or it takes a visited one off the stage. -/
theorem pending_visit_lt {acc stage : Finset α} {it : α} (staged : it ∈ stage) :
    pending (insert it acc) (stage.erase it ∪ fresh children it acc) < pending acc stage := by
  unfold pending
  have overlap : (stage.erase it ∪ fresh children it acc) ∩ insert it acc ⊆ (stage ∩ acc).erase it := by
    intro y mem
    simp only [Finset.mem_inter, Finset.mem_union, Finset.mem_erase, Finset.mem_insert,
      mem_fresh] at mem ⊢
    rcases mem with ⟨⟨ne, inStage⟩ | ⟨-, notSeen⟩, seen⟩
    · exact ⟨ne, inStage, seen.resolve_left ne⟩
    · exact absurd (by simpa using seen) notSeen
  have overlapCard := Finset.card_le_card overlap
  by_cases seen : it ∈ acc
  · have unvisited : Finset.univ \ insert it acc = Finset.univ \ acc := by
      rw [Finset.insert_eq_of_mem seen]
    have shrinks := Finset.card_erase_of_mem (Finset.mem_inter.2 ⟨staged, seen⟩)
    have positive : 0 < (stage ∩ acc).card := Finset.card_pos.2 ⟨it, Finset.mem_inter.2 ⟨staged, seen⟩⟩
    rw [unvisited]
    omega
  · have unvisited : Finset.univ \ insert it acc = (Finset.univ \ acc).erase it := by
      ext y
      simp only [Finset.mem_sdiff, Finset.mem_univ, Finset.mem_insert, Finset.mem_erase, true_and]
      tauto
    have notVisited : it ∈ Finset.univ \ acc := Finset.mem_sdiff.2 ⟨Finset.mem_univ it, seen⟩
    have shrinks := Finset.card_erase_of_mem notVisited
    have positive : 0 < (Finset.univ \ acc).card := Finset.card_pos.2 ⟨it, notVisited⟩
    have bound := Finset.card_erase_le (s := stage ∩ acc) (a := it)
    rw [unvisited]
    omega

end Termination

end Worklist
