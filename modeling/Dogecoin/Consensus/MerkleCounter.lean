import Dogecoin.Consensus.Merkle

/-!
# The merkle tree as a binary counter

`MerkleComputation` (consensus/merkle.cpp) reads the leaves one at a time
and keeps, for every bit of the number read so far, the root of one complete
subtree: a binary counter whose carries hash two subtrees into one.  After
the last leaf a sweep pairs each subtree that has no partner with itself and
hashes the slots together from the bottom up.  Along the way it records
whether two equal subtrees were paired, and the branch of one position.

This module states that computation over a list of slots, one per level,
each empty or holding a subtree and whether it contains the leaf of the
branch.  `run_fresh` describes the slots, the mutation and the branch
entries after all leaves from the levels of `pairUp`; `sweep_levelSlots_root`
and `sweep_levelSlots_branch` prove the sweep against the level-by-level
tree of `Merkle`.
-/

namespace Dogecoin.Consensus

/-- A slot of the counter: empty, or a subtree root and whether it contains the leaf of the branch. -/
abbrev Slot (α : Type) := Option (α × Bool)

section Counter

variable {α : Type} (hashPair : α → α → α)

/-! ## The slots of a level -/

/-- The branch entry among the complete pairs of `level`, whose first node is at position `k`. -/
def pairSibling (pos : Nat) : List α → Nat → List α
  | a :: b :: rest, k =>
      (if k + 1 = pos then [a] else if k = pos then [b] else []) ++ pairSibling pos rest (k + 2)
  | _, _ => []

/-- The `d` slots after reading `level` from empty slots: the odd last node of each level of complete subtrees. -/
def levelSlots : Nat → Nat → List α → List (Slot α)
  | _, 0, _ => []
  | pos, d + 1, level =>
      ((oddLast level).map fun c => (c, level.length - 1 == pos)) ::
        levelSlots (pos / 2) d (pairUp hashPair level)

/-- The branch entries found while reading `level`: one per level of complete subtrees that pairs the leaf. -/
def levelBranch : Nat → Nat → List α → List α
  | _, 0, _ => []
  | pos, d + 1, level => pairSibling pos level 0 ++ levelBranch (pos / 2) d (pairUp hashPair level)

/-- The number the slots hold: bit `l` is set where slot `l` holds a subtree. -/
def bitsOf : List (Slot α) → Nat
  | [] => 0
  | slot :: rest => slot.isSome.toNat + 2 * bitsOf rest

/-- No slot contains the leaf of the branch. -/
def Unflagged (slots : List (Slot α)) : Prop :=
  ∀ slot ∈ slots, ∀ node ∈ slot, node.2 = false

/-- The slots hold fewer subtrees than their number of bits allows. -/
theorem bitsOf_lt (slots : List (Slot α)) : bitsOf slots < 2 ^ slots.length := by
  induction slots with
  | nil => simp [bitsOf]
  | cons slot rest ih =>
    have bit : slot.isSome.toNat ≤ 1 := Bool.toNat_le _
    rw [bitsOf, List.length_cons, Nat.pow_succ]
    omega

theorem bitsOf_eq_zero_iff (slots : List (Slot α)) :
    bitsOf slots = 0 ↔ slots.any Option.isSome = false := by
  induction slots with
  | nil => simp [bitsOf]
  | cons slot rest ih =>
    rw [bitsOf, List.any_cons, Bool.or_eq_false_iff, ← ih]
    cases slot.isSome <;>
      simp only [Bool.toNat_true, Bool.toNat_false, Bool.true_eq_false, false_and, true_and, iff_false] <;> omega

/-- Slots that all hold a subtree hold the largest number their bits allow. -/
theorem bitsOf_of_full (slots : List (Slot α)) (full : ∀ slot ∈ slots, slot.isSome) :
    bitsOf slots + 1 = 2 ^ slots.length := by
  induction slots with
  | nil => rfl
  | cons slot rest ih =>
    have here := full slot List.mem_cons_self
    have above := ih fun other member => full other (List.mem_cons_of_mem _ member)
    rw [bitsOf, here, List.length_cons, Nat.pow_succ]
    simp only [Bool.toNat_true]
    omega

theorem unflagged_replicate (d : Nat) : Unflagged (List.replicate d (none : Slot α)) := by
  intro slot member
  rw [List.eq_of_mem_replicate member]
  nofun

theorem pairSibling_of_lt {pos : Nat} : ∀ (level : List α) {k : Nat}, pos < k →
    pairSibling pos level k = []
  | a :: b :: rest, k, before => by
    rw [pairSibling, if_neg (by omega), if_neg (by omega), pairSibling_of_lt rest (by omega)]
    rfl
  | [], _, _ => rfl
  | [_], _, _ => rfl

theorem pairSibling_of_le {pos : Nat} : ∀ (level : List α) {k : Nat},
    k + 2 * (level.length / 2) ≤ pos → pairSibling pos level k = []
  | a :: b :: rest, k, beyond => by
    simp only [List.length_cons] at beyond
    rw [pairSibling, if_neg (by omega), if_neg (by omega), pairSibling_of_le rest (by omega)]
    rfl
  | [], _, _ => rfl
  | [_], _, _ => rfl

/-- Within the complete pairs, the entry of `pairSibling` is the sibling of the position. -/
theorem pairSibling_of_lt_pairs {pos : Nat} : ∀ (level : List α) (k : Nat), k ≤ pos →
    pos < k + 2 * (level.length / 2) → pairSibling pos level k = (siblingAt level (pos - k)).toList
  | a :: b :: rest, k, after, inPairs => by
    simp only [List.length_cons] at inPairs
    by_cases here : pos < k + 2
    · rw [pairSibling, pairSibling_of_lt rest (by omega), List.append_nil]
      rcases (show pos = k ∨ pos = k + 1 by omega) with rfl | rfl
      · simp [siblingAt]
      · simp [siblingAt]
    · rw [pairSibling, if_neg (by omega), if_neg (by omega), List.nil_append,
        pairSibling_of_lt_pairs rest (k + 2) (by omega) (by omega),
        show pos - k = pos - (k + 2) + 2 by omega]
      rfl
  | [], _, _, inPairs => by simp at inPairs; omega
  | [_], _, _, inPairs => by simp at inPairs; omega

/-- The odd last node of a level pairs with no node of it. -/
theorem pairSibling_append_of_even {pos : Nat} : ∀ (level : List α) (c : α) (k : Nat),
    level.length % 2 = 0 → pairSibling pos (level ++ [c]) k = pairSibling pos level k
  | [], _, _, _ => rfl
  | [_], _, _, odd => by simp at odd
  | a :: b :: rest, c, k, even => by
    simp only [List.length_cons] at even
    rw [List.cons_append, List.cons_append, pairSibling, pairSibling,
      pairSibling_append_of_even rest c (k + 2) (by omega)]

/-- Two nodes at positions `2j` and `2j + 1` carry into one node at position `j`, which holds the leaf exactly when one of them does. -/
theorem pair_match {k pos : Nat} (even : k % 2 = 0) :
    ((k + 1 == pos) || (k == pos)) = (k / 2 == pos / 2) := by
  by_cases same : k / 2 = pos / 2
  · have near : k = pos ∨ k + 1 = pos := by omega
    rw [same, beq_self_eq_true]
    rcases near with rfl | rfl <;> simp
  · rw [beq_false_of_ne same]
    simp only [Bool.or_eq_false_iff, beq_eq_false_iff_ne]
    omega

@[simp]
theorem length_levelSlots : ∀ (pos d : Nat) (level : List α),
    (levelSlots hashPair pos d level).length = d
  | _, 0, _ => rfl
  | pos, d + 1, level => by rw [levelSlots, List.length_cons, length_levelSlots]

theorem levelSlots_nil : ∀ (pos d : Nat),
    levelSlots hashPair pos d ([] : List α) = List.replicate d none
  | _, 0 => rfl
  | pos, d + 1 => by
    rw [List.replicate_succ, ← levelSlots_nil (pos / 2) d]
    rfl

/-- A nonempty level whose length has `d` bits leaves a subtree in one of `d` slots. -/
theorem any_levelSlots : ∀ (pos d : Nat) (level : List α), level ≠ [] → level.length < 2 ^ d →
    (levelSlots hashPair pos d level).any Option.isSome = true
  | _, 0, level, nonempty, fits => by
    simp only [Nat.pow_zero, Nat.lt_one_iff, List.length_eq_zero_iff] at fits
    exact absurd fits nonempty
  | pos, d + 1, level, nonempty, fits => by
    cases odd : oddLast level with
    | some c => simp [levelSlots, odd]
    | none =>
      have even := (oddLast_eq_none_iff level).1 odd
      have wide := List.length_pos_iff.2 nonempty
      have above : pairUp hashPair level ≠ [] := by
        rw [← List.length_pos_iff, length_pairUp]
        omega
      rw [levelSlots, odd, Option.map_none, List.any_cons,
        any_levelSlots (pos / 2) d _ above (by rw [length_pairUp]; rw [Nat.pow_succ] at fits; omega)]
      rfl

theorem levelBranch_of_le : ∀ (pos d : Nat) (level : List α), level.length ≤ pos →
    levelBranch hashPair pos d level = []
  | _, 0, _, _ => rfl
  | pos, d + 1, level, beyond => by
    rw [levelBranch, pairSibling_of_le level (by omega),
      levelBranch_of_le (pos / 2) d _ (by rw [length_pairUp]; omega)]
    rfl

/-! ## The sweep -/

/--
The sweep from the node `h` at the level of the first slot: it pairs with
that slot's subtree, or, where the slot is empty and subtrees remain above,
with itself; at the top it is the root.  The root and the branch entries
found.
-/
def climb (h : α) (matchh : Bool) : List (Slot α) → α × List α
  | [] => (h, [])
  | some (x, mx) :: rest =>
      let above := climb (hashPair x h) (matchh || mx) rest
      (above.1, (if matchh then [x] else if mx then [h] else []) ++ above.2)
  | none :: rest =>
      if rest.any Option.isSome then
        let above := climb (hashPair h h) matchh rest
        (above.1, (if matchh then [h] else []) ++ above.2)
      else (h, [])

/-- The final sweep: from the lowest subtree up, which has no partner at its own level. -/
def sweep : List (Slot α) → Option (α × List α)
  | [] => none
  | none :: rest => sweep rest
  | some (x, mx) :: rest => some (climb hashPair x mx (none :: rest))

theorem climb_replicate (h : α) (matchh : Bool) (d : Nat) :
    climb hashPair h matchh (none :: List.replicate d none) = (h, []) := by
  simp [climb]

theorem sweep_replicate : ∀ d : Nat, sweep hashPair (List.replicate d (none : Slot α)) = none
  | 0 => rfl
  | d + 1 => sweep_replicate d

/-- The sweep from a node after `level` climbs to the root of `level` followed by the node. -/
theorem climb_levelSlots_root : ∀ (d pos : Nat) (level : List α) (h : α) (matchh : Bool),
    level.length < 2 ^ d →
    merkleRoot hashPair (level ++ [h]) = some (climb hashPair h matchh (levelSlots hashPair pos d level)).1
  | 0, _, level, h, _, fits => by
    obtain rfl : level = [] := List.length_eq_zero_iff.1 (by simpa using fits)
    simp [levelSlots, climb]
  | d + 1, pos, level, h, matchh, fits => by
    by_cases empty : level = []
    · subst empty
      rw [levelSlots_nil, List.replicate_succ, climb_replicate]
      simp
    · have wide : 2 ≤ (level ++ [h]).length := by
        rw [List.length_append, List.length_singleton]
        have := List.length_pos_iff.2 empty
        omega
      have above : (pairUp hashPair level).length < 2 ^ d := by
        rw [length_pairUp]
        rw [Nat.pow_succ] at fits
        omega
      rw [merkleRoot_of_two_le hashPair wide, nextLevel_append_singleton]
      cases odd : oddLast level with
      | none =>
        have even := (oddLast_eq_none_iff level).1 odd
        have pairs : pairUp hashPair level ≠ [] := by
          rw [← List.length_pos_iff, length_pairUp]
          have := List.length_pos_iff.2 empty
          omega
        rw [levelSlots, odd, Option.map_none, climb, if_pos (any_levelSlots hashPair _ d _ pairs above)]
        exact climb_levelSlots_root d (pos / 2) _ _ _ above
      | some x =>
        rw [levelSlots, odd, Option.map_some, climb]
        exact climb_levelSlots_root d (pos / 2) _ _ _ above

/-- The branch of a position at or before a node after `level`: the entries of the complete pairs, then those of the sweep. -/
theorem climb_levelSlots_branch : ∀ (d pos : Nat) (level : List α) (h : α),
    level.length < 2 ^ d → pos ≤ level.length →
    levelBranch hashPair pos d level ++
        (climb hashPair h (level.length == pos) (levelSlots hashPair pos d level)).2 =
      merkleBranch hashPair (level ++ [h]) pos
  | 0, pos, level, h, fits, within => by
    obtain rfl : level = [] := List.length_eq_zero_iff.1 (by simpa using fits)
    simp [levelBranch, levelSlots, climb, merkleBranch_of_le_one]
  | d + 1, pos, level, h, fits, within => by
    by_cases empty : level = []
    · subst empty
      rw [levelSlots_nil, List.replicate_succ, climb_replicate,
        levelBranch_of_le hashPair pos (d + 1) [] (Nat.zero_le pos), merkleBranch_of_le_one hashPair (by simp)]
      rfl
    · have wide : 2 ≤ (level ++ [h]).length := by
        rw [List.length_append, List.length_singleton]
        have := List.length_pos_iff.2 empty
        omega
      have above : (pairUp hashPair level).length < 2 ^ d := by
        rw [length_pairUp]
        rw [Nat.pow_succ] at fits
        omega
      rw [merkleBranch_of_two_le hashPair wide, nextLevel_append_singleton]
      cases odd : oddLast level with
      | none =>
        have even := (oddLast_eq_none_iff level).1 odd
        have pairs : pairUp hashPair level ≠ [] := by
          rw [← List.length_pos_iff, length_pairUp]
          have := List.length_pos_iff.2 empty
          omega
        have flag : ((pairUp hashPair level).length == pos / 2) = (level.length == pos) := by
          rw [length_pairUp, Bool.eq_iff_iff, beq_iff_eq, beq_iff_eq]
          omega
        have ih := climb_levelSlots_branch d (pos / 2) _ (hashPair h h) above
          (by rw [length_pairUp]; omega)
        rw [flag] at ih
        rw [levelSlots, levelBranch, odd, Option.map_none, climb,
          if_pos (any_levelSlots hashPair _ d _ pairs above), Option.elim, ← ih]
        by_cases last : pos = level.length
        · subst last
          rw [pairSibling_of_le level (by omega), levelBranch_of_le hashPair _ d _ (Nat.le_of_eq (length_pairUp hashPair level)),
            siblingAt_append_of_even level h even]
          simp
        · rw [pairSibling_of_lt_pairs level 0 (Nat.zero_le pos) (by omega), Nat.sub_zero,
            ← siblingAt_append_of_lt level [h] pos (by omega), if_neg (by simpa using Ne.symm last)]
          simp
      | some x =>
        have odd' := oddLast_isSome level
        rw [odd, Option.isSome_some, eq_comm, beq_iff_eq] at odd'
        have flag : ((pairUp hashPair level).length == pos / 2) =
            ((level.length == pos) || (level.length - 1 == pos)) := by
          rw [length_pairUp, Bool.eq_iff_iff, Bool.or_eq_true, beq_iff_eq, beq_iff_eq, beq_iff_eq]
          omega
        have ih := climb_levelSlots_branch d (pos / 2) _ (hashPair x h) above
          (by rw [length_pairUp]; omega)
        rw [flag] at ih
        rw [levelSlots, levelBranch, odd, Option.map_some, climb, Option.elim, ← ih]
        obtain ⟨atLast, beforeLast⟩ := siblingAt_append_of_oddLast level x h odd
        by_cases pair : level.length - 1 ≤ pos
        · rw [pairSibling_of_le level (by omega), levelBranch_of_le hashPair _ d _ (by rw [length_pairUp]; omega)]
          rcases (show pos = level.length ∨ pos = level.length - 1 by omega) with rfl | rfl
          · rw [atLast]
            simp
          · rw [beforeLast, if_neg (by simp; omega)]
            simp
        · rw [pairSibling_of_lt_pairs level 0 (Nat.zero_le pos) (by omega), Nat.sub_zero,
            ← siblingAt_append_of_lt level [h] pos (by omega), if_neg (by simp; omega),
            if_neg (by simp; omega)]
          simp

/-- The sweep over the slots of a level ends at its level-by-level root. -/
theorem sweep_levelSlots_root : ∀ (d pos : Nat) (level : List α), level.length < 2 ^ d →
    (sweep hashPair (levelSlots hashPair pos d level)).map Prod.fst = merkleRoot hashPair level
  | 0, _, level, fits => by
    obtain rfl : level = [] := List.length_eq_zero_iff.1 (by simpa using fits)
    rfl
  | d + 1, pos, level, fits => by
    have above : (pairUp hashPair level).length < 2 ^ d := by
      rw [length_pairUp]
      rw [Nat.pow_succ] at fits
      omega
    cases odd : oddLast level with
    | none =>
      rw [levelSlots, odd, Option.map_none, sweep, sweep_levelSlots_root d (pos / 2) _ above]
      by_cases empty : level = []
      · subst empty
        rfl
      · have even := (oddLast_eq_none_iff level).1 odd
        have := List.length_pos_iff.2 empty
        rw [merkleRoot_of_two_le hashPair (show 2 ≤ level.length by omega), nextLevel_eq, odd]
        simp
    | some c =>
      obtain ⟨before, rfl, even⟩ := eq_append_of_oddLast odd
      have slots : (none : Slot α) :: levelSlots hashPair (pos / 2) d (pairUp hashPair before) =
          levelSlots hashPair pos (d + 1) before := by
        rw [levelSlots, (oddLast_eq_none_iff before).2 even, Option.map_none]
      rw [levelSlots, odd, Option.map_some, sweep, pairUp_append_of_even hashPair before c even, slots,
        climb_levelSlots_root hashPair (d + 1) pos before c _ (by simp at fits; omega)]
      rfl

/-- The branch entries of the sweep complete those found while reading the level. -/
theorem sweep_levelSlots_branch : ∀ (d pos : Nat) (level : List α), level.length < 2 ^ d →
    pos < level.length →
    (sweep hashPair (levelSlots hashPair pos d level)).map
        (fun found => levelBranch hashPair pos d level ++ found.2) =
      some (merkleBranch hashPair level pos)
  | 0, _, level, fits, within => by
    obtain rfl : level = [] := List.length_eq_zero_iff.1 (by simpa using fits)
    simp at within
  | d + 1, pos, level, fits, within => by
    have above : (pairUp hashPair level).length < 2 ^ d := by
      rw [length_pairUp]
      rw [Nat.pow_succ] at fits
      omega
    cases odd : oddLast level with
    | none =>
      have even := (oddLast_eq_none_iff level).1 odd
      have ih := sweep_levelSlots_branch d (pos / 2) _ above (by rw [length_pairUp]; omega)
      rw [levelSlots, levelBranch, odd, Option.map_none, sweep,
        merkleBranch_of_two_le hashPair (by omega), nextLevel_eq, odd, Option.map_none,
        Option.toList_none, List.append_nil,
        pairSibling_of_lt_pairs level 0 (Nat.zero_le pos) (by omega), Nat.sub_zero]
      obtain ⟨found, swept, branch⟩ := Option.map_eq_some_iff.1 ih
      rw [swept, Option.map_some, ← branch, List.append_assoc]
    | some c =>
      obtain ⟨before, rfl, even⟩ := eq_append_of_oddLast odd
      have slots : (none : Slot α) :: levelSlots hashPair (pos / 2) d (pairUp hashPair before) =
          levelSlots hashPair pos (d + 1) before := by
        rw [levelSlots, (oddLast_eq_none_iff before).2 even, Option.map_none]
      have flag : ((before ++ [c]).length - 1 == pos) = (before.length == pos) := by simp
      have readBranch : levelBranch hashPair pos (d + 1) (before ++ [c]) =
          levelBranch hashPair pos (d + 1) before := by
        rw [levelBranch, levelBranch, pairSibling_append_of_even before c 0 even,
          pairUp_append_of_even hashPair before c even]
      rw [levelSlots, odd, Option.map_some, sweep, pairUp_append_of_even hashPair before c even, slots,
        flag, readBranch, Option.map_some,
        climb_levelSlots_branch hashPair (d + 1) pos before c (by simp at fits; omega)
          (by simp at within; omega)]

/-! ## Reading the leaves -/

variable [DecidableEq α]

/--
Add the node `h` at the level of the first slot, carrying upward as a binary
counter does: the slots after, whether a carry paired two equal nodes, and
the branch entries found.  `matchh` says that `h` contains the leaf of the
branch; where it meets its partner, the partner is the next branch entry.
-/
def carry (h : α) (matchh : Bool) : List (Slot α) → List (Slot α) × Bool × List α
  | [] => ([some (h, matchh)], false, [])
  | none :: rest => (some (h, matchh) :: rest, false, [])
  | some (x, mx) :: rest =>
      let above := carry (hashPair x h) (matchh || mx) rest
      (none :: above.1, decide (x = h) || above.2.1,
        (if matchh then [x] else if mx then [h] else []) ++ above.2.2)

/-- Read `leaves`, the first at position `k`, into the counter; `pos` is the position of the branch. -/
def run (pos : Nat) : List (Slot α) → List α → Nat → List (Slot α) × Bool × List α
  | slots, [], _ => (slots, false, [])
  | slots, h :: rest, k =>
      let step := carry hashPair h (k == pos) slots
      let after := run pos step.1 rest (k + 1)
      (after.1, step.2.1 || after.2.1, step.2.2 ++ after.2.2)

/-- A carry adds one to the number the slots hold. -/
theorem bitsOf_carry : ∀ (h : α) (matchh : Bool) (slots : List (Slot α)),
    bitsOf (carry hashPair h matchh slots).1 = bitsOf slots + 1
  | _, _, [] => rfl
  | _, _, none :: rest => by
    simp only [carry, bitsOf, Option.isSome_some, Option.isSome_none, Bool.toNat_true, Bool.toNat_false]
    omega
  | h, matchh, some (x, mx) :: rest => by
    simp only [carry, bitsOf, Option.isSome_some, Option.isSome_none, Bool.toNat_true, Bool.toNat_false,
      bitsOf_carry (hashPair x h) (matchh || mx) rest]
    omega

/-- A carry of a node without the leaf, over slots without it, finds no branch entry. -/
theorem carry_unflagged (h : α) : ∀ {slots : List (Slot α)}, Unflagged slots →
    Unflagged (carry hashPair h false slots).1 ∧ (carry hashPair h false slots).2.2 = []
  | [], _ => ⟨by simp [Unflagged, carry], rfl⟩
  | none :: rest, clear => ⟨fun slot member => by
      rcases List.mem_cons.1 member with rfl | inRest
      · simp
      · exact clear slot (List.mem_cons_of_mem _ inRest), rfl⟩
  | some (x, mx) :: rest, clear => by
    have flag : mx = false := clear _ List.mem_cons_self _ rfl
    have restClear : Unflagged rest := fun slot member => clear slot (List.mem_cons_of_mem _ member)
    subst flag
    obtain ⟨above, found⟩ := carry_unflagged (hashPair x h) restClear
    refine ⟨fun slot member => ?_, ?_⟩
    · rcases List.mem_cons.1 member with rfl | inAbove
      · nofun
      · exact above slot inAbove
    · simp only [carry, Bool.or_self, Bool.false_eq_true, if_false, List.nil_append]
      exact found

/--
Reading a level into slots whose first is empty: the pairs of the level
carry, as its complete subtrees, into the slots above, and its odd last node
stays in the first slot.
-/
theorem run_pairs (pos : Nat) : ∀ (level : List α) (slots : List (Slot α)) (k : Nat),
    k % 2 = 0 → (pos < k ∨ Unflagged slots) →
    run hashPair pos (none :: slots) level k =
      let above := run hashPair (pos / 2) slots (pairUp hashPair level) (k / 2)
      (((oddLast level).map fun c => (c, k + level.length - 1 == pos)) :: above.1,
        pairsEqual level || above.2.1, pairSibling pos level k ++ above.2.2)
  | [], slots, k, _, _ => by simp [run, oddLast, pairUp, pairsEqual, pairSibling]
  | [c], slots, k, _, _ => by simp [run, carry, oddLast, pairUp, pairsEqual, pairSibling]
  | a :: b :: rest, slots, k, even, clear => by
    have pairFlag : (k + 1 == pos || k == pos) = (k / 2 == pos / 2) := pair_match even
    have later : pos < k + 2 ∨
        (Unflagged (carry hashPair (hashPair a b) (k / 2 == pos / 2) slots).1 ∧
          (carry hashPair (hashPair a b) (k / 2 == pos / 2) slots).2.2 = []) := by
      by_cases near : pos < k + 2
      · exact Or.inl near
      · have notHere : (k / 2 == pos / 2) = false := by
          rw [beq_eq_false_iff_ne]
          omega
        rw [notHere]
        exact Or.inr (carry_unflagged hashPair _ (clear.resolve_left (by omega)))
    have restRun := run_pairs pos rest _ (k + 2) (by omega) (later.imp id And.left)
    rw [show (k + 2) / 2 = k / 2 + 1 by omega] at restRun
    simp only [run, carry, pairFlag, restRun, pairUp, oddLast, pairsEqual, pairSibling]
    generalize carry hashPair (hashPair a b) (k / 2 == pos / 2) slots = up at later ⊢
    generalize run hashPair (pos / 2) up.1 (pairUp hashPair rest) (k / 2 + 1) = above
    have swap : up.2.2 ++ pairSibling pos rest (k + 2) = pairSibling pos rest (k + 2) ++ up.2.2 := by
      rcases later with near | ⟨-, found⟩
      · rw [pairSibling_of_lt rest near, List.append_nil, List.nil_append]
      · rw [found, List.append_nil, List.nil_append]
    have position : k + 2 + rest.length - 1 = k + (a :: b :: rest).length - 1 := by
      rw [List.length_cons, List.length_cons]
      omega
    rw [position]
    refine Prod.ext rfl (Prod.ext ?_ ?_)
    · simp only [Bool.false_or, Bool.or_assoc, Bool.or_left_comm]
    · simp only [List.nil_append, beq_iff_eq, List.append_assoc]
      rw [← List.append_assoc up.2.2, swap, List.append_assoc]


/--
Reading a level into empty slots: the slots then hold the odd last node of
each level of complete subtrees, the mutation is that of the complete
subtrees, and the branch entries are those of the complete pairs.
-/
theorem run_fresh (pos d : Nat) (level : List α) (fits : level.length < 2 ^ d) :
    run hashPair pos (List.replicate d none) level 0 =
      (levelSlots hashPair pos d level, completeMutated hashPair level,
        levelBranch hashPair pos d level) := by
  induction d generalizing pos level with
  | zero =>
    obtain rfl : level = [] := List.length_eq_zero_iff.1 (by simpa using fits)
    rfl
  | succ d ih =>
    have above : (pairUp hashPair level).length < 2 ^ d := by
      rw [length_pairUp]
      rw [Nat.pow_succ] at fits
      omega
    rw [List.replicate_succ, run_pairs hashPair pos level _ 0 rfl (Or.inr (unflagged_replicate d)),
      Nat.zero_div, ih (pos / 2) _ above, completeMutated_eq hashPair level, Nat.zero_add]
    rfl

end Counter

end Dogecoin.Consensus
