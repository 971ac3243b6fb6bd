import Mathlib.Data.List.Basic
import Mathlib.Algebra.Group.Int.Defs
import Mathlib.Algebra.Group.Nat.Defs

/-!
# The merkle tree, level by level

Bitcoin's merkle tree hashes the adjacent pairs of a level into the level
above, and pairs the last hash of an odd level with itself.  This module
states the tree level by level, as the old `BlockBuildMerkleTree` and
`BlockGetMerkleBranch` of merkle_tests.cpp build it: the levels, the root,
the branch of a position (its sibling at every level, the node itself where
it is the duplicated last one), and the root that
`ComputeMerkleRootFromBranch` computes from a branch.
`rootFromBranch_merkleBranch` says that the branch of a leaf leads from it
to the root.

It also states two notions of a mutated list of leaves.  The old code flags
a level whose last two hashes are real and equal (`lastPairMutated`).  The
complete subtrees of a level are its nodes over `2 ^ L` real leaves, the
levels that `pairUp` builds, and `completeMutated` flags two equal complete
subtrees side by side.
-/

namespace Dogecoin.Consensus

section Levels

variable {α : Type} (hashPair : α → α → α)

/-- One level up: adjacent nodes hashed in pairs, the last node of an odd level with itself. -/
def nextLevel : List α → List α
  | [] => []
  | [a] => [hashPair a a]
  | a :: b :: rest => hashPair a b :: nextLevel rest

/-- One level up over complete subtrees: the last node of an odd level is left out. -/
def pairUp : List α → List α
  | a :: b :: rest => hashPair a b :: pairUp rest
  | _ => []

/-- The last node of an odd level, the one `nextLevel` pairs with itself. -/
def oddLast : List α → Option α
  | [] => none
  | [a] => some a
  | _ :: _ :: rest => oddLast rest

@[simp]
theorem length_pairUp : ∀ level : List α, (pairUp hashPair level).length = level.length / 2
  | [] => by simp [pairUp]
  | [_] => by simp [pairUp]
  | _ :: _ :: rest => by
    rw [pairUp, List.length_cons, length_pairUp rest, List.length_cons, List.length_cons]
    omega

theorem oddLast_isSome : ∀ level : List α, (oddLast level).isSome = (level.length % 2 == 1)
  | [] => rfl
  | [_] => rfl
  | _ :: _ :: rest => by
    rw [oddLast, oddLast_isSome rest, List.length_cons, List.length_cons]
    congr 1
    omega

theorem oddLast_eq_none_iff (level : List α) : oddLast level = none ↔ level.length % 2 = 0 := by
  rw [← Option.not_isSome_iff_eq_none, oddLast_isSome]
  simp only [beq_iff_eq]
  omega

/-- A level with an odd last node is a level of complete pairs followed by it. -/
theorem eq_append_of_oddLast : ∀ {level : List α} {c : α}, oddLast level = some c →
    ∃ before, level = before ++ [c] ∧ before.length % 2 = 0
  | [], _, found => by cases found
  | [_], _, found => by
    cases found
    exact ⟨[], rfl, rfl⟩
  | a :: b :: rest, c, found => by
    obtain ⟨before, rfl, even⟩ := eq_append_of_oddLast (show oddLast rest = some c from found)
    exact ⟨a :: b :: before, rfl, by simp only [List.length_cons]; omega⟩

/-- A node after a level of complete pairs makes no new pair. -/
theorem pairUp_append_of_even : ∀ (level : List α) (c : α), level.length % 2 = 0 →
    pairUp hashPair (level ++ [c]) = pairUp hashPair level
  | [], _, _ => rfl
  | [_], _, odd => by simp at odd
  | a :: b :: rest, c, even => by
    simp only [List.length_cons] at even
    rw [List.cons_append, List.cons_append, pairUp, pairUp, pairUp_append_of_even rest c (by omega)]

/-- A level is its complete pairs, then its odd last node duplicated. -/
theorem nextLevel_eq : ∀ level : List α,
    nextLevel hashPair level =
      pairUp hashPair level ++ ((oddLast level).map fun c => hashPair c c).toList
  | [] => rfl
  | [_] => rfl
  | a :: b :: rest => by
    rw [nextLevel, pairUp, oddLast, nextLevel_eq rest, List.cons_append]

@[simp]
theorem length_nextLevel (level : List α) :
    (nextLevel hashPair level).length = (level.length + 1) / 2 := by
  rw [nextLevel_eq, List.length_append, length_pairUp]
  cases odd : oddLast level with
  | none =>
    have even := oddLast_isSome level
    rw [odd, Option.isSome_none] at even
    simp only [Option.map_none, Option.toList_none, List.length_nil]
    have : level.length % 2 ≠ 1 := fun h => by simp [h] at even
    omega
  | some c =>
    have isOdd := oddLast_isSome level
    rw [odd, Option.isSome_some] at isOdd
    simp only [Option.map_some, Option.toList_some, List.length_singleton]
    have : level.length % 2 = 1 := by simpa using isOdd.symm
    omega

/-- A node appended to a level pairs with its odd last node, or else with itself. -/
theorem nextLevel_append_singleton : ∀ (level : List α) (h : α),
    nextLevel hashPair (level ++ [h]) =
      pairUp hashPair level ++ [(oddLast level).elim (hashPair h h) fun y => hashPair y h]
  | [], _ => rfl
  | [_], _ => rfl
  | a :: b :: rest, h => by
    rw [List.cons_append, List.cons_append, nextLevel, nextLevel_append_singleton rest h]
    rfl

/-! ## The levels and the root -/

/-- The levels from `level` up to one of at most one node, with at most `fuel` steps up. -/
def towerFrom : Nat → List α → List (List α)
  | 0, level => [level]
  | fuel + 1, level =>
      if level.length ≤ 1 then [level] else level :: towerFrom fuel (nextLevel hashPair level)

/-- The levels of the tree over `leaves`, the leaves first. -/
def tower (leaves : List α) : List (List α) :=
  towerFrom hashPair leaves.length leaves

theorem towerFrom_succ_eq (fuel : Nat) (level : List α) :
    towerFrom hashPair (fuel + 1) level =
      if level.length ≤ 1 then [level] else level :: towerFrom hashPair fuel (nextLevel hashPair level) :=
  rfl

/-- More fuel than nodes changes nothing. -/
theorem towerFrom_succ : ∀ (fuel : Nat) (level : List α), level.length ≤ fuel →
    towerFrom hashPair (fuel + 1) level = towerFrom hashPair fuel level
  | 0, level, empty => by
    rw [Nat.le_zero, List.length_eq_zero_iff] at empty
    subst empty
    rfl
  | fuel + 1, level, bounded => by
    rw [towerFrom_succ_eq hashPair (fuel + 1), towerFrom_succ_eq hashPair fuel level]
    split
    · rfl
    · rename_i wide
      rw [towerFrom_succ fuel _ (by rw [length_nextLevel]; omega)]

theorem towerFrom_of_le {fuel : Nat} {level : List α} (bounded : level.length ≤ fuel) :
    towerFrom hashPair fuel level = tower hashPair level := by
  induction fuel with
  | zero =>
    rw [Nat.le_zero] at bounded
    unfold tower
    rw [bounded]
  | succ fuel ih =>
    by_cases lower : level.length ≤ fuel
    · rw [towerFrom_succ hashPair fuel level lower, ih lower]
    · have same : level.length = fuel + 1 := by omega
      unfold tower
      rw [same]

/-- The levels start at the leaves. -/
theorem towerFrom_head : ∀ (fuel : Nat) (level : List α),
    ∃ above, towerFrom hashPair fuel level = level :: above
  | 0, _ => ⟨[], rfl⟩
  | fuel + 1, level => by
    rw [towerFrom_succ_eq]
    split
    · exact ⟨[], rfl⟩
    · exact ⟨_, rfl⟩

theorem tower_of_le_one {level : List α} (short : level.length ≤ 1) :
    tower hashPair level = [level] := by
  unfold tower
  cases fuel : level.length with
  | zero => rfl
  | succ n => rw [towerFrom_succ_eq, if_pos (by omega)]

/-- A level of two nodes or more is followed by the levels above it. -/
theorem tower_of_two_le {level : List α} (wide : 2 ≤ level.length) :
    tower hashPair level = level :: tower hashPair (nextLevel hashPair level) := by
  unfold tower
  obtain ⟨n, length⟩ : ∃ n, level.length = n + 1 := ⟨level.length - 1, by omega⟩
  rw [length, towerFrom_succ_eq, if_neg (by omega), towerFrom_of_le hashPair (by
    rw [length_nextLevel]; omega)]
  rfl

/-- The level-by-level merkle root: the node of the top level, and `none` without leaves. -/
def merkleRoot (leaves : List α) : Option α :=
  ((tower hashPair leaves).getLast?).bind List.head?

theorem merkleRoot_of_le_one {level : List α} (short : level.length ≤ 1) :
    merkleRoot hashPair level = level.head? := by
  rw [merkleRoot, tower_of_le_one hashPair short]
  rfl

theorem merkleRoot_of_two_le {level : List α} (wide : 2 ≤ level.length) :
    merkleRoot hashPair level = merkleRoot hashPair (nextLevel hashPair level) := by
  obtain ⟨above, tower_eq⟩ := towerFrom_head hashPair (nextLevel hashPair level).length
    (nextLevel hashPair level)
  rw [merkleRoot, merkleRoot, tower_of_two_le hashPair wide, tower, tower_eq, List.getLast?_cons_cons]

@[simp]
theorem merkleRoot_nil : merkleRoot hashPair ([] : List α) = none :=
  merkleRoot_of_le_one hashPair (Nat.zero_le 1)

@[simp]
theorem merkleRoot_singleton (a : α) : merkleRoot hashPair [a] = some a :=
  merkleRoot_of_le_one hashPair (Nat.le_refl 1)

/-! ## Branches -/

/-- The sibling of position `i` in a level: its neighbour in the pair, or itself as an odd last node. -/
def siblingAt : List α → Nat → Option α
  | _ :: b :: _, 0 => some b
  | a :: _ :: _, 1 => some a
  | _ :: _ :: rest, i + 2 => siblingAt rest i
  | [a], 0 => some a
  | _, _ => none

/-- The siblings of position `i` in `level` and, at the halved position, in each level above but the top. -/
def branchAbove : List α → List (List α) → Nat → List α
  | _, [], _ => []
  | level, above :: rest, i => (siblingAt level i).toList ++ branchAbove above rest (i / 2)

/-- `BlockGetMerkleBranch`: the branch of position `i`, lowest level first. -/
def merkleBranch (leaves : List α) (i : Nat) : List α :=
  match tower hashPair leaves with
  | [] => []
  | level :: above => branchAbove level above i

theorem merkleBranch_of_le_one {level : List α} (short : level.length ≤ 1) (i : Nat) :
    merkleBranch hashPair level i = [] := by
  rw [merkleBranch, tower_of_le_one hashPair short]
  rfl

theorem merkleBranch_of_two_le {level : List α} (wide : 2 ≤ level.length) (i : Nat) :
    merkleBranch hashPair level i =
      (siblingAt level i).toList ++ merkleBranch hashPair (nextLevel hashPair level) (i / 2) := by
  obtain ⟨above, tower_eq⟩ := towerFrom_head hashPair (nextLevel hashPair level).length
    (nextLevel hashPair level)
  rw [merkleBranch, merkleBranch, tower_of_two_le hashPair wide, tower, tower_eq]
  rfl

/--
`ComputeMerkleRootFromBranch` with the position as a number: each entry of
the branch is hashed on the side that the low bit of the position says.
-/
def rootFromBranch : α → List α → Nat → α
  | hash, [], _ => hash
  | hash, it :: rest, i =>
      rootFromBranch (if i % 2 = 1 then hashPair it hash else hashPair hash it) rest (i / 2)

/-- A node and its sibling hash to the node above it. -/
theorem siblingAt_nextLevel : ∀ (level : List α) (i : Nat) (node : α), level[i]? = some node →
    ∃ sibling, siblingAt level i = some sibling ∧
      (nextLevel hashPair level)[i / 2]? =
        some (if i % 2 = 1 then hashPair sibling node else hashPair node sibling)
  | [a], 0, node, found => by
    cases found
    exact ⟨a, rfl, rfl⟩
  | a :: b :: rest, 0, node, found => by
    cases found
    exact ⟨b, rfl, rfl⟩
  | a :: b :: rest, 1, node, found => by
    cases found
    exact ⟨a, rfl, rfl⟩
  | a :: b :: rest, i + 2, node, found => by
    obtain ⟨sibling, at_i, above⟩ := siblingAt_nextLevel rest i node found
    refine ⟨sibling, at_i, ?_⟩
    rw [nextLevel, show (i + 2) / 2 = i / 2 + 1 by omega, List.getElem?_cons_succ, above,
      Nat.add_mod_right]

/-- Within the complete pairs of a level, the nodes after it change no sibling. -/
theorem siblingAt_append_of_lt : ∀ (level rest : List α) (i : Nat), i < 2 * (level.length / 2) →
    siblingAt (level ++ rest) i = siblingAt level i
  | _ :: _ :: _, _, 0, _ => rfl
  | _ :: _ :: _, _, 1, _ => rfl
  | _ :: _ :: more, rest, i + 2, inPairs => by
    simp only [List.length_cons] at inPairs
    exact siblingAt_append_of_lt more rest i (by omega)
  | [], _, _, inPairs => by simp at inPairs
  | [_], _, _, inPairs => by simp at inPairs

/-- A node after a level of even length is the odd last node: its own sibling. -/
theorem siblingAt_append_of_even : ∀ (level : List α) (h : α), level.length % 2 = 0 →
    siblingAt (level ++ [h]) level.length = some h
  | [], _, _ => rfl
  | [_], _, odd => by simp at odd
  | _ :: _ :: more, h, even => by
    simp only [List.length_cons] at even
    exact siblingAt_append_of_even more h (by omega)

/-- A node after a level of odd length pairs with its last node. -/
theorem siblingAt_append_of_oddLast : ∀ (level : List α) (x h : α), oddLast level = some x →
    siblingAt (level ++ [h]) level.length = some x ∧
      siblingAt (level ++ [h]) (level.length - 1) = some h
  | [], _, _, found => by cases found
  | [_], _, _, last => by
    cases last
    exact ⟨rfl, rfl⟩
  | _ :: _ :: more, x, h, last => by
    have odd := oddLast_isSome more
    rw [show oddLast more = some x from last, Option.isSome_some] at odd
    obtain ⟨n, length⟩ : ∃ n, more.length = n + 1 := ⟨more.length - 1, by
      have := beq_iff_eq.1 odd.symm
      omega⟩
    obtain ⟨atLast, beforeLast⟩ := siblingAt_append_of_oddLast more x h last
    rw [length] at atLast beforeLast
    simp only [List.length_cons, length]
    exact ⟨atLast, beforeLast⟩

/-- The branch of a leaf leads from it to the root. -/
theorem rootFromBranch_merkleBranch (leaves : List α) (i : Nat) (leaf : α)
    (found : leaves[i]? = some leaf) :
    merkleRoot hashPair leaves = some (rootFromBranch hashPair leaf (merkleBranch hashPair leaves i) i) := by
  induction size : leaves.length using Nat.strongRecOn generalizing leaves i leaf with
  | ind n ih =>
    by_cases short : leaves.length ≤ 1
    · have first : i = 0 := by
        have := (List.getElem?_eq_some_iff.1 found).1
        omega
      subst first
      rw [merkleRoot_of_le_one hashPair short, merkleBranch_of_le_one hashPair short,
        List.head?_eq_getElem?, found]
      rfl
    · obtain ⟨sibling, at_i, above⟩ := siblingAt_nextLevel hashPair leaves i leaf found
      rw [merkleRoot_of_two_le hashPair (by omega), merkleBranch_of_two_le hashPair (by omega), at_i]
      exact ih _ (by rw [← size, length_nextLevel]; omega) _ _ _ above rfl

/-! ## Mutated leaves -/

variable [DecidableEq α]

/--
The old code's mutation at one level: the level has an even number of nodes,
two or more, and its last two are equal.
-/
def lastPairEqual (level : List α) : Bool :=
  match level.reverse with
  | last :: before :: _ => level.length % 2 == 0 && decide (before = last)
  | _ => false

/-- `mutated` of `BlockBuildMerkleTree`: some level ends in two equal nodes that are both real. -/
def lastPairMutated (leaves : List α) : Bool :=
  (tower hashPair leaves).any lastPairEqual

/-- Two equal nodes side by side in one of the complete pairs of a level. -/
def pairsEqual : List α → Bool
  | a :: b :: rest => decide (a = b) || pairsEqual rest
  | _ => false

/-- Two equal complete subtrees side by side, in the levels from `level` up, with at most `fuel` of them. -/
def completeMutatedFrom : Nat → List α → Bool
  | 0, _ => false
  | fuel + 1, level => pairsEqual level || completeMutatedFrom fuel (pairUp hashPair level)

/-- Two equal complete subtrees side by side, at some level of the leaves. -/
def completeMutated (leaves : List α) : Bool :=
  completeMutatedFrom hashPair leaves.length leaves

theorem completeMutatedFrom_succ_eq (fuel : Nat) (level : List α) :
    completeMutatedFrom hashPair (fuel + 1) level =
      (pairsEqual level || completeMutatedFrom hashPair fuel (pairUp hashPair level)) :=
  rfl

theorem completeMutatedFrom_succ : ∀ (fuel : Nat) (level : List α), level.length ≤ fuel →
    completeMutatedFrom hashPair (fuel + 1) level = completeMutatedFrom hashPair fuel level
  | 0, level, empty => by
    rw [Nat.le_zero, List.length_eq_zero_iff] at empty
    subst empty
    rfl
  | fuel + 1, level, bounded => by
    rw [completeMutatedFrom_succ_eq hashPair (fuel + 1) level,
      completeMutatedFrom_succ_eq hashPair fuel level, completeMutatedFrom_succ fuel _ (by
        rw [length_pairUp]; omega)]

/-- The complete subtrees of a level, then those of the levels above it. -/
theorem completeMutated_eq (level : List α) :
    completeMutated hashPair level =
      (pairsEqual level || completeMutated hashPair (pairUp hashPair level)) := by
  unfold completeMutated
  cases length : level.length with
  | zero =>
    rw [List.length_eq_zero_iff.1 length]
    rfl
  | succ n =>
    rw [completeMutatedFrom_succ_eq, length_pairUp, length]
    have enough : ∀ fuel, (n + 1) / 2 ≤ fuel → fuel ≤ n →
        completeMutatedFrom hashPair fuel (pairUp hashPair level) =
          completeMutatedFrom hashPair ((n + 1) / 2) (pairUp hashPair level) := by
      intro fuel low high
      induction fuel with
      | zero => rw [show (n + 1) / 2 = 0 by omega]
      | succ fuel ih =>
        by_cases top : (n + 1) / 2 ≤ fuel
        · rw [completeMutatedFrom_succ hashPair fuel _ (by rw [length_pairUp, length]; exact top),
            ih top (by omega)]
        · rw [show (n + 1) / 2 = fuel + 1 by omega]
    rw [enough n (by omega) (Nat.le_refl n)]

end Levels

end Dogecoin.Consensus
