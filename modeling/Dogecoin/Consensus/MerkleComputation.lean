import Dogecoin.Consensus.MerkleCounter
import Dogecoin.Lib.ExceptSpec
import Dogecoin.Primitives.Transaction

/-!
# `MerkleComputation`, as consensus/merkle.cpp computes it

`MerkleComputation` computes the merkle root of a list of leaves, whether two
equal complete subtrees were hashed together, and the branch of one position,
in one pass with constant space.  `count` is a `uint32_t`, and every test of
a bit of it shifts `((uint32_t)1) << level`; a shift by 32 or more is
undefined, the fault `shiftOutOfRange` here.  Counts are naturals below
`2 ^ 32`, reduced modulo `2 ^ 32` where the code adds to them.

The array `inner` and the bits of `count` are the slots of the binary counter
of `MerkleCounter`: `slotsFrom` reads them, with `matchlevel` marking the slot
that holds the leaf of the branch.  Each leaf of the main loop is a `carry`
on the slots (`addLeaf_carry`), and the final sweep is `sweep` as long as the
count stays at or below `2 ^ 31` (`sweepLevels_climb`).  With more leaves the
sweep adds up to `2 ^ 32`, which wraps to zero, and then shifts by 32
(`sweepLevels_wraps`).
-/

namespace Dogecoin.Consensus

open Dogecoin.Primitives ExceptSpec

/-- The undefined behaviour `MerkleComputation` can reach: `((uint32_t)1) << level` with `level` at least 32. -/
inductive MerkleFault
  | shiftOutOfRange
deriving DecidableEq, Repr

/--
The variables of `MerkleComputation` that live from one leaf to the next.
Every read and write of `inner` follows a test of the bit of `count` at the
same level, which faults from level 32 on, so only its first 32 entries are
ever used.
-/
structure MerkleState where
  count : Nat
  inner : Nat → UInt256
  matchlevel : Int
  mutated : Bool
  branch : List UInt256

section Computation

-- `CHash256` over two hashes, the first written first
variable (hashPair : UInt256 → UInt256 → UInt256)
-- whether `pbranch` is not null
variable (pbranch : Bool)

/--
The `if (pbranch)` block at a level where the node `h` meets the subtree
`sibling`: the branch and `matchh` after it.
-/
def recordBranch (matchlevel : Int) (level : Nat) (sibling h : UInt256) (matchh : Bool)
    (branch : List UInt256) : List UInt256 × Bool :=
  if pbranch then
    if matchh then (branch ++ [sibling], matchh)
    else if matchlevel = level then (branch ++ [h], true)
    else (branch, matchh)
  else (branch, matchh)

/--
The loop `for (level = 0; !(count & (((uint32_t)1) << level)); level++)` of
one leaf, from `level` with `fuel` levels below 32 left: the level it stops
at, the node, `matchh`, `mutated` and the branch.
-/
def carryLevels (count : Nat) (inner : Nat → UInt256) (matchlevel : Int) :
    Nat → Nat → UInt256 → Bool → Bool → List UInt256 →
      Except MerkleFault (Nat × UInt256 × Bool × Bool × List UInt256)
  | 0, _, _, _, _, _ => throw .shiftOutOfRange
  | fuel + 1, level, h, matchh, mutated, branch =>
    if count &&& 1 <<< level = 0 then
      let (branch, matchh) := recordBranch pbranch matchlevel level (inner level) h matchh branch
      carryLevels count inner matchlevel fuel (level + 1) (hashPair (inner level) h) matchh
        (mutated || inner level == h) branch
    else pure (level, h, matchh, mutated, branch)

/-- One iteration of `while (count < leaves.size())`, for the leaf `h`; `branchpos` is the position of the branch. -/
def addLeaf (branchpos : Nat) (s : MerkleState) (h : UInt256) : Except MerkleFault MerkleState := do
  let matchh := s.count == branchpos
  let count := (s.count + 1) % 2 ^ 32
  let (level, h, matchh, mutated, branch) ←
    carryLevels hashPair pbranch count s.inner s.matchlevel 32 0 h matchh s.mutated s.branch
  pure ⟨count, Function.update s.inner level h, if matchh then level else s.matchlevel,
    mutated, branch⟩

/-- `while (!(count & (((uint32_t)1) << level))) level++`, from `level` with `fuel` levels below 32 left. -/
def lowestLevel (count : Nat) : Nat → Nat → Except MerkleFault Nat
  | 0, _ => throw .shiftOutOfRange
  | fuel + 1, level =>
    if count &&& 1 <<< level = 0 then lowestLevel count fuel (level + 1) else pure level

/--
The two loops of the final sweep, from `level` with `fuel` levels below 32
left.  At a level whose bit `count` lacks, one iteration of the inner loop:
the node meets `inner[level]`.  At a level whose bit it has, the test of the
outer loop: unless `count` is that bit alone, the node is not the top and is
paired with itself, and `count` grows by the bit.  The root and the branch.
-/
def sweepLevels (inner : Nat → UInt256) (matchlevel : Int) :
    Nat → Nat → Nat → UInt256 → Bool → List UInt256 →
      Except MerkleFault (UInt256 × List UInt256)
  | 0, _, _, _, _, _ => throw .shiftOutOfRange
  | fuel + 1, level, count, h, matchh, branch =>
    if count &&& 1 <<< level = 0 then
      let (branch, matchh) := recordBranch pbranch matchlevel level (inner level) h matchh branch
      sweepLevels inner matchlevel fuel (level + 1) count (hashPair (inner level) h) matchh branch
    else if count ≠ 1 <<< level then
      sweepLevels inner matchlevel fuel (level + 1) ((count + 1 <<< level) % 2 ^ 32)
        (hashPair h h) matchh (if pbranch && matchh then branch ++ [h] else branch)
    else pure (h, branch)

/-- The state before the first leaf: `inner` holds `uint256()` everywhere. -/
def MerkleState.initial : MerkleState :=
  ⟨0, fun _ => 0, -1, false, []⟩

@[simp] theorem MerkleState.initial_count : MerkleState.initial.count = 0 := rfl
@[simp] theorem MerkleState.initial_mutated : MerkleState.initial.mutated = false := rfl
@[simp] theorem MerkleState.initial_branch : MerkleState.initial.branch = [] := rfl

/--
`MerkleComputation`: the root, `mutated` and the branch of `branchpos`.
Without leaves the root is `uint256()`, `mutated` is false and the branch is
empty.
-/
def merkleComputation (branchpos : Nat) (leaves : List UInt256) :
    Except MerkleFault (UInt256 × Bool × List UInt256) :=
  if leaves = [] then pure (0, false, [])
  else do
    let s ← leaves.foldlM (addLeaf hashPair pbranch branchpos) MerkleState.initial
    let level ← lowestLevel s.count 32 0
    let (root, branch) ← sweepLevels hashPair pbranch s.inner s.matchlevel (32 - level) level
      s.count (s.inner level) (s.matchlevel == level) s.branch
    pure (root, s.mutated, branch)

end Computation

section Entry

variable (hashPair : UInt256 → UInt256 → UInt256)

/-- `ComputeMerkleRoot`: no branch, at position `-1` as a `uint32_t`. -/
def computeMerkleRoot (leaves : List UInt256) : Except MerkleFault (UInt256 × Bool) := do
  let (root, mutated, _) ← merkleComputation hashPair false 0xFFFFFFFF leaves
  pure (root, mutated)

/-- `ComputeMerkleBranch`. -/
def computeMerkleBranch (leaves : List UInt256) (position : Nat) :
    Except MerkleFault (List UInt256) := do
  let (_, _, branch) ← merkleComputation hashPair true position leaves
  pure branch

/-- `ComputeMerkleRootFromBranch`, with `nIndex` a `uint32_t`. -/
def computeMerkleRootFromBranch : UInt256 → List UInt256 → Nat → UInt256
  | hash, [], _ => hash
  | hash, it :: rest, nIndex =>
    computeMerkleRootFromBranch (if nIndex &&& 1 ≠ 0 then hashPair it hash else hashPair hash it)
      rest (nIndex >>> 1)

end Entry

/-! ## The counter in `inner` and `count` -/

/-- The slot of level `l`: `inner[l]` where `count` has bit `l`, marked where `matchlevel` is `l`. -/
def slotAt (count : Nat) (inner : Nat → UInt256) (matchlevel : Int) (l : Nat) : Slot UInt256 :=
  if count.testBit l then some (inner l, decide (matchlevel = l)) else none

/-- The `fuel` slots from level `level` up. -/
def slotsFrom (count : Nat) (inner : Nat → UInt256) (matchlevel : Int) :
    Nat → Nat → List (Slot UInt256)
  | 0, _ => []
  | fuel + 1, level =>
    slotAt count inner matchlevel level :: slotsFrom count inner matchlevel fuel (level + 1)

/-- Each subtree of `slots`, from level `level` up, is `inner` there, marked where `matchlevel` is. -/
def Agrees (inner : Nat → UInt256) (matchlevel : Int) : Nat → List (Slot UInt256) → Prop
  | _, [] => True
  | level, slot :: rest =>
    (∀ node ∈ slot, node = (inner level, decide (matchlevel = level))) ∧
      Agrees inner matchlevel (level + 1) rest

section Bits

variable {count : Nat} {inner : Nat → UInt256} {matchlevel : Int}

/-- The test `count & (((uint32_t)1) << level)` of the source, as a bit of `count`. -/
theorem and_one_shiftLeft_eq_zero (count level : Nat) :
    count &&& 1 <<< level = 0 ↔ count.testBit level = false := by
  rw [Nat.one_shiftLeft]
  constructor
  · intro cleared
    have bit := congrArg (fun n => n.testBit level) cleared
    simpa [Nat.testBit_and, Nat.testBit_two_pow_self] using bit
  · intro clear
    apply Nat.eq_of_testBit_eq
    intro i
    rw [Nat.testBit_and, Nat.testBit_two_pow, Nat.zero_testBit]
    by_cases same : level = i
    · subst same
      rw [clear, Bool.false_and]
    · rw [decide_eq_false same, Bool.and_false]

theorem testBit_two_pow_mul_self (level m : Nat) :
    (2 ^ level * m).testBit level = decide (m % 2 = 1) := by
  rw [Nat.testBit_two_pow_mul, Nat.sub_self, Nat.testBit_zero]
  simp

/-- Above the lowest bit set in `c + 1`, the bits of `c + 1` are those of `c`. -/
theorem testBit_succ_of_lt {c low above j : Nat} (lowest : c + 1 = 2 ^ low * (2 * above + 1))
    (higher : low < j) : (c + 1).testBit j = c.testBit j := by
  have split : 2 ^ (low + 1) = 2 ^ low * 2 := Nat.pow_succ 2 low
  have pos : 0 < 2 ^ low := Nat.two_pow_pos low
  have next : c + 1 = 2 ^ (low + 1) * above + 2 ^ low := by
    rw [lowest, split, Nat.mul_add, Nat.mul_one, Nat.mul_assoc]
  have prev : c = 2 ^ (low + 1) * above + (2 ^ low - 1) := by omega
  rw [next, Nat.testBit_two_pow_mul_add above (by omega) j, if_neg (by omega)]
  conv => rhs; rw [prev]
  rw [Nat.testBit_two_pow_mul_add above (by omega) j, if_neg (by omega)]

@[simp]
theorem length_slotsFrom : ∀ (fuel level : Nat), (slotsFrom count inner matchlevel fuel level).length = fuel
  | 0, _ => rfl
  | fuel + 1, level => by rw [slotsFrom, List.length_cons, length_slotsFrom fuel (level + 1)]

theorem isSome_slotAt (l : Nat) : (slotAt count inner matchlevel l).isSome = count.testBit l := by
  unfold slotAt
  cases count.testBit l <;> rfl

/-- The slots from `level` hold the bits of `count` from `level`. -/
theorem bitsOf_slotsFrom : ∀ (fuel level : Nat),
    bitsOf (slotsFrom count inner matchlevel fuel level) = count / 2 ^ level % 2 ^ fuel
  | 0, _ => by simp [slotsFrom, bitsOf, Nat.mod_one]
  | fuel + 1, level => by
    have low : count / 2 ^ level % 2 ^ (fuel + 1) =
        count / 2 ^ level % 2 + 2 * (count / 2 ^ level / 2 % 2 ^ fuel) := by
      rw [Nat.pow_succ', Nat.mod_mul]
    rw [slotsFrom, bitsOf, bitsOf_slotsFrom fuel (level + 1), isSome_slotAt,
      Nat.testBit_eq_decide_div_mod_eq, low, Nat.pow_succ, ← Nat.div_div_eq_div_mul]
    rcases Nat.mod_two_eq_zero_or_one (count / 2 ^ level) with zero | one
    · rw [zero]
      rfl
    · rw [one]
      rfl

theorem agrees_slotsFrom : ∀ (fuel level : Nat),
    Agrees inner matchlevel level (slotsFrom count inner matchlevel fuel level)
  | 0, _ => trivial
  | fuel + 1, level => by
    refine ⟨fun node member => ?_, agrees_slotsFrom fuel (level + 1)⟩
    unfold slotAt at member
    split at member
    · exact (Option.mem_some_iff.1 member).symm
    · cases member

/-- Two readings of the slots agree where every level they read does. -/
theorem slotsFrom_congr {count' : Nat} {inner' : Nat → UInt256} {matchlevel' : Int} :
    ∀ (fuel level : Nat),
    (∀ i < fuel, slotAt count' inner' matchlevel' (level + i) = slotAt count inner matchlevel (level + i)) →
    slotsFrom count' inner' matchlevel' fuel level = slotsFrom count inner matchlevel fuel level
  | 0, _, _ => rfl
  | fuel + 1, level, same => by
    rw [slotsFrom, slotsFrom, ← Nat.add_zero level, same 0 (Nat.succ_pos fuel), Nat.add_zero,
      slotsFrom_congr fuel (level + 1) fun i below => by
        rw [Nat.add_assoc, Nat.add_comm 1 i]
        exact same (i + 1) (by omega)]

/-- Above a level whose bit `count'` has alone, `count'` has the bits of the slots above. -/
theorem testBit_of_slotsFrom {c count' level fuel i : Nat} (below : i < fuel)
    (counted : count' = 2 ^ level * (2 * bitsOf (slotsFrom c inner matchlevel fuel (level + 1)) + 1)) :
    count'.testBit (level + 1 + i) = c.testBit (level + 1 + i) := by
  rw [counted, Nat.testBit_two_pow_mul, bitsOf_slotsFrom, decide_eq_true (by omega), Bool.true_and,
    show level + 1 + i - level = i + 1 by omega, Nat.testBit_succ,
    show (2 * (c / 2 ^ (level + 1) % 2 ^ fuel) + 1) / 2 = c / 2 ^ (level + 1) % 2 ^ fuel by omega,
    Nat.testBit_mod_two_pow, decide_eq_true below, Bool.true_and, Nat.testBit_div_two_pow,
    Nat.add_comm i]

end Bits

section Refinement

variable (hashPair : UInt256 → UInt256 → UInt256) (pbranch : Bool)

/-- With a branch asked for, or no leaf of the branch anywhere, the `if (pbranch)` block records the entry of `carry`. -/
theorem recordBranch_eq {matchlevel : Int} {matchh : Bool} (level : Nat) (sibling h : UInt256)
    (branch : List UInt256) (recorded : pbranch = true ∨ (matchh = false ∧ matchlevel = -1)) :
    recordBranch pbranch matchlevel level sibling h matchh branch =
      (branch ++ (if matchh then [sibling] else if decide (matchlevel = level) then [h] else []),
        matchh || decide (matchlevel = level)) := by
  rcases recorded with rfl | ⟨rfl, rfl⟩
  · cases matchh with
    | true => simp [recordBranch]
    | false =>
      by_cases here : matchlevel = level
      · simp [recordBranch, here]
      · simp [recordBranch, here]
  · have never : (-1 : Int) ≠ level := by omega
    simp [recordBranch, never]

/--
The loop over the levels of one leaf, from `level`, is a `carry` on the
slots from `level` of the count before the leaf.  `count'` is the count after
the leaf; below `level` its bits are clear, and from `level` up it is one more
than the slots hold.  The loop stops at the level `top` whose bit `count'` has
lowest, and the slots of the new state from `level` up are those of `carry`.
-/
theorem carryLevels_carry {c count' : Nat} {inner : Nat → UInt256} {matchlevel : Int}
    (fuel : Nat) : ∀ (level : Nat) (h : UInt256) (matchh mutated : Bool) (branch : List UInt256),
    level + fuel = 32 →
    count' = 2 ^ level * (bitsOf (slotsFrom c inner matchlevel fuel level) + 1) →
    none ∈ slotsFrom c inner matchlevel fuel level →
    (matchh = true → matchlevel < level) →
    (0 ≤ matchlevel → level ≤ matchlevel → c.testBit matchlevel.toNat) →
    (pbranch = true ∨ (matchh = false ∧ matchlevel = -1)) →
    ∃ top h' matchh',
      carryLevels hashPair pbranch count' inner matchlevel fuel level h matchh mutated branch =
        .ok (top, h', matchh',
          mutated || (carry hashPair h matchh (slotsFrom c inner matchlevel fuel level)).2.1,
          branch ++ (carry hashPair h matchh (slotsFrom c inner matchlevel fuel level)).2.2) ∧
      level ≤ top ∧ (∃ above, count' = 2 ^ top * (2 * above + 1)) ∧
      slotsFrom count' (Function.update inner top h') (if matchh' then top else matchlevel) fuel level =
        (carry hashPair h matchh (slotsFrom c inner matchlevel fuel level)).1 ∧
      (matchh' = true ↔ (matchh = true ∨ (level ≤ matchlevel ∧ matchlevel < top))) ∧
      (matchh' = false → matchlevel ≠ top) := by
  induction fuel with
  | zero =>
    intro level h matchh mutated branch _ _ hasNone
    cases hasNone
  | succ fuel ih =>
    intro level h matchh mutated branch sum counted hasNone below marked recorded
    cases bit : c.testBit level with
    | false =>
      have empty : slotAt c inner matchlevel level = none := by simp [slotAt, bit]
      rw [slotsFrom, empty] at counted
      simp only [bitsOf, Option.isSome_none, Bool.toNat_false, Nat.zero_add] at counted
      have set : count'.testBit level = true := by
        rw [counted, testBit_two_pow_mul_self]
        simp
      have notHere : matchlevel ≠ level := fun same => by
        have marks := marked (by omega) (by omega)
        rw [same, Int.toNat_natCast, bit] at marks
        cases marks
      refine ⟨level, h, matchh, ?_, Nat.le_refl level, ⟨_, counted⟩, ?_, ?_, fun _ => notHere⟩
      · rw [carryLevels, if_neg (by rw [and_one_shiftLeft_eq_zero, set]; simp), slotsFrom, empty, carry]
        simp only [Bool.or_false, List.append_nil]
        rfl
      · rw [slotsFrom, slotsFrom, empty, carry, slotAt, if_pos set]
        congr 1
        · cases matchh <;> simp [notHere]
        · apply slotsFrom_congr
          intro i inRange
          unfold slotAt
          rw [testBit_of_slotsFrom inRange counted]
          split
          · have other : level + 1 + i ≠ level := by omega
            rw [Function.update_of_ne other]
            congr 3
            cases matchh with
            | true =>
              have lower := below rfl
              simp only [if_true]
              apply propext
              constructor <;> intro same <;> omega
            | false => rfl
          · rfl
      · constructor
        · exact Or.inl
        · rintro (marks | ⟨_, _⟩)
          · exact marks
          · omega
    | true =>
      have full : slotAt c inner matchlevel level = some (inner level, decide (matchlevel = level)) := by
        simp [slotAt, bit]
      rw [slotsFrom, full] at counted hasNone
      simp only [bitsOf, Option.isSome_some, Bool.toNat_true] at counted
      have up : count' = 2 ^ (level + 1) * (bitsOf (slotsFrom c inner matchlevel fuel (level + 1)) + 1) := by
        rw [counted, Nat.pow_succ, Nat.mul_assoc]
        congr 1
        omega
      have clear : count'.testBit level = false := by
        rw [up, Nat.testBit_two_pow_mul, decide_eq_false (by omega), Bool.false_and]
      have restNone : none ∈ slotsFrom c inner matchlevel fuel (level + 1) := by
        rcases List.mem_cons.1 hasNone with head | rest
        · cases head
        · exact rest
      have recordedUp : pbranch = true ∨
          ((matchh || decide (matchlevel = level)) = false ∧ matchlevel = -1) := by
        rcases recorded with asked | ⟨rfl, rfl⟩
        · exact Or.inl asked
        · exact Or.inr ⟨by simp, rfl⟩
      obtain ⟨top, h', matchh', run, above, counted', slots', carried, notTop⟩ :=
        ih (level + 1) (hashPair (inner level) h) (matchh || decide (matchlevel = level))
          (mutated || inner level == h)
          (branch ++ (if matchh then [inner level] else if decide (matchlevel = level) then [h] else []))
          (by omega) up restNone
          (by
            intro marks
            rcases Bool.or_eq_true_iff.1 marks with here | here
            · have := below here
              omega
            · have := of_decide_eq_true here
              omega)
          (fun nonneg above => marked nonneg (by omega)) recordedUp
      refine ⟨top, h', matchh', ?_, by omega, counted', ?_, ?_, notTop⟩
      · rw [carryLevels, if_pos ((and_one_shiftLeft_eq_zero _ _).2 clear),
          recordBranch_eq pbranch level _ _ _ recorded]
        simp only []
        rw [run, slotsFrom, full, carry]
        simp only [Bool.beq_eq_decide_eq, Bool.or_assoc, List.append_assoc]
      · rw [slotsFrom, slotsFrom, full, carry, slots', slotAt, if_neg (by rw [clear]; simp)]
      · rw [carried, Bool.or_eq_true_iff, decide_eq_true_iff]
        constructor
        · rintro ((marks | here) | ⟨low, high⟩)
          · exact Or.inl marks
          · exact Or.inr ⟨by omega, by omega⟩
          · exact Or.inr ⟨by omega, high⟩
        · rintro (marks | ⟨low, high⟩)
          · exact Or.inl (Or.inl marks)
          · by_cases here : matchlevel = level
            · exact Or.inl (Or.inr here)
            · exact Or.inr ⟨by omega, high⟩

/--
What the main loop keeps, for the branch of `branchpos`: the state holds
`slots` and counts the subtrees they hold, and `matchlevel`, where set, is a
level with a subtree and the leaf of the branch has been read.  Without a
branch asked for, `matchlevel` stays unset.
-/
structure Represents (branchpos : Nat) (s : MerkleState) (slots : List (Slot UInt256)) : Prop where
  slots_eq : slotsFrom s.count s.inner s.matchlevel 32 0 = slots
  count_eq : s.count = bitsOf slots
  matched : 0 ≤ s.matchlevel → branchpos < s.count ∧ s.count.testBit s.matchlevel.toNat
  unrecorded : pbranch = false → s.matchlevel = -1

theorem slotsFrom_zero (inner : Nat → UInt256) (matchlevel : Int) :
    ∀ fuel level, slotsFrom 0 inner matchlevel fuel level = List.replicate fuel none
  | 0, _ => rfl
  | fuel + 1, level => by
    rw [slotsFrom, slotsFrom_zero inner matchlevel fuel (level + 1), List.replicate_succ, slotAt,
      Nat.zero_testBit]
    rfl

theorem represents_initial (branchpos : Nat) :
    Represents pbranch branchpos MerkleState.initial (List.replicate 32 none) where
  slots_eq := slotsFrom_zero _ _ 32 0
  count_eq := ((bitsOf_eq_zero_iff _).2 (by simp)).symm
  matched := fun nonneg => absurd nonneg (by decide)
  unrecorded := fun _ => rfl

/-- One leaf of the main loop is one `carry` on the slots, while the count stays below `2 ^ 32`. -/
theorem addLeaf_carry {branchpos : Nat} {s : MerkleState} {slots : List (Slot UInt256)}
    (holds : Represents pbranch branchpos s slots) (room : s.count + 1 < 2 ^ 32)
    (unmatched : pbranch = false → s.count ≠ branchpos) (h : UInt256) :
    ∃ s', addLeaf hashPair pbranch branchpos s h = .ok s' ∧
      Represents pbranch branchpos s' (carry hashPair h (s.count == branchpos) slots).1 ∧
      s'.count = s.count + 1 ∧
      s'.mutated = (s.mutated || (carry hashPair h (s.count == branchpos) slots).2.1) ∧
      s'.branch = s.branch ++ (carry hashPair h (s.count == branchpos) slots).2.2 := by
  obtain ⟨slots_eq, count_eq, matched, unrecorded⟩ := holds
  have length : slots.length = 32 := by rw [← slots_eq, length_slotsFrom]
  have hasNone : none ∈ slots := by
    by_contra missing
    have full := bitsOf_of_full slots fun slot member => by
      cases slot with
      | none => exact absurd member missing
      | some _ => rfl
    rw [length, ← count_eq] at full
    omega
  have notMatched : (s.count == branchpos) = true → s.matchlevel < 0 := by
    intro same
    by_contra nonneg
    have before := (matched (by omega)).1
    rw [beq_iff_eq] at same
    omega
  have recorded : pbranch = true ∨ ((s.count == branchpos) = false ∧ s.matchlevel = -1) := by
    cases asked : pbranch with
    | true => exact Or.inl rfl
    | false => exact Or.inr ⟨by simpa using unmatched asked, unrecorded asked⟩
  obtain ⟨top, h', matchh', run, -, ⟨above, counted⟩, slotsNew, carried, notTop⟩ :=
    @carryLevels_carry hashPair pbranch s.count (s.count + 1) s.inner s.matchlevel 32 0 h
      (s.count == branchpos) s.mutated s.branch rfl
      (by rw [Nat.pow_zero, Nat.one_mul, slots_eq, ← count_eq]) (slots_eq ▸ hasNone)
      (fun same => by have := notMatched same; omega) (fun nonneg _ => (matched nonneg).2) recorded
  rw [slots_eq] at run slotsNew
  refine ⟨⟨s.count + 1, Function.update s.inner top h', if matchh' then top else s.matchlevel,
    _, _⟩, ?_, ⟨slotsNew, ?_, ?_, ?_⟩, rfl, rfl, rfl⟩
  · simp only [addLeaf, Nat.mod_eq_of_lt room, run]
    rfl
  · rw [bitsOf_carry, ← count_eq]
  · intro nonneg
    dsimp only at nonneg ⊢
    cases matchh' with
    | true =>
      rw [if_pos rfl, Int.toNat_natCast, counted, testBit_two_pow_mul_self]
      refine ⟨?_, by simp⟩
      rcases carried.1 rfl with same | ⟨low, _⟩
      · rw [beq_iff_eq] at same
        omega
      · have before := (matched low).1
        omega
    | false =>
      rw [if_neg Bool.false_ne_true] at nonneg ⊢
      have higher : top < s.matchlevel.toNat := by
        have notBelow : ¬(0 ≤ s.matchlevel ∧ s.matchlevel < top) := fun below =>
          Bool.false_ne_true (carried.2 (Or.inr below))
        have other := notTop rfl
        omega
      refine ⟨by have := (matched nonneg).1; omega, ?_⟩
      rw [testBit_succ_of_lt (counted) higher]
      exact (matched nonneg).2
  · intro asked
    dsimp only
    have unmarked : matchh' = false := by
      rcases recorded with never | ⟨notHere, unset⟩
      · rw [asked] at never
        cases never
      · cases marks : matchh' with
        | false => rfl
        | true =>
          rcases carried.1 marks with same | ⟨low, _⟩
          · rw [notHere] at same
            cases same
          · rw [unset] at low
            omega
    subst unmarked
    rw [if_neg Bool.false_ne_true]
    exact unrecorded asked

/-- The main loop over `leaves` is `run` on the slots, while the count stays below `2 ^ 32`. -/
theorem foldlM_addLeaf_run {branchpos : Nat} (leaves : List UInt256) :
    ∀ (s : MerkleState) (slots : List (Slot UInt256)),
    Represents pbranch branchpos s slots → s.count + leaves.length < 2 ^ 32 →
    (pbranch = false → branchpos < s.count ∨ s.count + leaves.length ≤ branchpos) →
    ∃ s', leaves.foldlM (addLeaf hashPair pbranch branchpos) s = .ok s' ∧
      Represents pbranch branchpos s' (run hashPair branchpos slots leaves s.count).1 ∧
      s'.count = s.count + leaves.length ∧
      s'.mutated = (s.mutated || (run hashPair branchpos slots leaves s.count).2.1) ∧
      s'.branch = s.branch ++ (run hashPair branchpos slots leaves s.count).2.2 := by
  induction leaves with
  | nil =>
    intro s slots holds _ _
    exact ⟨s, rfl, holds, rfl, by simp [run], by simp [run]⟩
  | cons h rest ih =>
    intro s slots holds room unmatched
    rw [List.length_cons] at room unmatched
    obtain ⟨next, step, holdsNext, countNext, mutatedNext, branchNext⟩ :=
      addLeaf_carry hashPair pbranch holds (by omega) (fun asked => by have := unmatched asked; omega) h
    obtain ⟨last, steps, holdsLast, countLast, mutatedLast, branchLast⟩ :=
      ih next _ holdsNext (by omega) (fun asked => by have := unmatched asked; omega)
    rw [countNext] at holdsLast countLast mutatedLast branchLast
    refine ⟨last, ?_, holdsLast, by rw [countLast, List.length_cons]; omega, ?_, ?_⟩
    · rw [List.foldlM_cons, step]
      exact steps
    · rw [mutatedLast, mutatedNext, run, Bool.or_assoc]
    · rw [branchLast, branchNext, run, List.append_assoc]

/-- A count of at most `2 ^ 31` from `level` up: the next power of two is no more. -/
theorem carry_le_of_le {level above : Nat} (nonzero : above ≠ 0)
    (bounded : 2 ^ level * (2 * above + 1) ≤ 2 ^ 31) : 2 ^ (level + 1) * (above + 1) ≤ 2 ^ 31 := by
  have lower : level < 31 := by
    by_contra top
    have : 2 ^ 31 ≤ 2 ^ level := Nat.pow_le_pow_right (by decide) (by omega)
    have : 2 ^ level * 3 ≤ 2 ^ level * (2 * above + 1) := Nat.mul_le_mul_left _ (by omega)
    omega
  have split : 2 ^ 31 = 2 ^ level * (2 * 2 ^ (30 - level)) := by
    rw [← Nat.pow_succ', ← Nat.pow_add]
    congr 1
    omega
  rw [split] at bounded
  have factor := Nat.le_of_mul_le_mul_left bounded (Nat.two_pow_pos level)
  rw [split, Nat.pow_succ, Nat.mul_assoc]
  exact Nat.mul_le_mul_left _ (by omega)

/--
While the count stays at or below `2 ^ 31`, the sweep from `level` is `climb`
on the slots from `level`.  Where the slots hold a subtree the bit of the
count is clear and the node meets the subtree; where they do not, the bit is
set, and the count is that bit alone exactly when no subtree is left above.
-/
theorem sweepLevels_climb {inner : Nat → UInt256} {matchlevel : Int} (fuel : Nat) :
    ∀ (level : Nat) (rest : List (Slot UInt256)) (count : Nat) (h : UInt256) (matchh : Bool)
      (branch : List UInt256),
    level + fuel = 32 → rest.length = fuel → Agrees inner matchlevel level rest →
    count = 2 ^ level * (bitsOf rest + 1) → count ≤ 2 ^ 31 →
    (pbranch = true ∨ (matchh = false ∧ matchlevel = -1)) →
    sweepLevels hashPair pbranch inner matchlevel fuel level count h matchh branch =
      .ok ((climb hashPair h matchh rest).1, branch ++ (climb hashPair h matchh rest).2) := by
  induction fuel with
  | zero =>
    intro level rest count h matchh branch sum _ _ counted bounded
    subst counted
    have : 2 ^ 31 < 2 ^ level := Nat.pow_lt_pow_right (by decide) (by omega)
    have : 2 ^ level ≤ 2 ^ level * (bitsOf rest + 1) := Nat.le_mul_of_pos_right _ (by omega)
    omega
  | succ fuel ih =>
    intro level rest count h matchh branch sum length agrees counted bounded recorded
    subst counted
    obtain ⟨slot, more, rfl⟩ := List.exists_cons_of_length_eq_add_one length
    rw [List.length_cons, Nat.add_right_cancel_iff] at length
    obtain ⟨here, above⟩ := agrees
    cases slot with
    | some node =>
      obtain rfl := here node rfl
      have count : 2 ^ level * (bitsOf (some (inner level, decide (matchlevel = level)) :: more) + 1) =
          2 ^ (level + 1) * (bitsOf more + 1) := by
        rw [bitsOf, Option.isSome_some, Bool.toNat_true, Nat.pow_succ, Nat.mul_assoc]
        congr 1
        omega
      have clear : (2 ^ (level + 1) * (bitsOf more + 1)).testBit level = false := by
        rw [Nat.testBit_two_pow_mul, decide_eq_false (by omega), Bool.false_and]
      have recordedUp : pbranch = true ∨
          ((matchh || decide (matchlevel = level)) = false ∧ matchlevel = -1) := by
        rcases recorded with asked | ⟨rfl, rfl⟩
        · exact Or.inl asked
        · exact Or.inr ⟨by simp, rfl⟩
      rw [count, sweepLevels, if_pos ((and_one_shiftLeft_eq_zero _ _).2 clear),
        recordBranch_eq pbranch level _ _ _ recorded]
      simp only []
      rw [ih (level + 1) more _ _ _ _ (by omega) length above rfl (count ▸ bounded) recordedUp, climb]
      simp only [List.append_assoc]
    | none =>
      have count : 2 ^ level * (bitsOf (none :: more) + 1) = 2 ^ level * (2 * bitsOf more + 1) := by
        rw [bitsOf, Option.isSome_none, Bool.toNat_false, Nat.zero_add]
      have set : (2 ^ level * (2 * bitsOf more + 1)).testBit level = true := by
        rw [testBit_two_pow_mul_self]
        simp
      rw [count, sweepLevels, if_neg (by rw [and_one_shiftLeft_eq_zero, set]; simp), Nat.one_shiftLeft]
      by_cases empty : bitsOf more = 0
      · have none := (bitsOf_eq_zero_iff more).1 empty
        rw [empty, if_neg (by simp), climb, if_neg (by rw [none]; simp), List.append_nil]
        rfl
      · have some : more.any Option.isSome = true := by
          cases any : more.any Option.isSome with
          | true => rfl
          | false => exact absurd ((bitsOf_eq_zero_iff more).2 any) empty
        have alone : 2 ^ level * (2 * bitsOf more + 1) ≠ 2 ^ level := by
          intro same
          have := Nat.eq_of_mul_eq_mul_left (Nat.two_pow_pos level) (same.trans (Nat.mul_one _).symm)
          omega
        have up := carry_le_of_le empty (count ▸ bounded)
        have next : (2 ^ level * (2 * bitsOf more + 1) + 2 ^ level) % 2 ^ 32 =
            2 ^ (level + 1) * (bitsOf more + 1) := by
          have doubled : 2 ^ level * (2 * bitsOf more + 1) + 2 ^ level =
              2 ^ (level + 1) * (bitsOf more + 1) := by
            rw [← Nat.mul_succ, Nat.pow_succ, Nat.mul_assoc]
            congr 1
          have : 2 ^ 31 < 2 ^ 32 := by decide
          rw [doubled, Nat.mod_eq_of_lt (by omega)]
        rw [if_pos alone, next, ih (level + 1) more _ _ _ _ (by omega) length above rfl up recorded, climb,
          if_pos some]
        rcases recorded with asked | ⟨rfl, -⟩
        · rw [asked]
          cases matchh <;> simp
        · simp

/--
Once the count passes `2 ^ 31`, the sweep from `level` adds it up to
`2 ^ 32`, which wraps to zero as a `uint32_t`; its inner loop then climbs
past level 31 and shifts by 32.
-/
theorem sweepLevels_wraps {inner : Nat → UInt256} {matchlevel : Int} (fuel : Nat) :
    ∀ (level : Nat) (rest : List (Slot UInt256)) (h : UInt256) (matchh : Bool)
      (branch : List UInt256),
    level + fuel = 32 → rest.length = fuel → 2 ^ 31 < 2 ^ level * (bitsOf rest + 1) →
    sweepLevels hashPair pbranch inner matchlevel fuel level (2 ^ level * (bitsOf rest + 1) % 2 ^ 32)
        h matchh branch =
      .error .shiftOutOfRange := by
  induction fuel with
  | zero =>
    intro level rest h matchh branch _ _ _
    rfl
  | succ fuel ih =>
    intro level rest h matchh branch sum length beyond
    obtain ⟨slot, more, rfl⟩ := List.exists_cons_of_length_eq_add_one length
    rw [List.length_cons, Nat.add_right_cancel_iff] at length
    cases slot with
    | some node =>
      have count : 2 ^ level * (bitsOf (some node :: more) + 1) = 2 ^ (level + 1) * (bitsOf more + 1) := by
        rw [bitsOf, Option.isSome_some, Bool.toNat_true, Nat.pow_succ, Nat.mul_assoc]
        congr 1
        omega
      have clear : (2 ^ (level + 1) * (bitsOf more + 1) % 2 ^ 32).testBit level = false := by
        rw [Nat.testBit_mod_two_pow, Nat.testBit_two_pow_mul,
          decide_eq_false (show ¬level ≥ level + 1 by omega), Bool.false_and, Bool.and_false]
      rw [count, sweepLevels, if_pos ((and_one_shiftLeft_eq_zero _ _).2 clear)]
      exact ih (level + 1) more _ _ _ (by omega) length (count ▸ beyond)
    | none =>
      have count : 2 ^ level * (bitsOf (none :: more) + 1) = 2 ^ level * (2 * bitsOf more + 1) := by
        rw [bitsOf, Option.isSome_none, Bool.toNat_false, Nat.zero_add]
      have fits : 2 ^ level * (2 * bitsOf more + 1) < 2 ^ 32 := by
        have room := bitsOf_lt more
        have split : 2 ^ 32 = 2 ^ level * (2 * 2 ^ fuel) := by
          rw [← Nat.pow_succ', ← Nat.pow_add]
          congr 1
          omega
        rw [split, length] at *
        exact Nat.mul_lt_mul_of_pos_left (by omega) (Nat.two_pow_pos level)
      have set : (2 ^ level * (2 * bitsOf more + 1)).testBit level = true := by
        rw [testBit_two_pow_mul_self]
        simp
      have alone : 2 ^ level * (2 * bitsOf more + 1) ≠ 2 ^ level := by
        have : 2 ^ level ≤ 2 ^ 31 := Nat.pow_le_pow_right (by decide) (by omega)
        omega
      have doubled : 2 ^ level * (2 * bitsOf more + 1) + 2 ^ level =
          2 ^ (level + 1) * (bitsOf more + 1) := by
        rw [← Nat.mul_succ, Nat.pow_succ, Nat.mul_assoc]
        congr 1
      rw [count, Nat.mod_eq_of_lt fits, sweepLevels,
        if_neg (by rw [and_one_shiftLeft_eq_zero, set]; simp), Nat.one_shiftLeft, if_pos alone, doubled]
      rw [count] at beyond
      have pos := Nat.two_pow_pos level
      exact ih (level + 1) more _ _ _ (by omega) length (by omega)

/-- The first loop of the sweep stops at the lowest level with a subtree, where `sweep` starts. -/
theorem lowestLevel_sweep {c : Nat} {inner : Nat → UInt256} {matchlevel : Int} (fuel : Nat) :
    ∀ level, level + fuel = 32 → (slotsFrom c inner matchlevel fuel level).any Option.isSome = true →
    ∃ low, lowestLevel c fuel level = .ok low ∧ level ≤ low ∧ low < 32 ∧ c.testBit low = true ∧
      (∀ j, level ≤ j → j < low → c.testBit j = false) ∧
      sweep hashPair (slotsFrom c inner matchlevel fuel level) =
        some (climb hashPair (inner low) (decide (matchlevel = low))
          (none :: slotsFrom c inner matchlevel (31 - low) (low + 1))) := by
  induction fuel with
  | zero =>
    intro level _ some
    cases some
  | succ fuel ih =>
    intro level sum some
    cases bit : c.testBit level with
    | true =>
      refine ⟨level, ?_, Nat.le_refl level, by omega, bit, fun j low high => by omega, ?_⟩
      · rw [lowestLevel, if_neg (by rw [and_one_shiftLeft_eq_zero, bit]; simp)]
        rfl
      · rw [slotsFrom, slotAt, if_pos bit, sweep, show 31 - level = fuel by omega]
    | false =>
      have empty : slotAt c inner matchlevel level = none := by simp [slotAt, bit]
      rw [slotsFrom, empty, List.any_cons, Option.isSome_none, Bool.false_or] at some
      obtain ⟨low, stops, above, top, set, clear, swept⟩ := ih (level + 1) (by omega) some
      refine ⟨low, ?_, by omega, top, set, fun j low' high => ?_, ?_⟩
      · rw [lowestLevel, if_pos ((and_one_shiftLeft_eq_zero _ _).2 bit)]
        exact stops
      · by_cases here : j = level
        · rw [here]
          exact bit
        · exact clear j (by omega) high
      · rw [slotsFrom, empty, sweep]
        exact swept

/-- A count below `2 ^ 32` whose lowest bit is `low`, as the sweep reads it from level `low`. -/
theorem eq_of_lowest {c low : Nat} {inner : Nat → UInt256} {matchlevel : Int} (small : c < 2 ^ 32)
    (top : low < 32) (set : c.testBit low = true) (clear : ∀ j, j < low → c.testBit j = false) :
    c = 2 ^ low * (bitsOf ((none : Slot UInt256) :: slotsFrom c inner matchlevel (31 - low) (low + 1)) + 1) := by
  rw [bitsOf, Option.isSome_none, Bool.toNat_false, Nat.zero_add, bitsOf_slotsFrom]
  apply Nat.eq_of_testBit_eq
  intro j
  rw [Nat.testBit_two_pow_mul]
  rcases Nat.lt_trichotomy j low with below | rfl | higher
  · rw [clear j below, decide_eq_false (by omega), Bool.false_and]
  · rw [set, Nat.sub_self, Nat.testBit_zero]
    simp
  · rw [decide_eq_true (by omega), Bool.true_and, show j - low = (j - low - 1) + 1 by omega,
      Nat.testBit_succ,
      show (2 * (c / 2 ^ (low + 1) % 2 ^ (31 - low)) + 1) / 2 = c / 2 ^ (low + 1) % 2 ^ (31 - low) by omega,
      Nat.testBit_mod_two_pow, Nat.testBit_div_two_pow, show j - low - 1 + (low + 1) = j by omega]
    by_cases inside : j < 32
    · rw [decide_eq_true (by omega), Bool.true_and]
    · rw [decide_eq_false (by omega), Bool.false_and]
      exact Nat.testBit_lt_two_pow (lt_of_lt_of_le small (Nat.pow_le_pow_right (by decide) (by omega)))

/-- The main loop and the first loop of the sweep, on a nonempty list of fewer than `2 ^ 32` leaves. -/
theorem merkleComputation_start (branchpos : Nat) (leaves : List UInt256) (nonempty : leaves ≠ [])
    (fits : leaves.length < 2 ^ 32) (recorded : pbranch = true ∨ leaves.length ≤ branchpos) :
    ∃ s low, leaves.foldlM (addLeaf hashPair pbranch branchpos) MerkleState.initial = .ok s ∧
      lowestLevel s.count 32 0 = .ok low ∧ low < 32 ∧ s.count = leaves.length ∧
      s.mutated = completeMutated hashPair leaves ∧
      s.branch = levelBranch hashPair branchpos 32 leaves ∧
      (pbranch = false → s.matchlevel = -1) ∧
      s.count = 2 ^ low * (bitsOf ((none : Slot UInt256) ::
        slotsFrom s.count s.inner s.matchlevel (31 - low) (low + 1)) + 1) ∧
      sweep hashPair (levelSlots hashPair branchpos 32 leaves) =
        some (climb hashPair (s.inner low) (decide (s.matchlevel = low))
          (none :: slotsFrom s.count s.inner s.matchlevel (31 - low) (low + 1))) := by
  obtain ⟨s, folded, holds, counted, mutated, branch⟩ :=
    foldlM_addLeaf_run hashPair pbranch leaves MerkleState.initial _ (represents_initial pbranch branchpos)
      (by rw [MerkleState.initial_count]; omega)
      (fun asked => by
        rcases recorded with never | bound
        · rw [asked] at never
          cases never
        · exact Or.inr (by rw [MerkleState.initial_count]; omega))
  rw [MerkleState.initial_count, Nat.zero_add] at counted
  rw [MerkleState.initial_count, run_fresh hashPair branchpos 32 leaves fits] at holds mutated branch
  rw [MerkleState.initial_mutated] at mutated
  rw [MerkleState.initial_branch] at branch
  dsimp only at holds mutated branch
  have occupied := any_levelSlots hashPair branchpos 32 leaves nonempty fits
  rw [← holds.slots_eq] at occupied
  obtain ⟨low, stops, -, top, set, clear, swept⟩ := lowestLevel_sweep hashPair 32 0 rfl occupied
  rw [holds.slots_eq] at swept
  refine ⟨s, low, folded, stops, top, counted, by rw [mutated, Bool.false_or],
    by rw [branch, List.nil_append], holds.unrecorded, ?_, swept⟩
  exact eq_of_lowest (by omega) top set fun j below => clear j (Nat.zero_le j) below

/--
`MerkleComputation` on at most `2 ^ 31` leaves: the root of the sweep over
the slots the leaves leave, the mutation of their complete subtrees, and the
branch entries found while reading the leaves and while sweeping.
-/
theorem merkleComputation_sweep (branchpos : Nat) (leaves : List UInt256) (nonempty : leaves ≠ [])
    (small : leaves.length ≤ 2 ^ 31) (recorded : pbranch = true ∨ leaves.length ≤ branchpos) :
    ∃ root rest, sweep hashPair (levelSlots hashPair branchpos 32 leaves) = some (root, rest) ∧
      merkleComputation hashPair pbranch branchpos leaves =
        .ok (root, completeMutated hashPair leaves, levelBranch hashPair branchpos 32 leaves ++ rest) := by
  have bound : (2 : Nat) ^ 31 < 2 ^ 32 := by decide
  obtain ⟨s, low, folded, stops, top, counted, mutated, branch, unrecorded, count, swept⟩ :=
    merkleComputation_start hashPair pbranch branchpos leaves nonempty (by omega) recorded
  have flag : pbranch = true ∨ (decide (s.matchlevel = low) = false ∧ s.matchlevel = -1) := by
    cases asked : pbranch with
    | true => exact Or.inl rfl
    | false =>
      have unset := unrecorded asked
      refine Or.inr ⟨?_, unset⟩
      rw [unset]
      exact decide_eq_false (by omega)
  have climbed := sweepLevels_climb hashPair pbranch (32 - low) low
    (none :: slotsFrom s.count s.inner s.matchlevel (31 - low) (low + 1)) s.count (s.inner low)
    (decide (s.matchlevel = low)) s.branch (by omega) (by rw [List.length_cons, length_slotsFrom]; omega)
    ⟨(fun _ member => by cases member), agrees_slotsFrom _ _⟩ count (by omega) flag
  refine ⟨_, _, swept, ?_⟩
  rw [merkleComputation, if_neg nonempty, folded, ok_bind, stops, ok_bind, Bool.beq_eq_decide_eq,
    climbed, ok_bind, mutated, branch]
  rfl

/-- `MerkleComputation` on more than `2 ^ 31` and fewer than `2 ^ 32` leaves shifts by 32 in its sweep. -/
theorem merkleComputation_wraps (branchpos : Nat) (leaves : List UInt256) (large : 2 ^ 31 < leaves.length)
    (fits : leaves.length < 2 ^ 32) (recorded : pbranch = true ∨ leaves.length ≤ branchpos) :
    merkleComputation hashPair pbranch branchpos leaves = .error .shiftOutOfRange := by
  have nonempty : leaves ≠ [] := fun empty => by
    rw [empty, List.length_nil] at large
    omega
  obtain ⟨s, low, folded, stops, top, counted, -, -, -, count, -⟩ :=
    merkleComputation_start hashPair pbranch branchpos leaves nonempty fits recorded
  have wrapped := @sweepLevels_wraps hashPair pbranch s.inner s.matchlevel (32 - low) low
    (none :: slotsFrom s.count s.inner s.matchlevel (31 - low) (low + 1)) (s.inner low)
    (s.matchlevel == low) s.branch (by omega) (by rw [List.length_cons, length_slotsFrom]; omega)
    (by rw [← count]; omega)
  rw [← count, Nat.mod_eq_of_lt (by omega)] at wrapped
  rw [merkleComputation, if_neg nonempty, folded, ok_bind, stops, ok_bind, wrapped]
  rfl

end Refinement

/-! ## The entry points against the level-by-level tree -/

section Levels

variable (hashPair : UInt256 → UInt256 → UInt256)

/-- `ComputeMerkleRootFromBranch` is `rootFromBranch`: `nIndex & 1` is the low bit, and `nIndex >>= 1` halves it. -/
theorem computeMerkleRootFromBranch_eq : ∀ (hash : UInt256) (branch : List UInt256) (nIndex : Nat),
    computeMerkleRootFromBranch hashPair hash branch nIndex = rootFromBranch hashPair hash branch nIndex
  | _, [], _ => rfl
  | hash, it :: rest, nIndex => by
    have odd : nIndex % 2 ≠ 0 ↔ nIndex % 2 = 1 := by omega
    rw [computeMerkleRootFromBranch, rootFromBranch, Nat.and_one_is_mod, Nat.shiftRight_eq_div_pow,
      Nat.pow_one, computeMerkleRootFromBranch_eq _ rest (nIndex / 2)]
    simp only [odd]

/-- `ComputeMerkleRoot` on at most `2 ^ 31` leaves: the level-by-level root, and two equal complete subtrees. -/
theorem computeMerkleRoot_eq (leaves : List UInt256) (nonempty : leaves ≠ [])
    (small : leaves.length ≤ 2 ^ 31) :
    ∃ root, merkleRoot hashPair leaves = some root ∧
      computeMerkleRoot hashPair leaves = .ok (root, completeMutated hashPair leaves) := by
  have bound : (2 : Nat) ^ 31 < 2 ^ 32 := by decide
  obtain ⟨root, rest, swept, computed⟩ :=
    merkleComputation_sweep hashPair false 0xFFFFFFFF leaves nonempty small (Or.inr (by omega))
  refine ⟨root, ?_, ?_⟩
  · rw [← sweep_levelSlots_root hashPair 32 0xFFFFFFFF leaves (by omega), swept]
    rfl
  · rw [computeMerkleRoot, computed, ok_bind]
    rfl

/-- `ComputeMerkleBranch` on at most `2 ^ 31` leaves: the level-by-level branch of every position. -/
theorem computeMerkleBranch_eq (leaves : List UInt256) (small : leaves.length ≤ 2 ^ 31)
    (position : Nat) (inRange : position < leaves.length) :
    computeMerkleBranch hashPair leaves position = .ok (merkleBranch hashPair leaves position) := by
  have bound : (2 : Nat) ^ 31 < 2 ^ 32 := by decide
  have nonempty : leaves ≠ [] := List.ne_nil_of_length_pos (by omega)
  obtain ⟨root, rest, swept, computed⟩ :=
    merkleComputation_sweep hashPair true position leaves nonempty small (Or.inl rfl)
  have branch := sweep_levelSlots_branch hashPair 32 position leaves (by omega) inRange
  rw [swept, Option.map_some] at branch
  rw [computeMerkleBranch, computed, ok_bind, ← Option.some.inj branch]
  rfl

theorem computeMerkleRoot_wraps (leaves : List UInt256) (large : 2 ^ 31 < leaves.length)
    (fits : leaves.length < 2 ^ 32) :
    computeMerkleRoot hashPair leaves = .error .shiftOutOfRange := by
  rw [computeMerkleRoot, merkleComputation_wraps hashPair false 0xFFFFFFFF leaves large fits
    (Or.inr (by omega)), error_bind]

theorem computeMerkleBranch_wraps (leaves : List UInt256) (large : 2 ^ 31 < leaves.length)
    (fits : leaves.length < 2 ^ 32) (position : Nat) :
    computeMerkleBranch hashPair leaves position = .error .shiftOutOfRange := by
  rw [computeMerkleBranch, merkleComputation_wraps hashPair true position leaves large fits (Or.inl rfl),
    error_bind]

/--
On at most `2 ^ 31` leaves `MerkleComputation` agrees with the level-by-level
tree: `ComputeMerkleRoot` returns its root and flags two equal complete
subtrees side by side, `ComputeMerkleBranch` returns the level-by-level
branch of every position, and `ComputeMerkleRootFromBranch` leads from each
leaf along its branch to the root.  On more than `2 ^ 31` and fewer than
`2 ^ 32` leaves both shift by 32.
-/
theorem merkleComputation_levels (leaves : List UInt256) (nonempty : leaves ≠ []) :
    (leaves.length ≤ 2 ^ 31 →
      ∃ root, merkleRoot hashPair leaves = some root ∧
        computeMerkleRoot hashPair leaves = .ok (root, completeMutated hashPair leaves) ∧
        ∀ i (inRange : i < leaves.length),
          computeMerkleBranch hashPair leaves i = .ok (merkleBranch hashPair leaves i) ∧
          computeMerkleRootFromBranch hashPair leaves[i] (merkleBranch hashPair leaves i) i = root) ∧
    (2 ^ 31 < leaves.length → leaves.length < 2 ^ 32 →
      computeMerkleRoot hashPair leaves = .error .shiftOutOfRange ∧
      ∀ i, computeMerkleBranch hashPair leaves i = .error .shiftOutOfRange) := by
  refine ⟨fun small => ?_, fun large fits =>
    ⟨computeMerkleRoot_wraps hashPair leaves large fits, computeMerkleBranch_wraps hashPair leaves large fits⟩⟩
  obtain ⟨root, top, computed⟩ := computeMerkleRoot_eq hashPair leaves nonempty small
  refine ⟨root, top, computed, fun i inRange => ⟨computeMerkleBranch_eq hashPair leaves small i inRange, ?_⟩⟩
  have climbs := rootFromBranch_merkleBranch hashPair leaves i leaves[i] (List.getElem?_eq_getElem inRange)
  rw [top] at climbs
  rw [computeMerkleRootFromBranch_eq]
  exact (Option.some.inj climbs).symm

theorem merkleComputation_levels_three :
    ([1, 2, 3] : List UInt256) ≠ [] ∧ ([1, 2, 3] : List UInt256).length ≤ 2 ^ 31 ∧
      computeMerkleRoot (fun a b => a + 2 * b) [1, 2, 3] = .ok (23, false) := by
  obtain ⟨root, top, computed, -⟩ :=
    (merkleComputation_levels (fun a b => a + 2 * b) [1, 2, 3] (by decide)).1 (by decide)
  have levels : merkleRoot (fun a b : UInt256 => a + 2 * b) [1, 2, 3] = some 23 := by decide
  have complete : completeMutated (fun a b : UInt256 => a + 2 * b) [1, 2, 3] = false := by decide
  rw [top, Option.some.injEq] at levels
  rw [levels, complete] at computed
  exact ⟨by decide, by decide, computed⟩

/--
The code flags two equal complete subtrees anywhere, where the old code of
merkle_tests.cpp flags only the last pair of a level.  On `[1, 1, 2, 3]` the
code flags the first pair whatever the hash, and the old check only where
the hash collides on `(1, 1)` and `(2, 3)`.  And `2 ^ 31 + 1` leaves, fewer
than `2 ^ 32`, make `ComputeMerkleRoot` shift by 32.
-/
theorem computeMerkleRoot_flags_firstPair :
    (∃ root, computeMerkleRoot hashPair [1, 1, 2, 3] = .ok (root, true)) ∧
    (lastPairMutated hashPair [1, 1, 2, 3] = true ↔ hashPair 1 1 = hashPair 2 3) ∧
    computeMerkleRoot hashPair (List.replicate (2 ^ 31 + 1) 0) = .error .shiftOutOfRange := by
  refine ⟨?_, ?_, computeMerkleRoot_wraps hashPair _ (by rw [List.length_replicate]; decide)
    (by rw [List.length_replicate]; decide)⟩
  · obtain ⟨root, -, computed⟩ := computeMerkleRoot_eq hashPair [1, 1, 2, 3] (by decide) (by decide)
    have firstPair : pairsEqual ([1, 1, 2, 3] : List UInt256) = true := by decide
    rw [completeMutated_eq, firstPair, Bool.true_or] at computed
    exact ⟨root, computed⟩
  · rw [lastPairMutated, tower_of_two_le hashPair (by decide),
      tower_of_two_le hashPair (by rw [length_nextLevel]; decide),
      tower_of_le_one hashPair (by rw [length_nextLevel, length_nextLevel]; decide)]
    simp [lastPairEqual, nextLevel]

end Levels

/-- The same leaves under a hash that does not collide on `(1, 1)` and `(2, 3)`. -/
theorem computeMerkleRoot_mutated_firstPair :
    (∃ root, computeMerkleRoot (fun a b => a + 2 * b) [1, 1, 2, 3] = .ok (root, true)) ∧
    lastPairMutated (fun a b : UInt256 => a + 2 * b) [1, 1, 2, 3] = false ∧
    computeMerkleRoot (fun a b => a + 2 * b) (List.replicate (2 ^ 31 + 1) 0) =
      .error .shiftOutOfRange := by
  obtain ⟨flagged, lastPair, wraps⟩ := computeMerkleRoot_flags_firstPair fun a b : UInt256 => a + 2 * b
  have apart : (1 + 2 * 1 : UInt256) ≠ 2 + 2 * 3 := by decide
  exact ⟨flagged, Bool.eq_false_iff.2 fun flaggedLast => apart (lastPair.1 flaggedLast), wraps⟩

end Dogecoin.Consensus
