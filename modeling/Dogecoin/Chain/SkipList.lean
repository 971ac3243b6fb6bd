import Dogecoin.Chain.BlockIndex
import Dogecoin.Lib.Ancestry
import Dogecoin.Lib.ExceptSpec

/-!
# The skip list finds ancestors

Linking keeps a block tree `WellFormed`:

* a parent comes before its child, one height lower;
* a genesis entry is at height zero without a skip pointer;
* every other entry skips to its ancestor at `GetSkipHeight` of its height,
  the entry that `pprev` reaches after the difference in heights.

`addToBlockIndex` keeps this (the step), so every `Built` tree is well
formed (the run).  On a well-formed tree the loop of `GetAncestor` keeps its
entry the ancestor at `heightWalk` of the entry it started from.  So
`GetAncestor` returns the entry that following `pprev` reaches, and `NULL`
outside the heights of the entry.
-/

namespace Dogecoin.Chain

open Dogecoin.Primitives Ancestry ExceptSpec

/-! ## Parents and heights -/

/-- The parent of an entry; `none` for a genesis block and for a pointer to no entry. -/
def parentOf (tree : BlockTree) (pindex : Nat) : Option Nat :=
  tree[pindex]?.bind (·.pprev)

/-- The height of an entry; zero for a pointer to no entry. -/
def heightOf (tree : BlockTree) (pindex : Nat) : Nat :=
  (tree[pindex]?.map (·.nHeight)).getD 0

theorem parentOf_of_getElem? {tree : BlockTree} {pindex : Nat} {entry : CBlockIndex}
    (found : tree[pindex]? = some entry) : parentOf tree pindex = entry.pprev := by
  simp [parentOf, found]

theorem heightOf_of_getElem? {tree : BlockTree} {pindex : Nat} {entry : CBlockIndex}
    (found : tree[pindex]? = some entry) : heightOf tree pindex = entry.nHeight := by
  simp [heightOf, found]

theorem deref_of_getElem? {tree : BlockTree} {pindex : Nat} {entry : CBlockIndex}
    (found : tree[pindex]? = some entry) : deref tree pindex = .ok entry := by
  simp [deref, found]

/-- What linking guarantees of a block tree. -/
structure WellFormed (tree : BlockTree) : Prop where
  prev_lt : ∀ {i j : Nat} {entry : CBlockIndex}, tree[i]? = some entry → entry.pprev = some j →
    j < i
  height_prev : ∀ {i j : Nat} {entry : CBlockIndex}, tree[i]? = some entry →
    entry.pprev = some j → entry.nHeight = heightOf tree j + 1
  height_root : ∀ {i : Nat} {entry : CBlockIndex}, tree[i]? = some entry → entry.pprev = none →
    entry.nHeight = 0
  skip_root : ∀ {i : Nat} {entry : CBlockIndex}, tree[i]? = some entry → entry.pprev = none →
    entry.pskip = none
  skip : ∀ {i : Nat} {entry : CBlockIndex}, tree[i]? = some entry → entry.pprev.isSome →
    entry.pskip = climb (parentOf tree) (entry.nHeight - getSkipHeight entry.nHeight) i

theorem WellFormed.empty : WellFormed [] where
  prev_lt found := by cases found
  height_prev found := by cases found
  height_root found := by cases found
  skip_root found := by cases found
  skip found := by cases found

namespace WellFormed

variable {tree : BlockTree} (wf : WellFormed tree)
include wf

/-- Heights drop by one along `pprev`. -/
theorem graded : Graded (parentOf tree) (heightOf tree) where
  parent_some {a b} up := by
    cases found : tree[a]? with
    | none => simp [parentOf, found] at up
    | some entry =>
        rw [parentOf_of_getElem? found] at up
        rw [heightOf_of_getElem? found, wf.height_prev found up]
  parent_none {a} up := by
    cases found : tree[a]? with
    | none => simp [heightOf, found]
    | some entry =>
        rw [parentOf_of_getElem? found] at up
        rw [heightOf_of_getElem? found, wf.height_root found up]

theorem parentOf_lt {a b : Nat} (up : parentOf tree a = some b) : b < a := by
  cases found : tree[a]? with
  | none => simp [parentOf, found] at up
  | some entry =>
      rw [parentOf_of_getElem? found] at up
      exact wf.prev_lt found up

/-- Climbing from an entry ends at an entry. -/
theorem climb_lt_length {n a b : Nat} (valid : a < tree.length)
    (climbed : climb (parentOf tree) n a = some b) : b < tree.length :=
  climb_mem (parentOf tree) (S := (· < tree.length))
    (fun _ _ member up => Nat.lt_trans (wf.parentOf_lt up) member) n valid climbed

/-- Each step of a climb moves to an earlier entry. -/
theorem climb_add_le : ∀ {n a b : Nat}, climb (parentOf tree) n a = some b → b + n ≤ a
  | 0, _, _, climbed => by
      cases climbed
      omega
  | n + 1, a, b, climbed => by
      rw [climb_succ] at climbed
      cases up : parentOf tree a with
      | none =>
          rw [up] at climbed
          cases climbed
      | some c =>
          rw [up, Option.bind_some] at climbed
          have lower := wf.parentOf_lt up
          have := climb_add_le climbed
          omega

/-- An entry is no higher than its position, so walks along `pprev` take at most `tree.length` steps. -/
theorem heightOf_le {a : Nat} : heightOf tree a ≤ a := by
  obtain ⟨b, climbed⟩ := wf.graded.climb_isSome (n := heightOf tree a) (a := a) (Nat.le_refl _)
  have := wf.climb_add_le climbed
  omega

end WellFormed

/-! ## The loop of `GetAncestor` -/

/--
The loop invariant: `pindexWalk` is an entry at `heightWalk`, at or above
`height`; then the loop returns its ancestor at `height`.  The induction
follows the recursion of `ancestorWalk`.
-/
theorem ancestorWalk_eq {tree : BlockTree} (wf : WellFormed tree) {height : Nat} :
    ∀ (bound pindexWalk heightWalk : Nat) (short : heightWalk ≤ bound) {ancestor : Nat},
      pindexWalk < tree.length → heightOf tree pindexWalk = heightWalk → height ≤ heightWalk →
      climb (parentOf tree) (heightWalk - height) pindexWalk = some ancestor →
      ancestorWalk tree height bound pindexWalk heightWalk short = .ok ancestor
  | 0, pindexWalk, heightWalk, short, ancestor, _, _, low, climbed => by
      obtain rfl : heightWalk = 0 := by omega
      obtain rfl : height = 0 := by omega
      cases climbed
      rfl
  | bound + 1, pindexWalk, heightWalk, short, ancestor, valid, atHeight, low, climbed => by
      obtain ⟨entry, found⟩ : ∃ entry, tree[pindexWalk]? = some entry :=
        ⟨_, List.getElem?_eq_getElem valid⟩
      have nHeight : entry.nHeight = heightWalk := by rw [← atHeight, heightOf_of_getElem? found]
      rw [ancestorWalk]
      by_cases above : heightWalk > height
      · rw [dif_pos above, deref_of_getElem? found, ok_bind]
        split
        · rename_i pskip skipped follow
          have hasPrev : entry.pprev.isSome := by
            cases prev : entry.pprev with
            | none => rw [wf.skip_root found prev] at skipped; cases skipped
            | some _ => rfl
          have skipPtr := wf.skip found hasPrev
          rw [skipped, nHeight] at skipPtr
          have skipLt := getSkipHeight_lt (show 0 < heightWalk by omega)
          have atSkip : heightOf tree pskip = getSkipHeight heightWalk := by
            have := wf.graded.height_climb skipPtr.symm
            omega
          have notBelow : height ≤ getSkipHeight heightWalk := by
            simp only [decide_eq_true_eq] at follow
            omega
          have split : heightWalk - height =
              (getSkipHeight heightWalk - height) + (heightWalk - getSkipHeight heightWalk) := by
            omega
          rw [split, climb_add, ← skipPtr, Option.bind_some] at climbed
          exact ancestorWalk_eq wf bound pskip _ _ (wf.climb_lt_length valid skipPtr.symm) atSkip
            notBelow climbed
        · cases prev : entry.pprev with
          | none => exact absurd (wf.height_root found prev) (by omega)
          | some pprev =>
              have up : parentOf tree pindexWalk = some pprev := by
                rw [parentOf_of_getElem? found, prev]
              have atPrev : heightOf tree pprev = heightWalk - 1 := by
                have := wf.height_prev found prev
                omega
              have split : heightWalk - height = (heightWalk - 1 - height) + 1 := by omega
              rw [split, climb_succ, up, Option.bind_some] at climbed
              simp only
              exact ancestorWalk_eq wf bound pprev _ _ (Nat.lt_trans (wf.prev_lt found prev) valid)
                atPrev (by omega) climbed
      · rw [dif_neg above]
        obtain rfl : heightWalk = height := by omega
        rw [Nat.sub_self] at climbed
        cases climbed
        rfl

/-- `GetAncestor` at a height of the entry returns the entry that `pprev` reaches. -/
theorem getAncestor_eq_climb {tree : BlockTree} (wf : WellFormed tree) {pindex height : Nat}
    (valid : pindex < tree.length) (le : height ≤ heightOf tree pindex) :
    getAncestor tree pindex height =
      .ok (climb (parentOf tree) (heightOf tree pindex - height) pindex) := by
  obtain ⟨entry, found⟩ : ∃ entry, tree[pindex]? = some entry :=
    ⟨_, List.getElem?_eq_getElem valid⟩
  obtain ⟨ancestor, climbed⟩ := wf.graded.climb_isSome (n := heightOf tree pindex - height)
    (a := pindex) (by omega)
  have atHeight := heightOf_of_getElem? found
  rw [climbed, getAncestor, deref_of_getElem? found, ok_bind, if_neg (by omega),
    Int.toNat_natCast, ancestorWalk_eq wf _ _ _ _ valid atHeight (by omega) (by rwa [← atHeight])]
  rfl

/-- Outside the heights of the entry, `GetAncestor` returns `NULL`. -/
theorem getAncestor_eq_none {tree : BlockTree} {pindex : Nat} {entry : CBlockIndex}
    (found : tree[pindex]? = some entry) {height : Int}
    (out : height < 0 ∨ (entry.nHeight : Int) < height) :
    getAncestor tree pindex height = .ok none := by
  rw [getAncestor, deref_of_getElem? found, ok_bind, if_pos (by omega)]
  rfl

theorem getElem?_of_deref {tree : BlockTree} {pindex : Nat} {entry : CBlockIndex}
    (dereffed : deref tree pindex = .ok entry) : tree[pindex]? = some entry := by
  unfold deref at dereffed
  split at dereffed
  · cases dereffed
    assumption
  · cases dereffed

/-! ## Linking keeps the tree well formed -/

section Append

variable {tree : BlockTree} {entryNew : CBlockIndex}

theorem getElem?_append_entry {i : Nat} {entry : CBlockIndex}
    (present : (tree ++ [entryNew])[i]? = some entry) :
    (tree[i]? = some entry ∧ i < tree.length) ∨ (i = tree.length ∧ entryNew = entry) := by
  rcases Nat.lt_or_ge i tree.length with lt | ge
  · rw [List.getElem?_append_left lt] at present
    exact Or.inl ⟨present, lt⟩
  · rw [List.getElem?_append_right ge, List.getElem?_singleton] at present
    split at present
    · cases present
      exact Or.inr ⟨by omega, rfl⟩
    · cases present

theorem parentOf_append {i : Nat} (lt : i < tree.length) :
    parentOf (tree ++ [entryNew]) i = parentOf tree i := by
  simp only [parentOf, List.getElem?_append_left lt]

theorem heightOf_append {i : Nat} (lt : i < tree.length) :
    heightOf (tree ++ [entryNew]) i = heightOf tree i := by
  simp only [heightOf, List.getElem?_append_left lt]

theorem parentOf_append_length : parentOf (tree ++ [entryNew]) tree.length = entryNew.pprev :=
  parentOf_of_getElem? (by simp)

/-- Climbs from the old entries do not see the new one. -/
theorem WellFormed.climb_append (wf : WellFormed tree) {a : Nat} (valid : a < tree.length)
    (n : Nat) : climb (parentOf (tree ++ [entryNew])) n a = climb (parentOf tree) n a :=
  climb_congr (parentOf tree) (S := (· < tree.length)) (fun _ lt => parentOf_append lt)
    (fun _ _ lt up => Nat.lt_trans (wf.parentOf_lt up) lt) n valid

/-- What a new entry needs to go on top of `tree`: its parent is an entry one height lower, and it skips to the ancestor of its parent at its skip height. -/
structure Links (tree : BlockTree) (entryNew : CBlockIndex) : Prop where
  prev_lt : ∀ {j : Nat}, entryNew.pprev = some j → j < tree.length
  height_prev : ∀ {j : Nat}, entryNew.pprev = some j → entryNew.nHeight = heightOf tree j + 1
  height_root : entryNew.pprev = none → entryNew.nHeight = 0
  skip_root : entryNew.pprev = none → entryNew.pskip = none
  skip : ∀ {j : Nat}, entryNew.pprev = some j →
    entryNew.pskip = climb (parentOf tree) (entryNew.nHeight - getSkipHeight entryNew.nHeight - 1) j

/-- The step: an entry that links keeps the tree well formed. -/
theorem WellFormed.append (wf : WellFormed tree) (links : Links tree entryNew) :
    WellFormed (tree ++ [entryNew]) where
  prev_lt present up := by
    rcases getElem?_append_entry present with ⟨old, _⟩ | ⟨rfl, rfl⟩
    · exact wf.prev_lt old up
    · exact links.prev_lt up
  height_prev present up := by
    rcases getElem?_append_entry present with ⟨old, lt⟩ | ⟨rfl, rfl⟩
    · rw [heightOf_append (Nat.lt_trans (wf.prev_lt old up) lt)]
      exact wf.height_prev old up
    · rw [heightOf_append (links.prev_lt up)]
      exact links.height_prev up
  height_root present root := by
    rcases getElem?_append_entry present with ⟨old, _⟩ | ⟨rfl, rfl⟩
    · exact wf.height_root old root
    · exact links.height_root root
  skip_root present root := by
    rcases getElem?_append_entry present with ⟨old, _⟩ | ⟨rfl, rfl⟩
    · exact wf.skip_root old root
    · exact links.skip_root root
  skip present hasPrev := by
    rcases getElem?_append_entry present with ⟨old, lt⟩ | ⟨rfl, rfl⟩
    · rw [wf.climb_append lt]
      exact wf.skip old hasPrev
    · obtain ⟨j, up⟩ := Option.isSome_iff_exists.1 hasPrev
      have skipLt := getSkipHeight_lt (show 0 < entryNew.nHeight by
        rw [links.height_prev up]
        omega)
      have split : entryNew.nHeight - getSkipHeight entryNew.nHeight =
          (entryNew.nHeight - getSkipHeight entryNew.nHeight - 1) + 1 := by
        omega
      rw [split, climb_succ, parentOf_append_length, up, Option.bind_some,
        wf.climb_append (links.prev_lt up)]
      exact links.skip up

/-- What `AddToBlockIndex` appends links: `BuildSkip` finds the skip target with `GetAncestor`. -/
theorem addToBlockIndex_links (wf : WellFormed tree) {hash : UInt256} {block : CBlockHeader}
    {miPrev : Option Nat} {tree' : BlockTree}
    (linked : addToBlockIndex tree hash block miPrev = .ok tree') :
    ∃ entryNew, tree' = tree ++ [entryNew] ∧ entryNew.hashBlock = hash ∧
      entryNew.pprev = miPrev ∧ Links tree entryNew := by
  unfold addToBlockIndex at linked
  cases miPrev with
  | none =>
      cases linked
      refine ⟨_, rfl, rfl, rfl, ?_⟩
      exact ⟨nofun, nofun, fun _ => rfl, fun _ => rfl, nofun⟩
  | some pprev =>
      obtain ⟨parent, dereffed, rest⟩ := bind_eq_ok.1 linked
      obtain ⟨entryNew, skipped, appended⟩ := bind_eq_ok.1 rest
      obtain ⟨pskip, ancestor, rebuilt⟩ := bind_eq_ok.1 skipped
      cases appended
      cases rebuilt
      have found := getElem?_of_deref dereffed
      have valid : pprev < tree.length := (List.getElem?_eq_some_iff.1 found).1
      have atHeight := heightOf_of_getElem? found
      have skipLt := getSkipHeight_lt (show 0 < parent.nHeight + 1 by omega)
      dsimp only at ancestor
      rw [getAncestor_eq_climb wf valid (by omega)] at ancestor
      cases ancestor
      refine ⟨_, rfl, rfl, rfl, ?_⟩
      refine ⟨fun up => ?_, fun up => ?_, nofun, nofun, fun up => ?_⟩
      · cases up
        exact valid
      · cases up
        rw [atHeight]
      · cases up
        dsimp only
        congr 1
        omega

end Append

/-- The run: every tree that linking builds is well formed. -/
theorem Built.wellFormed {tree : BlockTree} (built : Built tree) : WellFormed tree := by
  induction built with
  | empty => exact WellFormed.empty
  | link hash block miPrev _ linked wf =>
      obtain ⟨entryNew, rfl, -, -, links⟩ := addToBlockIndex_links wf linked
      exact wf.append links

/-! ## `GetAncestor` on a built tree -/

/--
On a tree built by linking, `GetAncestor(h)` of an entry `p` returns the
entry that following `pprev` `p.nHeight - h` times reaches, for every `h`
from zero to `p.nHeight`, and `NULL` for every other `h`; it never fails.
The skip pointer of an entry at height two or more points to its ancestor at
`GetSkipHeight`, which is lower.
-/
theorem getAncestor_follows_pprev {tree : BlockTree} (built : Built tree) {pindex : Nat}
    {entry : CBlockIndex} (found : tree[pindex]? = some entry) :
    (∀ height : Int, 0 ≤ height → height ≤ entry.nHeight →
      ∃ ancestor, climb (parentOf tree) (entry.nHeight - height.toNat) pindex = some ancestor ∧
        heightOf tree ancestor = height.toNat ∧
        getAncestor tree pindex height = .ok (some ancestor)) ∧
    (∀ height : Int, height < 0 ∨ (entry.nHeight : Int) < height →
      getAncestor tree pindex height = .ok none) ∧
    (2 ≤ entry.nHeight → getSkipHeight entry.nHeight < entry.nHeight ∧
      ∃ skip, entry.pskip = some skip ∧
        climb (parentOf tree) (entry.nHeight - getSkipHeight entry.nHeight) pindex = some skip ∧
        heightOf tree skip = getSkipHeight entry.nHeight) := by
  have wf := built.wellFormed
  have valid : pindex < tree.length := (List.getElem?_eq_some_iff.1 found).1
  have atHeight := heightOf_of_getElem? found
  refine ⟨fun height nonneg le => ?_, fun height out => getAncestor_eq_none found out,
    fun two => ?_⟩
  · obtain ⟨ancestor, climbed⟩ := wf.graded.climb_isSome
      (n := entry.nHeight - height.toNat) (a := pindex) (by omega)
    have lowered := wf.graded.height_climb climbed
    have walked := getAncestor_eq_climb wf valid (show height.toNat ≤ heightOf tree pindex by omega)
    rw [Int.toNat_of_nonneg nonneg, atHeight, climbed] at walked
    exact ⟨ancestor, climbed, by omega, walked⟩
  · have skipLt := getSkipHeight_lt (show 0 < entry.nHeight by omega)
    have hasPrev : entry.pprev.isSome := by
      cases prev : entry.pprev with
      | none => exact absurd (wf.height_root found prev) (by omega)
      | some _ => rfl
    obtain ⟨skip, climbed⟩ := wf.graded.climb_isSome
      (n := entry.nHeight - getSkipHeight entry.nHeight) (a := pindex) (by omega)
    have lowered := wf.graded.height_climb climbed
    refine ⟨skipLt, skip, ?_, climbed, by omega⟩
    rw [wf.skip found hasPrev, climbed]

/-- The third of three blocks: at height two, it skips to genesis. -/
def blockTwo : CBlockIndex :=
  { hashBlock := 2, pprev := some 1, pskip := some 0, nHeight := 2, nVersion := 1, nTime := 120 }

/-- Three blocks, each on the one before, as `AddToBlockIndex` links them. -/
def threeBlocks : BlockTree :=
  [{ hashBlock := 0, pprev := none, pskip := none, nHeight := 0, nVersion := 1, nTime := 0 },
   { hashBlock := 1, pprev := some 0, pskip := some 0, nHeight := 1, nVersion := 1, nTime := 60 },
   blockTwo]

theorem threeBlocks_built : Built threeBlocks :=
  .link 2 ⟨1, 120⟩ (some 1) (.link 1 ⟨1, 60⟩ (some 0) (.link 0 ⟨1, 0⟩ none .empty rfl) rfl) rfl

theorem getAncestor_follows_pprev_threeBlocks :
    Built threeBlocks ∧ threeBlocks[2]? = some blockTwo ∧
      ((∀ height : Int, 0 ≤ height → height ≤ blockTwo.nHeight →
        ∃ ancestor, climb (parentOf threeBlocks) (blockTwo.nHeight - height.toNat) 2 = some ancestor ∧
          heightOf threeBlocks ancestor = height.toNat ∧
          getAncestor threeBlocks 2 height = .ok (some ancestor)) ∧
      (∀ height : Int, height < 0 ∨ (blockTwo.nHeight : Int) < height →
        getAncestor threeBlocks 2 height = .ok none) ∧
      (2 ≤ blockTwo.nHeight → getSkipHeight blockTwo.nHeight < blockTwo.nHeight ∧
        ∃ skip, blockTwo.pskip = some skip ∧
          climb (parentOf threeBlocks) (blockTwo.nHeight - getSkipHeight blockTwo.nHeight) 2 =
            some skip ∧
          heightOf threeBlocks skip = getSkipHeight blockTwo.nHeight)) :=
  ⟨threeBlocks_built, rfl, getAncestor_follows_pprev threeBlocks_built rfl⟩

end Dogecoin.Chain
