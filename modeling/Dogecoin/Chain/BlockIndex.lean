import Dogecoin.Primitives.Transaction

/-!
# Block index entries and their skip pointers

`CBlockIndex` (chain.h) is an entry of the block tree.  The entries live in
a list, and a pointer to one is its position; `NULL` is `none`.  Each entry
points to its parent `pprev` and, through `pskip`, to an earlier ancestor.
That second pointer lets `GetAncestor` walk back in few steps.

This module models, from chain.cpp and validation.cpp:

* `GetSkipHeight`, the height a skip pointer jumps to;
* the loop of `CBlockIndex::GetAncestor`, which follows `pskip` when that
  does not overshoot and `pprev` otherwise;
* `CBlockIndex::BuildSkip`;
* the linking step of `AddToBlockIndex`: a new entry takes its parent's
  height plus one, and builds its skip pointer.

A dereference of a pointer to no entry and a failed `assert` are `Fault`s.
The trees that linking builds, entry after entry, are `Built`.
-/

namespace Dogecoin.Chain

open Dogecoin.Primitives

/--
How a call ends without returning: a failed `assert`, a pointer to no entry,
or a walk along `pprev` that the model cuts off after as many steps as the
tree has entries (on a tree that is not well formed the source's loop can
run on).
-/
inductive Fault
  | assertion
  | dangling
  | outOfFuel
deriving DecidableEq, Repr

/-- `CBlockIndex`: the fields that the tree, the chain and the deployments read. -/
structure CBlockIndex where
  /-- The hash of the block, `GetBlockSha256Hash()`. -/
  hashBlock : UInt256
  /-- The parent; `none` for a genesis block. -/
  pprev : Option Nat
  /-- An earlier ancestor, to walk back quickly. -/
  pskip : Option Nat
  nHeight : Nat
  nVersion : Int
  nTime : Nat
deriving DecidableEq, Repr

/-- The fields of a header that a new entry copies. -/
structure CBlockHeader where
  nVersion : Int
  nTime : Nat
deriving DecidableEq, Repr

/-- The entries of the block tree; a pointer is a position in the list. -/
abbrev BlockTree := List CBlockIndex

/-- `*pindex`: the entry a pointer points to. -/
def deref (tree : BlockTree) (pindex : Nat) : Except Fault CBlockIndex :=
  match tree[pindex]? with
  | some entry => pure entry
  | none => throw .dangling

/-! ## Skip heights -/

/-- `InvertLowestOne`: clear the lowest set bit. -/
def invertLowestOne (n : Nat) : Nat :=
  n &&& (n - 1)

/-- `GetSkipHeight`: the height that the skip pointer of an entry at `height` jumps back to. -/
def getSkipHeight (height : Nat) : Nat :=
  if height < 2 then 0
  else if height &&& 1 ≠ 0 then invertLowestOne (invertLowestOne (height - 1)) + 1
  else invertLowestOne height

theorem invertLowestOne_le (n : Nat) : invertLowestOne n ≤ n :=
  Nat.and_le_left

theorem invertLowestOne_lt {n : Nat} (pos : 0 < n) : invertLowestOne n < n :=
  Nat.lt_of_le_of_lt Nat.and_le_right (by omega)

/-- The skip pointer jumps strictly back, so the loop of `GetAncestor` ends. -/
theorem getSkipHeight_lt {height : Nat} (pos : 0 < height) : getSkipHeight height < height := by
  unfold getSkipHeight
  split
  · omega
  · split
    · have twice := invertLowestOne_le (invertLowestOne (height - 1))
      have once := invertLowestOne_lt (n := height - 1) (by omega)
      omega
    · exact invertLowestOne_lt pos

/-! ## `GetAncestor` -/

/--
The loop of `GetAncestor` from `pindexWalk` at `heightWalk` down to
`height`; `bound` bounds `heightWalk`, which every turn lowers.
-/
def ancestorWalk (tree : BlockTree) (height : Nat) :
    (bound pindexWalk heightWalk : Nat) → heightWalk ≤ bound → Except Fault Nat
  -- `heightWalk` is zero: the loop has ended
  | 0, pindexWalk, _, _ => pure pindexWalk
  | bound + 1, pindexWalk, heightWalk, short =>
      if above : heightWalk > height then do
        let heightSkip := getSkipHeight heightWalk
        let heightSkipPrev := getSkipHeight (heightWalk - 1)
        let walk ← deref tree pindexWalk
        -- only follow `pskip` if `pprev->pskip` is not better than `pskip->pprev`
        match walk.pskip, decide (heightSkip = height ∨ (heightSkip > height ∧
            ¬((heightSkipPrev : Int) < heightSkip - 2 ∧ heightSkipPrev ≥ height))) with
        | some pskip, true =>
            ancestorWalk tree height bound pskip heightSkip (by
              have := getSkipHeight_lt (show 0 < heightWalk by omega)
              omega)
        | _, _ =>
            match walk.pprev with
            | none => throw .assertion
            | some pprev => ancestorWalk tree height bound pprev (heightWalk - 1) (by omega)
      else pure pindexWalk

/-- `CBlockIndex::GetAncestor`: the ancestor of `pindex` at `height`, `NULL` outside `0` to its height. -/
def getAncestor (tree : BlockTree) (pindex : Nat) (height : Int) : Except Fault (Option Nat) := do
  let entry ← deref tree pindex
  if height > entry.nHeight ∨ height < 0 then pure none
  else some <$> ancestorWalk tree height.toNat entry.nHeight pindex entry.nHeight (Nat.le_refl _)

/-! ## Building the tree -/

/-- `CBlockIndex::BuildSkip` for `entry`, whose parent is in `tree`. -/
def buildSkip (tree : BlockTree) (entry : CBlockIndex) : Except Fault CBlockIndex :=
  match entry.pprev with
  | none => pure entry
  | some pprev => do
      let pskip ← getAncestor tree pprev (getSkipHeight entry.nHeight)
      pure { entry with pskip }

/--
The linking in `AddToBlockIndex`: a new entry for the block `hash` with
header `block`, on top of the entry `miPrev` found for its parent.
-/
def addToBlockIndex (tree : BlockTree) (hash : UInt256) (block : CBlockHeader)
    (miPrev : Option Nat) : Except Fault BlockTree := do
  let pindexNew : CBlockIndex :=
    { hashBlock := hash, pprev := none, pskip := none, nHeight := 0, nVersion := block.nVersion,
      nTime := block.nTime }
  let pindexNew ← match miPrev with
    | none => pure pindexNew
    | some pprev => do
        let parent ← deref tree pprev
        buildSkip tree { pindexNew with pprev := some pprev, nHeight := parent.nHeight + 1 }
  pure (tree ++ [pindexNew])

/-- The trees that linking builds, entry after entry, from the empty tree. -/
inductive Built : BlockTree → Prop
  | empty : Built []
  | link {tree tree' : BlockTree} (hash : UInt256) (block : CBlockHeader) (miPrev : Option Nat) :
      Built tree → addToBlockIndex tree hash block miPrev = .ok tree' → Built tree'

end Dogecoin.Chain
