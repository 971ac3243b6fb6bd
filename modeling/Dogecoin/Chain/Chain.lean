import Dogecoin.Chain.SkipList

/-!
# The active chain

`CChain` (chain.h, chain.cpp) keeps one chain of the block tree as a vector
of entries by height.  `SetTip` moves it to a new tip: it resizes the vector
and walks back from the tip along `pprev`, pointing each height at its
entry, until a height already points at the entry the walk reached.

The system is the block tree with its chain: blocks are linked with
`AddToBlockIndex` and the tip is moved with `SetTip`, in any order.  Every
reachable state holds, at each height of the chain, the ancestor of its
tip at that height: the chain is the `line` of its tip.  On such a state

* `FindFork(p)` returns the highest ancestor of `p` in the chain;
* `GetLocator(p)` lists ancestors of `p` down to height zero, one height
  apart for eleven steps and then twice as far at each step;

and `LastCommonAncestor(a, b)` (net_processing.cpp) returns the highest
common ancestor of `a` and `b`.  Each walk along `pprev` takes at most as
many steps as the tree has entries, which is the fuel the model gives it.
-/

namespace Dogecoin.Chain

open Dogecoin.Primitives Ancestry ExceptSpec

/-- `CChain`: the entry at each height; a `NULL` slot is `none`. -/
structure CChain where
  vChain : List (Option Nat)
deriving DecidableEq, Repr

/-- `CBlockLocator`: the hashes of the blocks a peer is asked to look for. -/
structure CBlockLocator where
  vHave : List UInt256
deriving DecidableEq, Repr

/-- `GetBlockSha256Hash()` of an entry; zero for a pointer to no entry. -/
def hashOf (tree : BlockTree) (pindex : Nat) : UInt256 :=
  (tree[pindex]?.map (·.hashBlock)).getD 0

/-- `std::vector::resize`: keep the first `n` slots and fill the rest with `NULL`. -/
def resize (vChain : List (Option Nat)) (n : Nat) : List (Option Nat) :=
  vChain.take n ++ List.replicate (n - vChain.length) none

/-- `vChain[nHeight]`; past the end it reads no slot. -/
def slot (vChain : List (Option Nat)) (nHeight : Nat) : Except Fault (Option Nat) :=
  match vChain[nHeight]? with
  | some pindex => pure pindex
  | none => throw .dangling

namespace CChain

/-- `Tip()`: the last slot, `NULL` for an empty chain. -/
def tip (chain : CChain) : Option Nat :=
  chain.vChain.getLast?.join

/-- `Height()`: `vChain.size() - 1`, so `-1` for an empty chain. -/
def height (chain : CChain) : Int :=
  chain.vChain.length - 1

/-- `operator[]`: the entry at `nHeight`, `NULL` outside the chain. -/
def get (chain : CChain) (nHeight : Int) : Option Nat :=
  if nHeight < 0 ∨ nHeight ≥ chain.vChain.length then none
  else (chain.vChain[nHeight.toNat]?).join

/-- `Contains(pindex)`: the chain points at `pindex` at its height. -/
def contains (chain : CChain) (tree : BlockTree) (pindex : Nat) : Except Fault Bool := do
  let entry ← deref tree pindex
  pure (decide (chain.get entry.nHeight = some pindex))

/-- The loop of `SetTip`: from `pindex` back along `pprev`, point each height at its entry until one already does. -/
def setTipWalk (tree : BlockTree) :
    (fuel : Nat) → List (Option Nat) → Option Nat → Except Fault (List (Option Nat))
  | _, vChain, none => pure vChain
  | 0, _, some _ => throw .outOfFuel
  | fuel + 1, vChain, some pindex => do
      let entry ← deref tree pindex
      let current ← slot vChain entry.nHeight
      if current = some pindex then pure vChain
      else setTipWalk tree fuel (vChain.set entry.nHeight (some pindex)) entry.pprev

/-- `SetTip(pindex)`; `NULL` clears the chain. -/
def setTip (chain : CChain) (tree : BlockTree) : Option Nat → Except Fault CChain
  | none => pure ⟨[]⟩
  | some pindex => do
      let entry ← deref tree pindex
      let vChain ← setTipWalk tree tree.length (resize chain.vChain (entry.nHeight + 1))
        (some pindex)
      pure ⟨vChain⟩

/-- The loop of `FindFork`: back along `pprev` until an entry of the chain. -/
def findForkWalk (chain : CChain) (tree : BlockTree) :
    (fuel : Nat) → Option Nat → Except Fault (Option Nat)
  | _, none => pure none
  | 0, some _ => throw .outOfFuel
  | fuel + 1, some pindex => do
      if ← chain.contains tree pindex then pure (some pindex)
      else
        let entry ← deref tree pindex
        chain.findForkWalk tree fuel entry.pprev

/-- `FindFork(pindex)`: the last entry of the chain on the way back from `pindex`. -/
def findFork (chain : CChain) (tree : BlockTree) : Option Nat → Except Fault (Option Nat)
  | none => pure none
  | some pindex => do
      let entry ← deref tree pindex
      let pindex ← if (entry.nHeight : Int) > chain.height then
          getAncestor tree pindex chain.height
        else pure (some pindex)
      chain.findForkWalk tree tree.length pindex

/-- The loop of `GetLocator`, `nStep` heights between the entries it lists. -/
def locatorWalk (chain : CChain) (tree : BlockTree) :
    (fuel : Nat) → Option Nat → Nat → List UInt256 → Except Fault (List UInt256)
  | _, none, _, vHave => pure vHave
  | 0, some _, _, _ => throw .outOfFuel
  | fuel + 1, some pindex, nStep, vHave => do
      let entry ← deref tree pindex
      let vHave := vHave ++ [entry.hashBlock]
      -- stop when we have added the genesis block
      if entry.nHeight = 0 then pure vHave
      else
        -- `std::max(pindex->nHeight - nStep, 0)`
        let nHeight := entry.nHeight - nStep
        -- the chain's own index where it holds `pindex`, else the skip list
        let pindex ← if ← chain.contains tree pindex then pure (chain.get nHeight)
          else getAncestor tree pindex nHeight
        let nStep := if vHave.length > 10 then nStep * 2 else nStep
        chain.locatorWalk tree fuel pindex nStep vHave

/-- `GetLocator(pindex)`, from the tip when `pindex` is `NULL`. -/
def getLocator (chain : CChain) (tree : BlockTree) (pindex : Option Nat) :
    Except Fault CBlockLocator := do
  let pindex := match pindex with
    | none => chain.tip
    | some pindex => some pindex
  let vHave ← chain.locatorWalk tree tree.length pindex 1 []
  pure ⟨vHave⟩

end CChain

/-- The loop of `LastCommonAncestor`: both entries back along `pprev` until they meet. -/
def commonWalk (tree : BlockTree) :
    (fuel : Nat) → Option Nat → Option Nat → Except Fault (Option Nat × Option Nat)
  | fuel, some pa, some pb =>
      if pa = pb then pure (some pa, some pb)
      else match fuel with
        | 0 => throw .outOfFuel
        | fuel + 1 => do
            let entryA ← deref tree pa
            let entryB ← deref tree pb
            commonWalk tree fuel entryA.pprev entryB.pprev
  | _, pa, pb => pure (pa, pb)

/-- `LastCommonAncestor(pa, pb)`: bring the higher entry down to the other's height, then walk both back. -/
def lastCommonAncestor (tree : BlockTree) (pa pb : Nat) : Except Fault (Option Nat) := do
  let entryA ← deref tree pa
  let entryB ← deref tree pb
  let start ← if entryA.nHeight > entryB.nHeight then do
        let pa ← getAncestor tree pa entryB.nHeight
        pure (pa, some pb)
      else if entryB.nHeight > entryA.nHeight then do
        let pb ← getAncestor tree pb entryA.nHeight
        pure (some pa, pb)
      else pure (some pa, some pb)
  let (pa, pb) ← commonWalk tree tree.length start.1 start.2
  -- eventually all chain branches meet at the genesis block
  if pa ≠ pb then throw .assertion
  pure pa

/-! ## Slots -/

@[simp]
theorem length_resize (vChain : List (Option Nat)) (n : Nat) : (resize vChain n).length = n := by
  simp only [resize, List.length_append, List.length_take, List.length_replicate]
  omega

theorem getElem?_resize_of_lt {vChain : List (Option Nat)} {n h : Nat} (inside : h < n)
    (kept : h < vChain.length) : (resize vChain n)[h]? = vChain[h]? := by
  rw [resize, List.getElem?_append_left (by simp; omega), List.getElem?_take, if_pos inside]

theorem getElem?_resize_of_le {vChain : List (Option Nat)} {n h : Nat} (inside : h < n)
    (added : vChain.length ≤ h) : (resize vChain n)[h]? = some none := by
  have taken : (vChain.take n).length = vChain.length := by simp; omega
  rw [resize, List.getElem?_append_right (by omega), List.getElem?_replicate, taken, if_pos (by omega)]

theorem slot_of_getElem? {vChain : List (Option Nat)} {h : Nat} {current : Option Nat}
    (found : vChain[h]? = some current) : slot vChain h = .ok current := by
  simp [slot, found]

/-- `operator[]` at a height is the slot there, `NULL` past the end. -/
theorem CChain.get_natCast (chain : CChain) (h : Nat) : chain.get h = chain.vChain[h]?.join := by
  unfold CChain.get
  by_cases inside : h < chain.vChain.length
  · rw [if_neg (by omega), Int.toNat_natCast]
  · rw [if_pos (by omega), List.getElem?_eq_none (by omega)]
    rfl

/-! ## The chain of a tip -/

/-- The chain whose tip is `t`: the ancestor of `t` at each of its heights. -/
def chainOf (tree : BlockTree) (t : Nat) : CChain :=
  ⟨line (parentOf tree) (heightOf tree) t⟩

/-- The states of `CChain` that `SetTip` leaves: empty, or the chain of an entry. -/
def Tracks (tree : BlockTree) (chain : CChain) : Prop :=
  chain = ⟨[]⟩ ∨ ∃ t, t < tree.length ∧ chain = chainOf tree t

theorem height_chainOf (tree : BlockTree) (t : Nat) : (chainOf tree t).height = heightOf tree t := by
  simp [CChain.height, chainOf]

section ChainOf

variable {tree : BlockTree} (wf : WellFormed tree)
include wf

theorem mem_chainOf {t c : Nat} :
    some c ∈ (chainOf tree t).vChain ↔ IsAncestor (parentOf tree) c t :=
  wf.graded.mem_line

/-- Below an ancestor `p` of the tip, `operator[]` climbs from `p`. -/
theorem get_chainOf {t p h : Nat} (anc : IsAncestor (parentOf tree) p t) (le : h ≤ heightOf tree p) :
    (chainOf tree t).get h = climb (parentOf tree) (heightOf tree p - h) p := by
  have below := (wf.graded.climb_of_isAncestor anc).1
  rw [CChain.get_natCast, chainOf, getElem?_line, if_pos (by omega),
    wf.graded.climb_sub_of_isAncestor anc le]
  rfl

/-- `Contains(q)` asks whether `q` is an ancestor of the tip. -/
theorem contains_chainOf {t q : Nat} (valid : q < tree.length) :
    ∃ inChain, (chainOf tree t).contains tree q = .ok inChain ∧
      (inChain = true ↔ IsAncestor (parentOf tree) q t) := by
  obtain ⟨entry, found⟩ : ∃ entry, tree[q]? = some entry := ⟨_, List.getElem?_eq_getElem valid⟩
  rw [CChain.contains, deref_of_getElem? found, ok_bind, ← heightOf_of_getElem? found]
  refine ⟨_, rfl, ?_⟩
  rw [decide_eq_true_iff, CChain.get_natCast, Option.join_eq_some_iff]
  exact wf.graded.getElem?_line_height

end ChainOf

/-- Linking a block leaves the chain of an old entry as it was. -/
theorem chainOf_append {tree : BlockTree} (wf : WellFormed tree) {entryNew : CBlockIndex} {t : Nat}
    (valid : t < tree.length) : chainOf (tree ++ [entryNew]) t = chainOf tree t := by
  simp only [chainOf, line, heightOf_append valid, wf.climb_append valid]

/-! ## `SetTip` -/

section SetTip

variable {tree : BlockTree} (wf : WellFormed tree)
include wf

/--
What `SetTip` finds below the entries it has set: if the resized old chain
already holds an ancestor `p` of the new tip at its height, it holds the new
tip's ancestors at every height up to it.
-/
theorem resize_agrees_below {chain : CChain} (tracks : Tracks tree chain) {t p : Nat}
    (anc : IsAncestor (parentOf tree) p t)
    (held : (resize chain.vChain (heightOf tree t + 1))[heightOf tree p]? = some (some p)) :
    ∀ h, h ≤ heightOf tree p → (resize chain.vChain (heightOf tree t + 1))[h]? =
      (chainOf tree t).vChain[h]? := by
  have below := (wf.graded.climb_of_isAncestor anc).1
  intro h le
  rcases tracks with rfl | ⟨t₀, _, rfl⟩
  · rw [getElem?_resize_of_le (by omega) (by simp)] at held
    cases held
  · by_cases kept : heightOf tree p < (chainOf tree t₀).vChain.length
    · rw [getElem?_resize_of_lt (by omega) kept] at held
      have anc₀ := wf.graded.getElem?_line_height.1 held
      rw [getElem?_resize_of_lt (by omega) (by omega), chainOf, chainOf,
        wf.graded.getElem?_line_of_isAncestor anc₀ le, wf.graded.getElem?_line_of_isAncestor anc le]
    · rw [getElem?_resize_of_le (by omega) (by omega)] at held
      cases held

/--
The loop invariant of `SetTip` towards tip `t`: the slots from `m` up hold
the ancestors of `t`, the slots below `m` still hold the resized old chain,
and the walk is at the ancestor of `t` at height `m - 1`, or past the root
when `m` is zero.  The induction is on the fuel, which `m` never exceeds.
-/
theorem setTipWalk_eq {chain : CChain} (tracks : Tracks tree chain) {t : Nat} :
    ∀ (fuel m : Nat) (vChain : List (Option Nat)) (pindex : Option Nat), m ≤ fuel →
      vChain.length = heightOf tree t + 1 →
      (∀ h, m ≤ h → vChain[h]? = (chainOf tree t).vChain[h]?) →
      (∀ h, h < m → vChain[h]? = (resize chain.vChain (heightOf tree t + 1))[h]?) →
      (∀ p, pindex = some p → m = heightOf tree p + 1 ∧ IsAncestor (parentOf tree) p t) →
      (pindex = none → m = 0) →
      (valid : t < tree.length) →
      CChain.setTipWalk tree fuel vChain pindex = .ok (chainOf tree t).vChain := by
  intro fuel
  induction fuel with
  | zero =>
      intro m vChain pindex short _ above _ atSome _ _
      cases pindex with
      | none =>
          rw [CChain.setTipWalk, List.ext_getElem? fun h => above h (by omega)]
          rfl
      | some p => exact absurd (atSome p rfl).1 (by omega)
  | succ fuel ih =>
      intro m vChain pindex short size above untouched atSome atNone valid
      cases pindex with
      | none =>
          rw [CChain.setTipWalk, List.ext_getElem? fun h => above h (by have := atNone rfl; omega)]
          rfl
      | some p =>
          obtain ⟨rfl, anc⟩ := atSome p rfl
          have validP := wf.climb_lt_length valid (wf.graded.climb_of_isAncestor anc).2
          have below := (wf.graded.climb_of_isAncestor anc).1
          obtain ⟨entry, found⟩ : ∃ entry, tree[p]? = some entry :=
            ⟨_, List.getElem?_eq_getElem validP⟩
          have atHeight := heightOf_of_getElem? found
          obtain ⟨current, read⟩ : ∃ current, vChain[heightOf tree p]? = some current :=
            ⟨_, List.getElem?_eq_getElem (by omega)⟩
          rw [CChain.setTipWalk, deref_of_getElem? found, ok_bind, ← atHeight, slot_of_getElem? read,
            ok_bind]
          by_cases same : current = some p
          · subst same
            rw [if_pos rfl]
            have held := (untouched _ (by omega)).symm.trans read
            congr 1
            apply List.ext_getElem?
            intro h
            by_cases low : h < heightOf tree p + 1
            · rw [untouched h low, resize_agrees_below wf tracks anc held h (by omega)]
            · exact above h (by omega)
          · rw [if_neg same]
            refine ih (heightOf tree p) _ entry.pprev (by omega) (by simp [size]) ?_ ?_ ?_ ?_ valid
            · intro h low
              by_cases at_p : h = heightOf tree p
              · subst at_p
                rw [List.getElem?_set_self (by omega), chainOf,
                  wf.graded.getElem?_line_height.2 anc]
              · rw [List.getElem?_set_ne (Ne.symm at_p)]
                exact above h (by omega)
            · intro h low
              rw [List.getElem?_set_ne (by omega)]
              exact untouched h (by omega)
            · intro pp up
              have lower := wf.height_prev found up
              refine ⟨by omega, (IsAncestor.of_parent ?_).trans anc⟩
              rw [parentOf_of_getElem? found, up]
            · intro root
              have := wf.height_root found root
              omega

/-- `SetTip(t)` makes the chain the chain of `t`. -/
theorem setTip_eq {chain : CChain} (tracks : Tracks tree chain) {t : Nat}
    (valid : t < tree.length) : chain.setTip tree (some t) = .ok (chainOf tree t) := by
  obtain ⟨entry, found⟩ : ∃ entry, tree[t]? = some entry := ⟨_, List.getElem?_eq_getElem valid⟩
  have atHeight := heightOf_of_getElem? found
  have fits : heightOf tree t < tree.length := Nat.lt_of_le_of_lt wf.heightOf_le valid
  rw [CChain.setTip, deref_of_getElem? found, ok_bind, ← atHeight,
    setTipWalk_eq wf tracks tree.length (heightOf tree t + 1) _ (some t) (by omega) (by simp)
      (fun h high => by
        rw [List.getElem?_eq_none (by simp; omega), List.getElem?_eq_none (by simp [chainOf]; omega)])
      (fun _ _ => rfl) (fun p same => by cases same; exact ⟨rfl, .refl t⟩) nofun valid]
  rfl

end SetTip

/-! ## Reachable states -/

/--
The states of the block tree and its chain that linking blocks and moving
the tip reach, in any order, from a well-formed tree with an empty chain.
-/
inductive Reachable : BlockTree → CChain → Prop
  | start {tree : BlockTree} : WellFormed tree → Reachable tree ⟨[]⟩
  | link {tree tree' : BlockTree} {chain : CChain} (hash : UInt256) (block : CBlockHeader)
      (miPrev : Option Nat) :
      Reachable tree chain → addToBlockIndex tree hash block miPrev = .ok tree' →
      Reachable tree' chain
  | setTip {tree : BlockTree} {chain chain' : CChain} (pindex : Option Nat) :
      Reachable tree chain → chain.setTip tree pindex = .ok chain' → Reachable tree chain'

theorem Tracks.append {tree : BlockTree} {chain : CChain} (wf : WellFormed tree)
    (tracks : Tracks tree chain) {entryNew : CBlockIndex} : Tracks (tree ++ [entryNew]) chain := by
  rcases tracks with rfl | ⟨t, valid, rfl⟩
  · exact Or.inl rfl
  · exact Or.inr ⟨t, by simp only [List.length_append]; omega, (chainOf_append wf valid).symm⟩

theorem Tracks.setTip {tree : BlockTree} {chain chain' : CChain} (wf : WellFormed tree)
    (tracks : Tracks tree chain) {pindex : Option Nat} (moved : chain.setTip tree pindex = .ok chain') :
    Tracks tree chain' := by
  cases pindex with
  | none =>
      cases moved
      exact Or.inl rfl
  | some t =>
      obtain ⟨entry, dereffed, _⟩ := bind_eq_ok.1 moved
      have valid := (List.getElem?_eq_some_iff.1 (getElem?_of_deref dereffed)).1
      rw [setTip_eq wf tracks valid] at moved
      cases moved
      exact Or.inr ⟨t, valid, rfl⟩

/-- The run: every reachable state has a well-formed tree and a chain that is empty or the chain of its tip. -/
theorem Reachable.invariant {tree : BlockTree} {chain : CChain} (reach : Reachable tree chain) :
    WellFormed tree ∧ Tracks tree chain := by
  induction reach with
  | start wf => exact ⟨wf, Or.inl rfl⟩
  | link hash block miPrev _ linked ih =>
      obtain ⟨wf, tracks⟩ := ih
      obtain ⟨entryNew, rfl, -, -, links⟩ := addToBlockIndex_links wf linked
      exact ⟨wf.append links, tracks.append wf⟩
  | setTip pindex _ moved ih => exact ⟨ih.1, ih.2.setTip ih.1 moved⟩

/-! ## `FindFork` and `LastCommonAncestor` -/

section Fork

variable {tree : BlockTree} (wf : WellFormed tree)
include wf

/-- From `q`, the loop of `FindFork` on the chain of `t` finds the highest common ancestor of `q` and `t`. -/
theorem findForkWalk_eq (t : Nat) :
    ∀ (fuel q : Nat), q < tree.length → heightOf tree q < fuel →
      ∃ r, (chainOf tree t).findForkWalk tree fuel (some q) = .ok r ∧
        IsHighest (heightOf tree) (Common (parentOf tree) q t) r := by
  intro fuel
  induction fuel with
  | zero =>
      intro q _ short
      omega
  | succ fuel ih =>
      intro q validQ short
      obtain ⟨inChain, contained, meaning⟩ := contains_chainOf wf (t := t) validQ
      obtain ⟨entry, found⟩ : ∃ entry, tree[q]? = some entry :=
        ⟨_, List.getElem?_eq_getElem validQ⟩
      rw [CChain.findForkWalk, contained, ok_bind]
      cases inChain with
      | true => exact ⟨some q, rfl, wf.graded.isHighest_common_self (meaning.1 rfl)⟩
      | false =>
          have notAnc : ¬IsAncestor (parentOf tree) q t := fun anc =>
            Bool.false_ne_true (meaning.2 anc)
          rw [if_neg Bool.false_ne_true, deref_of_getElem? found, ok_bind]
          cases prev : entry.pprev with
          | none =>
              refine ⟨none, by cases fuel <;> rfl, not_common_root_left notAnc ?_⟩
              rw [parentOf_of_getElem? found, prev]
          | some pp =>
              have up : parentOf tree q = some pp := by rw [parentOf_of_getElem? found, prev]
              have lower := wf.height_prev found prev
              have atHeight := heightOf_of_getElem? found
              obtain ⟨r, walked, highest⟩ :=
                ih pp (Nat.lt_trans (wf.prev_lt found prev) validQ) (by omega)
              exact ⟨r, walked, highest.of_iff (common_parent_left notAnc up)⟩

/-- `FindFork(p)` on the chain of `t` returns the highest common ancestor of `p` and `t`. -/
theorem findFork_eq (t : Nat) {p : Nat} (validP : p < tree.length) :
    ∃ r, (chainOf tree t).findFork tree (some p) = .ok r ∧
      IsHighest (heightOf tree) (Common (parentOf tree) p t) r := by
  obtain ⟨entry, found⟩ : ∃ entry, tree[p]? = some entry := ⟨_, List.getElem?_eq_getElem validP⟩
  have atHeight := heightOf_of_getElem? found
  rw [CChain.findFork, deref_of_getElem? found, ok_bind, height_chainOf]
  by_cases higher : heightOf tree t < entry.nHeight
  · rw [if_pos (by omega),
      getAncestor_eq_climb wf validP (show heightOf tree t ≤ heightOf tree p by omega), ok_bind]
    obtain ⟨p', climbed⟩ := wf.graded.climb_isSome (n := heightOf tree p - heightOf tree t) (a := p)
      (by omega)
    have lowered := wf.graded.height_climb climbed
    have validP' := wf.climb_lt_length validP climbed
    rw [climbed]
    obtain ⟨r, walked, highest⟩ := findForkWalk_eq wf t tree.length p' validP'
      (Nat.lt_of_le_of_lt wf.heightOf_le validP')
    exact ⟨r, walked, highest.of_iff (wf.graded.common_ancestor_left ⟨_, climbed⟩ (by omega))⟩
  · rw [if_neg (by omega), pure_eq_ok, ok_bind]
    exact findForkWalk_eq wf t tree.length p validP (Nat.lt_of_le_of_lt wf.heightOf_le validP)

/-- Walking two entries at one height back together finds their highest common ancestor, at which both stop. -/
theorem commonWalk_eq :
    ∀ (fuel a b : Nat), a < tree.length → b < tree.length → heightOf tree a = heightOf tree b →
      heightOf tree a < fuel →
      ∃ r, commonWalk tree fuel (some a) (some b) = .ok (r, r) ∧
        IsHighest (heightOf tree) (Common (parentOf tree) a b) r := by
  intro fuel
  induction fuel with
  | zero =>
      intro a b _ _ _ short
      omega
  | succ fuel ih =>
      intro a b validA validB same short
      by_cases met : a = b
      · subst met
        rw [commonWalk, if_pos rfl]
        exact ⟨some a, rfl, wf.graded.isHighest_common_self (.refl a)⟩
      · obtain ⟨entryA, foundA⟩ : ∃ entry, tree[a]? = some entry :=
          ⟨_, List.getElem?_eq_getElem validA⟩
        obtain ⟨entryB, foundB⟩ : ∃ entry, tree[b]? = some entry :=
          ⟨_, List.getElem?_eq_getElem validB⟩
        have atA := heightOf_of_getElem? foundA
        have atB := heightOf_of_getElem? foundB
        rw [commonWalk, if_neg met]
        simp only [deref_of_getElem? foundA, deref_of_getElem? foundB, ok_bind]
        cases prevA : entryA.pprev with
        | none =>
            have rootA := wf.height_root foundA prevA
            cases prevB : entryB.pprev with
            | none =>
                refine ⟨none, by cases fuel <;> rfl, wf.graded.not_common_of_root met same (.inl ?_)⟩
                rw [parentOf_of_getElem? foundA, prevA]
            | some pb => exact absurd (wf.height_prev foundB prevB) (by omega)
        | some pa =>
            have lowerA := wf.height_prev foundA prevA
            cases prevB : entryB.pprev with
            | none => exact absurd (wf.height_root foundB prevB) (by omega)
            | some pb =>
                have lowerB := wf.height_prev foundB prevB
                have upA : parentOf tree a = some pa := by rw [parentOf_of_getElem? foundA, prevA]
                have upB : parentOf tree b = some pb := by rw [parentOf_of_getElem? foundB, prevB]
                obtain ⟨r, walked, highest⟩ := ih pa pb (Nat.lt_trans (wf.prev_lt foundA prevA) validA)
                  (Nat.lt_trans (wf.prev_lt foundB prevB) validB) (by omega) (by omega)
                exact ⟨r, walked, highest.of_iff (wf.graded.common_parents met same upA upB)⟩

/-- `LastCommonAncestor(a, b)` returns the highest common ancestor of `a` and `b`, and its `assert` holds. -/
theorem lastCommonAncestor_eq {a b : Nat} (validA : a < tree.length) (validB : b < tree.length) :
    ∃ r, lastCommonAncestor tree a b = .ok r ∧
      IsHighest (heightOf tree) (Common (parentOf tree) a b) r := by
  obtain ⟨entryA, foundA⟩ : ∃ entry, tree[a]? = some entry := ⟨_, List.getElem?_eq_getElem validA⟩
  obtain ⟨entryB, foundB⟩ : ∃ entry, tree[b]? = some entry := ⟨_, List.getElem?_eq_getElem validB⟩
  have atA := heightOf_of_getElem? foundA
  have atB := heightOf_of_getElem? foundB
  have fuelA := Nat.lt_of_le_of_lt wf.heightOf_le validA
  have fuelB := Nat.lt_of_le_of_lt wf.heightOf_le validB
  rw [lastCommonAncestor, deref_of_getElem? foundA, ok_bind, deref_of_getElem? foundB, ok_bind]
  by_cases higherA : entryB.nHeight < entryA.nHeight
  · rw [if_pos higherA, ← atB,
      getAncestor_eq_climb wf validA (show heightOf tree b ≤ heightOf tree a by omega), ok_bind]
    obtain ⟨a', climbed⟩ := wf.graded.climb_isSome (n := heightOf tree a - heightOf tree b) (a := a)
      (by omega)
    have lowered := wf.graded.height_climb climbed
    have validA' := wf.climb_lt_length validA climbed
    obtain ⟨r, walked, highest⟩ := commonWalk_eq wf tree.length a' b validA' validB (by omega)
      (by omega)
    rw [climbed]
    simp only [pure_eq_ok, ok_bind, walked, ne_eq, not_true_eq_false, if_false]
    exact ⟨r, rfl, highest.of_iff (wf.graded.common_ancestor_left ⟨_, climbed⟩ (by omega))⟩
  · rw [if_neg higherA]
    by_cases higherB : entryA.nHeight < entryB.nHeight
    · rw [if_pos higherB, ← atA,
        getAncestor_eq_climb wf validB (show heightOf tree a ≤ heightOf tree b by omega), ok_bind]
      obtain ⟨b', climbed⟩ := wf.graded.climb_isSome (n := heightOf tree b - heightOf tree a)
        (a := b) (by omega)
      have lowered := wf.graded.height_climb climbed
      have validB' := wf.climb_lt_length validB climbed
      obtain ⟨r, walked, highest⟩ := commonWalk_eq wf tree.length a b' validA validB' (by omega)
        (by omega)
      rw [climbed]
      simp only [pure_eq_ok, ok_bind, walked, ne_eq, not_true_eq_false, if_false]
      refine ⟨r, rfl, highest.of_iff fun c => ?_⟩
      calc Common (parentOf tree) a b c ↔ Common (parentOf tree) b a c := common_comm
        _ ↔ Common (parentOf tree) b' a c :=
          wf.graded.common_ancestor_left ⟨_, climbed⟩ (by omega) c
        _ ↔ Common (parentOf tree) a b' c := common_comm
    · rw [if_neg higherB]
      obtain ⟨r, walked, highest⟩ := commonWalk_eq wf tree.length a b validA validB (by omega)
        (by omega)
      simp only [pure_eq_ok, ok_bind, walked, ne_eq, not_true_eq_false, if_false]
      exact ⟨r, rfl, highest⟩

end Fork

/-! ## `GetLocator` -/

/-- The distance from the `i`-th entry of a locator to the next: one for the first eleven steps, then doubling. -/
def locatorStep (i : Nat) : Nat :=
  if i < 11 then 1 else 2 ^ (i - 10)

theorem locatorStep_pos (i : Nat) : 0 < locatorStep i := by
  unfold locatorStep
  split
  · omega
  · exact Nat.two_pow_pos _

/-- `nStep` doubles once the locator has more than ten entries. -/
theorem locatorStep_succ (i : Nat) :
    locatorStep (i + 1) = if i + 1 > 10 then locatorStep i * 2 else locatorStep i := by
  unfold locatorStep
  by_cases early : i < 10
  · rw [if_pos (by omega), if_neg (by omega), if_pos (by omega)]
  · by_cases eleventh : i = 10
    · subst eleventh
      rfl
    · rw [if_neg (by omega), if_pos (by omega), if_neg (by omega),
        show i + 1 - 10 = (i - 10) + 1 by omega, Nat.pow_succ]

/--
The heights a locator lists from its `index`-th entry on, that entry being
at `height`: each next entry is `locatorStep` lower, but not below zero,
where the locator ends.
-/
def locatorHeights (index height : Nat) : List Nat :=
  if height = 0 then [0]
  else height :: locatorHeights (index + 1) (height - locatorStep index)
termination_by height
decreasing_by
  have := locatorStep_pos index
  omega

theorem locatorHeights_zero (index : Nat) : locatorHeights index 0 = [0] := by
  rw [locatorHeights, if_pos rfl]

theorem locatorHeights_of_ne {index height : Nat} (pos : height ≠ 0) :
    locatorHeights index height = height :: locatorHeights (index + 1) (height - locatorStep index) := by
  rw [locatorHeights, if_neg pos]

theorem head?_locatorHeights (index height : Nat) :
    (locatorHeights index height).head? = some height := by
  by_cases zero : height = 0
  · rw [zero, locatorHeights_zero]
    rfl
  · rw [locatorHeights_of_ne zero]
    rfl

theorem getLast?_locatorHeights (index height : Nat) :
    (locatorHeights index height).getLast? = some 0 := by
  induction height using Nat.strong_induction_on generalizing index with
  | _ height ih =>
      by_cases zero : height = 0
      · rw [zero, locatorHeights_zero]
        rfl
      · have lower : height - locatorStep index < height := by
          have := locatorStep_pos index
          omega
        rw [locatorHeights_of_ne zero, List.getLast?_cons, ih _ lower]
        rfl

/-- A locator drops at every step, by `locatorStep` of the position except at the last step, which stops at zero. -/
theorem locatorHeights_step (index height : Nat) :
    ∀ i x y, (locatorHeights index height)[i]? = some x →
      (locatorHeights index height)[i + 1]? = some y →
      y < x ∧ x - y ≤ locatorStep (index + i) ∧
        (i + 2 < (locatorHeights index height).length → x - y = locatorStep (index + i)) := by
  induction height using Nat.strong_induction_on generalizing index with
  | _ height ih =>
      intro i x y atI atNext
      by_cases zero : height = 0
      · rw [zero, locatorHeights_zero] at atNext
        simp at atNext
      · have stepPos := locatorStep_pos index
        rw [locatorHeights_of_ne zero] at atI atNext ⊢
        cases i with
        | zero =>
            rw [List.getElem?_cons_zero] at atI
            rw [List.getElem?_cons_succ, ← List.head?_eq_getElem?, head?_locatorHeights] at atNext
            cases atI
            cases atNext
            rw [Nat.add_zero]
            refine ⟨by omega, by omega, fun longer => ?_⟩
            have notLast : height - locatorStep index ≠ 0 := by
              intro last
              rw [last, locatorHeights_zero] at longer
              simp at longer
            omega
        | succ j =>
            rw [List.getElem?_cons_succ] at atI atNext
            have shifted : index + (j + 1) = index + 1 + j := by omega
            rw [shifted, List.length_cons]
            obtain ⟨drops, le, eq⟩ := ih (height - locatorStep index) (by omega) (index + 1) j x y
              atI atNext
            exact ⟨drops, le, fun longer => eq (by omega)⟩

theorem hashOf_of_getElem? {tree : BlockTree} {pindex : Nat} {entry : CBlockIndex}
    (found : tree[pindex]? = some entry) : hashOf tree pindex = entry.hashBlock := by
  simp [hashOf, found]

/-- What `GetLocator(p)` promises of the entries whose hashes it lists. -/
structure LocatorOf (tree : BlockTree) (p : Nat) (entries : List Nat) : Prop where
  head : entries.head? = some p
  ancestor : ∀ e ∈ entries, IsAncestor (parentOf tree) e p
  genesis : ∃ g, entries.getLast? = some g ∧ heightOf tree g = 0
  descending : ∀ (i e e' : Nat), entries[i]? = some e → entries[i + 1]? = some e' →
    heightOf tree e' < heightOf tree e
  /-- Every step but the last goes back `locatorStep` heights. -/
  spacing : ∀ (i e e' : Nat), entries[i]? = some e → entries[i + 1]? = some e' → i + 2 < entries.length →
    heightOf tree e - heightOf tree e' = locatorStep i
  /-- The last step goes back no further, to height zero. -/
  last_step : ∀ (i e e' : Nat), entries[i]? = some e → entries[i + 1]? = some e' →
    heightOf tree e - heightOf tree e' ≤ locatorStep i

/-- Entries whose heights are those of a locator from `p`, all ancestors of `p`, form a locator. -/
theorem LocatorOf.of_heights {tree : BlockTree} {p : Nat} {entries : List Nat}
    (head : entries.head? = some p) (ancestor : ∀ e ∈ entries, IsAncestor (parentOf tree) e p)
    (heights : entries.map (heightOf tree) = locatorHeights 0 (heightOf tree p)) :
    LocatorOf tree p entries := by
  have atHeight : ∀ (i e : Nat), entries[i]? = some e →
      (locatorHeights 0 (heightOf tree p))[i]? = some (heightOf tree e) := by
    intro i e found
    rw [← heights, List.getElem?_map, found]
    rfl
  have length : entries.length = (locatorHeights 0 (heightOf tree p)).length := by
    rw [← heights, List.length_map]
  have step := locatorHeights_step 0 (heightOf tree p)
  simp only [Nat.zero_add] at step
  refine ⟨head, ancestor, ?_, ?_, ?_, ?_⟩
  · have last := getLast?_locatorHeights 0 (heightOf tree p)
    rw [← heights, List.getLast?_map, Option.map_eq_some_iff] at last
    exact last
  · intro i e e' atI atNext
    exact (step i _ _ (atHeight i e atI) (atHeight (i + 1) e' atNext)).1
  · intro i e e' atI atNext longer
    exact (step i _ _ (atHeight i e atI) (atHeight (i + 1) e' atNext)).2.2 (by omega)
  · intro i e e' atI atNext
    exact (step i _ _ (atHeight i e atI) (atHeight (i + 1) e' atNext)).2.1

section Locator

variable {tree : BlockTree} (wf : WellFormed tree)
include wf

/-- Both ways `GetLocator` steps back, through the chain or through `GetAncestor`, reach the ancestor of `q` at `nHeight`. -/
theorem locatorNext_eq {t q nHeight : Nat} (valid : q < tree.length)
    (le : nHeight ≤ heightOf tree q) (inChain : Bool)
    (meaning : inChain = true ↔ IsAncestor (parentOf tree) q t) {β : Type}
    (next : Option Nat → Except Fault β) :
    (if inChain = true then pure ((chainOf tree t).get nHeight) >>= next
      else getAncestor tree q nHeight >>= next) =
      next (climb (parentOf tree) (heightOf tree q - nHeight) q) := by
  cases inChain with
  | true =>
      rw [if_pos rfl, get_chainOf wf (meaning.1 rfl) le]
      rfl
  | false => rw [if_neg Bool.false_ne_true, getAncestor_eq_climb wf valid le, ok_bind]

/--
The loop of `GetLocator` on the chain of `t`, from `q` with `nStep` the step
for the next entry, lists the hashes of ancestors of `q` at the heights of a
locator.  The induction is on the fuel, which exceeds the height of `q`.
-/
theorem locatorWalk_eq (t : Nat) :
    ∀ (fuel q : Nat) (vHave : List UInt256), q < tree.length → heightOf tree q < fuel →
      ∃ entries : List Nat,
        (chainOf tree t).locatorWalk tree fuel (some q) (locatorStep vHave.length) vHave =
          .ok (vHave ++ entries.map (hashOf tree)) ∧
        entries.head? = some q ∧ (∀ e ∈ entries, IsAncestor (parentOf tree) e q) ∧
        entries.map (heightOf tree) = locatorHeights vHave.length (heightOf tree q) := by
  intro fuel
  induction fuel with
  | zero =>
      intro q vHave _ short
      omega
  | succ fuel ih =>
      intro q vHave valid short
      obtain ⟨entry, found⟩ : ∃ entry, tree[q]? = some entry := ⟨_, List.getElem?_eq_getElem valid⟩
      have atHeight := heightOf_of_getElem? found
      rw [CChain.locatorWalk, deref_of_getElem? found, ok_bind]
      by_cases genesis : entry.nHeight = 0
      · rw [if_pos genesis]
        refine ⟨[q], by rw [List.map_singleton, hashOf_of_getElem? found]; rfl, rfl, ?_, ?_⟩
        · intro e member
          rw [List.mem_singleton.1 member]
          exact .refl q
        · rw [List.map_singleton, atHeight, genesis, locatorHeights_zero]
      · rw [if_neg genesis]
        obtain ⟨inChain, contained, meaning⟩ := contains_chainOf wf (t := t) valid
        rw [contained, ok_bind, ← atHeight]
        dsimp only
        rw [locatorNext_eq wf valid (Nat.sub_le _ _) inChain meaning]
        obtain ⟨q', climbed⟩ := wf.graded.climb_isSome
          (n := heightOf tree q - (heightOf tree q - locatorStep vHave.length)) (a := q) (by omega)
        have lowered := wf.graded.height_climb climbed
        have valid' := wf.climb_lt_length valid climbed
        have stepPos := locatorStep_pos vHave.length
        rw [climbed]
        have nStep : (if (vHave ++ [entry.hashBlock]).length > 10 then locatorStep vHave.length * 2
            else locatorStep vHave.length) = locatorStep (vHave ++ [entry.hashBlock]).length := by
          rw [List.length_append, List.length_singleton, locatorStep_succ]
        rw [nStep]
        obtain ⟨entries, walked, head, ancestor, heights⟩ :=
          ih q' (vHave ++ [entry.hashBlock]) valid' (by omega)
        refine ⟨q :: entries, ?_, rfl, ?_, ?_⟩
        · rw [walked, List.map_cons, hashOf_of_getElem? found, List.append_assoc]
          rfl
        · intro e member
          rcases List.mem_cons.1 member with rfl | later
          · exact .refl e
          · exact (ancestor e later).trans ⟨_, climbed⟩
        · rw [List.map_cons, heights, List.length_append, List.length_singleton,
            locatorHeights_of_ne (show heightOf tree q ≠ 0 by omega)]
          congr 2
          omega

/-- `GetLocator(p)` on the chain of `t` lists a locator from `p`. -/
theorem getLocator_eq (t : Nat) {p : Nat} (valid : p < tree.length) :
    ∃ entries : List Nat, (chainOf tree t).getLocator tree (some p) = .ok ⟨entries.map (hashOf tree)⟩ ∧
      LocatorOf tree p entries := by
  obtain ⟨entries, walked, head, ancestor, heights⟩ :=
    locatorWalk_eq wf t tree.length p [] valid (Nat.lt_of_le_of_lt wf.heightOf_le valid)
  refine ⟨entries, ?_, .of_heights head ancestor heights⟩
  have walked' : (chainOf tree t).locatorWalk tree tree.length (some p) 1 [] =
      .ok (entries.map (hashOf tree)) := walked
  rw [CChain.getLocator, walked']
  rfl

end Locator

/-! ## The chain after `SetTip` -/

/-- What the chain with tip `t` answers. -/
structure Answers (tree : BlockTree) (t : Nat) (chain : CChain) : Prop where
  /-- `operator[]` agrees with `GetAncestor` of the tip at each of its heights. -/
  get : ∀ h : Int, 0 ≤ h → h ≤ heightOf tree t → getAncestor tree t h = .ok (chain.get h)
  /-- `FindFork(p)` returns the highest ancestor of `p` in the chain. -/
  findFork : ∀ p, p < tree.length → ∃ r, chain.findFork tree (some p) = .ok r ∧
    IsHighest (heightOf tree) (fun c => IsAncestor (parentOf tree) c p ∧ some c ∈ chain.vChain) r
  /-- `GetLocator(p)` lists the hashes of a locator from `p`. -/
  getLocator : ∀ p, p < tree.length → ∃ entries : List Nat,
    chain.getLocator tree (some p) = .ok ⟨entries.map (hashOf tree)⟩ ∧ LocatorOf tree p entries

theorem chainOf_answers {tree : BlockTree} (wf : WellFormed tree) {t : Nat} (valid : t < tree.length) :
    Answers tree t (chainOf tree t) where
  get h nonneg le := by
    rw [← Int.toNat_of_nonneg nonneg, getAncestor_eq_climb wf valid (by omega),
      get_chainOf wf (.refl t) (by omega)]
  findFork p validP := by
    obtain ⟨r, forked, highest⟩ := findFork_eq wf t validP
    exact ⟨r, forked, highest.of_iff fun c => and_congr Iff.rfl (mem_chainOf wf)⟩
  getLocator p validP := getLocator_eq wf t validP

/--
From every state that linking blocks and `SetTip` reach, `SetTip(t)` for an
entry `t` leaves the chain with height `t.nHeight` whose `operator[]`
agrees with `t.GetAncestor`, whose `FindFork` finds the highest ancestor in
the chain and whose `GetLocator` lists a locator; and `LastCommonAncestor`
returns the highest common ancestor of any two entries.
-/
theorem setTip_chain_answers {tree : BlockTree} {chain : CChain} (reach : Reachable tree chain)
    {t : Nat} {entry : CBlockIndex} (found : tree[t]? = some entry) :
    ∃ chain', chain.setTip tree (some t) = .ok chain' ∧ Reachable tree chain' ∧
      chain'.height = entry.nHeight ∧ Answers tree t chain' ∧
      ∀ a b, a < tree.length → b < tree.length → ∃ r, lastCommonAncestor tree a b = .ok r ∧
        IsHighest (heightOf tree) (Common (parentOf tree) a b) r := by
  obtain ⟨wf, tracks⟩ := reach.invariant
  have valid : t < tree.length := (List.getElem?_eq_some_iff.1 found).1
  have moved := setTip_eq wf tracks valid
  refine ⟨chainOf tree t, moved, .setTip _ reach moved, ?_, chainOf_answers wf valid,
    fun a b validA validB => lastCommonAncestor_eq wf validA validB⟩
  rw [height_chainOf, heightOf_of_getElem? found]

theorem setTip_chain_answers_threeBlocks :
    Reachable threeBlocks ⟨[]⟩ ∧ threeBlocks[2]? = some blockTwo ∧
      ∃ chain', CChain.setTip ⟨[]⟩ threeBlocks (some 2) = .ok chain' ∧
        Reachable threeBlocks chain' ∧ chain'.height = blockTwo.nHeight ∧
        Answers threeBlocks 2 chain' ∧
        ∀ a b, a < threeBlocks.length → b < threeBlocks.length →
          ∃ r, lastCommonAncestor threeBlocks a b = .ok r ∧
            IsHighest (heightOf threeBlocks) (Common (parentOf threeBlocks) a b) r :=
  ⟨.start threeBlocks_built.wellFormed, rfl,
    setTip_chain_answers (.start threeBlocks_built.wellFormed) rfl⟩

end Dogecoin.Chain
