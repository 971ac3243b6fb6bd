import Dogecoin.Chain.SkipList
import Mathlib.Data.List.Sort
import Mathlib.Data.Int.Bitwise

/-!
# Deployment states

`AbstractThresholdConditionChecker` (versionbits.cpp) gives each period of
`nPeriod` blocks a BIP9 `ThresholdState`.  The state of a block is that of
the first block of its period, computed from the last block of the period
before.  `GetStateFor` memoizes these states in a `ThresholdConditionCache`
keyed by that last block: it walks back a period at a time to a state it
knows, then forward, setting each state from the one before by the BIP9
`switch`.  The walk back also stops at a block whose median time past is
before `nTimeStart`, taking it to be `DEFINED`.

`periodState` says what the state of each period is: `DEFINED` for the
first period and for every period whose previous block's median time past
is before the start, otherwise the `switch` applied to the state before.
Every cache that holds only such states is `Consistent`; `GetStateFor` and
`GetStateSinceHeightFor` keep it so and return the `periodState` answer,
whatever the cache held, so their answers never depend on the memoization.

Along a chain whose median times past never decrease, the states move only
by the BIP9 transitions.  Without that, the start-time cut of the walk back
can take a chain from `STARTED` back to `DEFINED`.
-/

namespace Dogecoin.Chain

open Dogecoin.Primitives Ancestry ExceptSpec

/-- `ThresholdState`: the BIP9 state of a deployment. -/
inductive ThresholdState
  | THRESHOLD_DEFINED
  | THRESHOLD_STARTED
  | THRESHOLD_LOCKED_IN
  | THRESHOLD_ACTIVE
  | THRESHOLD_FAILED
deriving DecidableEq, Repr

open ThresholdState

/--
An `AbstractThresholdConditionChecker` under one `Consensus::Params`: its
`Period`, `Threshold`, `BeginTime`, `EndTime` and `Condition`.  A period
holds at least one block.
-/
structure ThresholdConditionChecker where
  nPeriod : Nat
  nThreshold : Int
  nTimeStart : Int
  nTimeTimeout : Int
  condition : CBlockIndex → Bool
  period_pos : 0 < nPeriod

/-- `ThresholdConditionCache`: the known states, by the last block of the period before (`NULL` for the first). -/
abbrev ThresholdConditionCache := Option Nat → Option ThresholdState

/-! ## Median time past -/

/-- The times of up to `count` entries from `pindex` back along `pprev`. -/
def blockTimes (tree : BlockTree) : (count : Nat) → Option Nat → Except Fault (List Int)
  | 0, _ => pure []
  | _ + 1, none => pure []
  | count + 1, some pindex => do
      let entry ← deref tree pindex
      let times ← blockTimes tree count entry.pprev
      pure ((entry.nTime : Int) :: times)

/-- `CBlockIndex::GetMedianTimePast`: the median of the times of the entry and the ten before it, or its own time where the chain does not use median time past. -/
def getMedianTimePast (useMedianTimePast : Bool) (tree : BlockTree) (pindex : Nat) :
    Except Fault Int := do
  let entry ← deref tree pindex
  if !useMedianTimePast then pure entry.nTime
  else
    -- `std::sort`: any sort gives the same list
    let pmedian := (← blockTimes tree 11 (some pindex)).insertionSort (· ≤ ·)
    pure (pmedian.getD (pmedian.length / 2) 0)

/-! ## `GetStateFor` -/

namespace ThresholdConditionChecker

variable (checker : ThresholdConditionChecker) (useMedianTimePast : Bool) (tree : BlockTree)

/-- The last block of the period before the block after `pindexPrev`: `pindexPrev->GetAncestor(pindexPrev->nHeight - ((pindexPrev->nHeight + 1) % nPeriod))`. -/
def alignPrev : Option Nat → Except Fault (Option Nat)
  | none => pure none
  | some pindexPrev => do
      let entry ← deref tree pindexPrev
      getAncestor tree pindexPrev
        ((entry.nHeight : Int) - (((entry.nHeight + 1) % checker.nPeriod : Nat) : Int))

/-- The backward loop of `GetStateFor`: a period back at a time, collecting the blocks to compute (the last collected first), to a block whose state is known. -/
def walkBack : (fuel : Nat) → Option Nat → List Nat → ThresholdConditionCache →
    Except Fault (Option Nat × List Nat × ThresholdConditionCache)
  | fuel, pindexPrev, vToCompute, cache =>
      if (cache pindexPrev).isSome then pure (pindexPrev, vToCompute, cache)
      else match pindexPrev with
        -- the genesis block is by definition defined
        | none => pure (none, vToCompute, Function.update cache none (some THRESHOLD_DEFINED))
        | some pindex => do
            let mtp ← getMedianTimePast useMedianTimePast tree pindex
            -- every earlier block is taken to be before the start time
            if mtp < checker.nTimeStart then
              pure (some pindex, vToCompute,
                Function.update cache (some pindex) (some THRESHOLD_DEFINED))
            else match fuel with
              | 0 => throw .outOfFuel
              | fuel + 1 => do
                  let entry ← deref tree pindex
                  let previous ← getAncestor tree pindex ((entry.nHeight : Int) - checker.nPeriod)
                  walkBack fuel previous (pindex :: vToCompute) cache

/-- The count of `GetStateFor`: how many of `remaining` blocks from `pindexCount` back satisfy `Condition`. -/
def countCondition : (remaining : Nat) → Option Nat → Except Fault Nat
  | 0, _ => pure 0
  | remaining + 1, pindexCount => do
      let some pindex := pindexCount | throw .dangling
      let entry ← deref tree pindex
      let count ← countCondition remaining entry.pprev
      pure ((if checker.condition entry then 1 else 0) + count)

/-- The `switch` of `GetStateFor`: the state of the period after `pindexPrev` from that of the period before. -/
def nextState (state : ThresholdState) (pindexPrev : Nat) : Except Fault ThresholdState :=
  match state with
  | THRESHOLD_DEFINED => do
      let mtp ← getMedianTimePast useMedianTimePast tree pindexPrev
      if mtp ≥ checker.nTimeTimeout then pure THRESHOLD_FAILED
      else if mtp ≥ checker.nTimeStart then pure THRESHOLD_STARTED
      else pure THRESHOLD_DEFINED
  | THRESHOLD_STARTED => do
      let mtp ← getMedianTimePast useMedianTimePast tree pindexPrev
      if mtp ≥ checker.nTimeTimeout then pure THRESHOLD_FAILED
      else
        let count ← checker.countCondition tree checker.nPeriod (some pindexPrev)
        if (count : Int) ≥ checker.nThreshold then pure THRESHOLD_LOCKED_IN
        else pure THRESHOLD_STARTED
  -- always progresses into `ACTIVE`
  | THRESHOLD_LOCKED_IN => pure THRESHOLD_ACTIVE
  -- terminal states
  | THRESHOLD_FAILED => pure THRESHOLD_FAILED
  | THRESHOLD_ACTIVE => pure THRESHOLD_ACTIVE

/-- The forward loop of `GetStateFor`: compute and cache the states of the collected blocks, earliest first. -/
def walkForward : List Nat → ThresholdState → ThresholdConditionCache →
    Except Fault (ThresholdState × ThresholdConditionCache)
  | [], state, cache => pure (state, cache)
  | pindexPrev :: vToCompute, state, cache => do
      let stateNext ← checker.nextState useMedianTimePast tree state pindexPrev
      walkForward vToCompute stateNext (Function.update cache (some pindexPrev) (some stateNext))

/-- `GetStateFor(pindexPrev)`: the state of the block after `pindexPrev`. -/
def getStateFor (pindexPrev : Option Nat) (cache : ThresholdConditionCache) :
    Except Fault (ThresholdState × ThresholdConditionCache) := do
  let pindexPrev ← checker.alignPrev tree pindexPrev
  let (pindexPrev, vToCompute, cache) ←
    checker.walkBack useMedianTimePast tree tree.length pindexPrev [] cache
  -- at this point, `cache[pindexPrev]` is known
  let some state := cache pindexPrev | throw .assertion
  checker.walkForward useMedianTimePast tree vToCompute state cache

/-- The loop of `GetStateSinceHeightFor`: back a period at a time while the period before has the same state. -/
def sinceWalk (initialState : ThresholdState) : (fuel : Nat) → Nat → Option Nat →
    ThresholdConditionCache → Except Fault (Nat × ThresholdConditionCache)
  | _, pindexPrev, none, cache => pure (pindexPrev, cache)
  | fuel, pindexPrev, some previousPeriodParent, cache => do
      let (state, cache) ← checker.getStateFor useMedianTimePast tree (some previousPeriodParent) cache
      if state = initialState then
        match fuel with
        | 0 => throw .outOfFuel
        | fuel + 1 => do
            let entry ← deref tree previousPeriodParent
            let previous ←
              getAncestor tree previousPeriodParent ((entry.nHeight : Int) - checker.nPeriod)
            sinceWalk initialState fuel previousPeriodParent previous cache
      else pure (pindexPrev, cache)

/-- `GetStateSinceHeightFor(pindexPrev)`: the first height of the run of periods, up to the block after `pindexPrev`, in its state. -/
def getStateSinceHeightFor (pindexPrev : Option Nat) (cache : ThresholdConditionCache) :
    Except Fault (Nat × ThresholdConditionCache) := do
  let (initialState, cache) ← checker.getStateFor useMedianTimePast tree pindexPrev cache
  -- the genesis block is by definition in `DEFINED`
  if initialState = THRESHOLD_DEFINED then pure (0, cache)
  else
    let some pindexPrev ← checker.alignPrev tree pindexPrev | throw .dangling
    let entry ← deref tree pindexPrev
    let previousPeriodParent ← getAncestor tree pindexPrev ((entry.nHeight : Int) - checker.nPeriod)
    let (pindexPrev, cache) ← checker.sinceWalk useMedianTimePast tree initialState tree.length
      pindexPrev previousPeriodParent cache
    -- the run starts at the block after its parent
    let entry ← deref tree pindexPrev
    pure (entry.nHeight + 1, cache)

/-! ## The state of each period -/

/-- The `switch` of `GetStateFor` from the median time past and the count of the period's last block. -/
def transition (state : ThresholdState) (mtp : Int) (count : Nat) : ThresholdState :=
  match state with
  | THRESHOLD_DEFINED =>
      if mtp ≥ checker.nTimeTimeout then THRESHOLD_FAILED
      else if mtp ≥ checker.nTimeStart then THRESHOLD_STARTED
      else THRESHOLD_DEFINED
  | THRESHOLD_STARTED =>
      if mtp ≥ checker.nTimeTimeout then THRESHOLD_FAILED
      else if (count : Int) ≥ checker.nThreshold then THRESHOLD_LOCKED_IN
      else THRESHOLD_STARTED
  | THRESHOLD_LOCKED_IN => THRESHOLD_ACTIVE
  | THRESHOLD_FAILED => THRESHOLD_FAILED
  | THRESHOLD_ACTIVE => THRESHOLD_ACTIVE

/-- The count `GetStateFor` takes for the period ending at `pindex`. -/
def countOf (pindex : Nat) : Nat :=
  match checker.countCondition tree checker.nPeriod (some pindex) with
  | .ok count => count
  | .error _ => 0

/-- The period of the block after `pindex`. -/
def periodOf (pindex : Nat) : Nat :=
  (heightOf tree pindex + 1) / checker.nPeriod

/-- The last block before the `k`-th period on the chain of `p`, at height `k * nPeriod - 1`; `NULL` for the first period. -/
def periodLast (p k : Nat) : Option Nat :=
  if k = 0 then none else climb (parentOf tree) (heightOf tree p + 1 - k * checker.nPeriod) p

@[simp]
theorem periodLast_zero (p : Nat) : checker.periodLast tree p 0 = none :=
  if_pos rfl

end ThresholdConditionChecker

/-- The median time past `GetMedianTimePast` returns for `pindex`. -/
def medianTimeOf (useMedianTimePast : Bool) (tree : BlockTree) (pindex : Nat) : Int :=
  match getMedianTimePast useMedianTimePast tree pindex with
  | .ok mtp => mtp
  | .error _ => 0

namespace ThresholdConditionChecker

variable (checker : ThresholdConditionChecker) (useMedianTimePast : Bool) (tree : BlockTree)

/--
The state of the `k`-th period on the chain of `p`: `DEFINED` for the first
period and wherever the median time past of the block before the period is
before the start, and otherwise the `switch` applied to the state of the
period before.
-/
def periodState (p : Nat) : Nat → ThresholdState
  | 0 => THRESHOLD_DEFINED
  | k + 1 =>
      match checker.periodLast tree p (k + 1) with
      | none => THRESHOLD_DEFINED
      | some last =>
          if medianTimeOf useMedianTimePast tree last < checker.nTimeStart then THRESHOLD_DEFINED
          else checker.transition (periodState p k) (medianTimeOf useMedianTimePast tree last)
            (checker.countOf tree last)

/-- What `GetStateFor(pindexPrev)` is to return. -/
def stateFor : Option Nat → ThresholdState
  | none => THRESHOLD_DEFINED
  | some p => checker.periodState useMedianTimePast tree p (checker.periodOf tree p)

end ThresholdConditionChecker

/-! ## The helpers do not fail on a well-formed tree -/

section Helpers

variable {tree : BlockTree} (wf : WellFormed tree)
include wf

theorem blockTimes_ok : ∀ (count : Nat) (pindex : Option Nat),
    (∀ p, pindex = some p → p < tree.length) → ∃ times, blockTimes tree count pindex = .ok times := by
  intro count
  induction count with
  | zero => exact fun _ _ => ⟨[], rfl⟩
  | succ count ih =>
      intro pindex valid
      cases pindex with
      | none => exact ⟨[], rfl⟩
      | some p =>
          obtain ⟨entry, found⟩ : ∃ entry, tree[p]? = some entry :=
            ⟨_, List.getElem?_eq_getElem (valid p rfl)⟩
          obtain ⟨times, rest⟩ := ih entry.pprev fun pp up =>
            Nat.lt_trans (wf.prev_lt found up) (valid p rfl)
          exact ⟨_, by rw [blockTimes, deref_of_getElem? found, ok_bind, rest, ok_bind]; rfl⟩

theorem getMedianTimePast_eq (useMedianTimePast : Bool) {p : Nat} (valid : p < tree.length) :
    getMedianTimePast useMedianTimePast tree p = .ok (medianTimeOf useMedianTimePast tree p) := by
  obtain ⟨entry, found⟩ : ∃ entry, tree[p]? = some entry := ⟨_, List.getElem?_eq_getElem valid⟩
  obtain ⟨times, collected⟩ := blockTimes_ok wf 11 (some p) fun _ same => by
    cases same
    exact valid
  have computed : ∃ mtp, getMedianTimePast useMedianTimePast tree p = .ok mtp := by
    rw [getMedianTimePast, deref_of_getElem? found, ok_bind]
    cases useMedianTimePast with
    | false => exact ⟨_, rfl⟩
    | true => exact ⟨_, by rw [Bool.not_true, if_neg Bool.false_ne_true, collected]; rfl⟩
  obtain ⟨mtp, result⟩ := computed
  rw [medianTimeOf, result]

theorem countCondition_eq (checker : ThresholdConditionChecker) {p : Nat} (valid : p < tree.length)
    (tall : checker.nPeriod ≤ heightOf tree p + 1) :
    checker.countCondition tree checker.nPeriod (some p) = .ok (checker.countOf tree p) := by
  have counts : ∀ (remaining p : Nat), p < tree.length → remaining ≤ heightOf tree p + 1 →
      ∃ count, checker.countCondition tree remaining (some p) = .ok count := by
    intro remaining
    induction remaining with
    | zero => exact fun _ _ _ => ⟨0, rfl⟩
    | succ remaining ih =>
        intro p valid tall
        obtain ⟨entry, found⟩ : ∃ entry, tree[p]? = some entry :=
          ⟨_, List.getElem?_eq_getElem valid⟩
        have rest : ∃ count, checker.countCondition tree remaining entry.pprev = .ok count := by
          cases remaining with
          | zero => exact ⟨0, rfl⟩
          | succ remaining =>
              cases prev : entry.pprev with
              | none =>
                  have := wf.height_root found prev
                  rw [heightOf_of_getElem? found] at tall
                  omega
              | some pp =>
                  have lower := wf.height_prev found prev
                  rw [heightOf_of_getElem? found] at tall
                  exact ih pp (Nat.lt_trans (wf.prev_lt found prev) valid) (by omega)
        obtain ⟨count, counted⟩ := rest
        exact ⟨_, by rw [ThresholdConditionChecker.countCondition, deref_of_getElem? found, ok_bind,
          counted, ok_bind]; rfl⟩
  obtain ⟨count, counted⟩ := counts checker.nPeriod p valid tall
  rw [ThresholdConditionChecker.countOf, counted]

/-- On the last block of a period the `switch` of `GetStateFor` is `transition`. -/
theorem nextState_eq (checker : ThresholdConditionChecker) (useMedianTimePast : Bool) {p : Nat}
    (valid : p < tree.length) (tall : checker.nPeriod ≤ heightOf tree p + 1) (state : ThresholdState) :
    checker.nextState useMedianTimePast tree state p =
      .ok (checker.transition state (medianTimeOf useMedianTimePast tree p) (checker.countOf tree p)) := by
  cases state with
  | THRESHOLD_DEFINED =>
      rw [ThresholdConditionChecker.nextState, getMedianTimePast_eq wf useMedianTimePast valid, ok_bind,
        ThresholdConditionChecker.transition]
      split <;> (try split) <;> rfl
  | THRESHOLD_STARTED =>
      rw [ThresholdConditionChecker.nextState, getMedianTimePast_eq wf useMedianTimePast valid, ok_bind,
        ThresholdConditionChecker.transition]
      split
      · rfl
      · rw [countCondition_eq wf checker valid tall, ok_bind]
        split <;> rfl
  | THRESHOLD_LOCKED_IN => rfl
  | THRESHOLD_ACTIVE => rfl
  | THRESHOLD_FAILED => rfl

end Helpers

/-! ## Periods on a chain -/

theorem periodOf_of_aligned {tree : BlockTree} (checker : ThresholdConditionChecker) {last k : Nat}
    (aligned : heightOf tree last + 1 = k * checker.nPeriod) : checker.periodOf tree last = k := by
  rw [ThresholdConditionChecker.periodOf, aligned, Nat.mul_div_cancel _ checker.period_pos]

section Periods

variable {tree : BlockTree} (wf : WellFormed tree) (checker : ThresholdConditionChecker)
include wf

/-- Up to the period of `p`, each period of its chain has its last block before it, an ancestor of `p`. -/
theorem periodLast_spec {p k : Nat} (valid : p < tree.length) (pos : 0 < k)
    (le : k ≤ checker.periodOf tree p) :
    ∃ last, checker.periodLast tree p k = some last ∧ IsAncestor (parentOf tree) last p ∧
      heightOf tree last + 1 = k * checker.nPeriod ∧ last < tree.length := by
  have fits : k * checker.nPeriod ≤ heightOf tree p + 1 :=
    (Nat.mul_le_mul_right _ le).trans (Nat.div_mul_le_self _ _)
  have one : 0 < k * checker.nPeriod := Nat.mul_pos pos checker.period_pos
  obtain ⟨last, climbed⟩ := wf.graded.climb_isSome
    (n := heightOf tree p + 1 - k * checker.nPeriod) (a := p) (by omega)
  have lowered := wf.graded.height_climb climbed
  refine ⟨last, ?_, ⟨_, climbed⟩, by omega, wf.climb_lt_length valid climbed⟩
  rw [ThresholdConditionChecker.periodLast, if_neg (by omega), climbed]

/-- A period's last block before it is the same on the chain of every descendant. -/
theorem periodLast_of_isAncestor {p q k : Nat} (anc : IsAncestor (parentOf tree) q p) (pos : 0 < k)
    (fits : k * checker.nPeriod ≤ heightOf tree q + 1) :
    checker.periodLast tree p k = checker.periodLast tree q k := by
  have one : 0 < k * checker.nPeriod := Nat.mul_pos pos checker.period_pos
  have below := (wf.graded.climb_of_isAncestor anc).1
  have same := wf.graded.climb_sub_of_isAncestor anc (h := k * checker.nPeriod - 1) (by omega)
  rw [ThresholdConditionChecker.periodLast, ThresholdConditionChecker.periodLast, if_neg (by omega),
    if_neg (by omega), show heightOf tree p + 1 - k * checker.nPeriod =
      heightOf tree p - (k * checker.nPeriod - 1) by omega,
    show heightOf tree q + 1 - k * checker.nPeriod = heightOf tree q - (k * checker.nPeriod - 1) by
      omega, same]

/-- The states of the periods up to that of an ancestor are the same on the chains of both. -/
theorem periodState_of_isAncestor (useMedianTimePast : Bool) {p q : Nat}
    (anc : IsAncestor (parentOf tree) q p) :
    ∀ k, k * checker.nPeriod ≤ heightOf tree q + 1 →
      checker.periodState useMedianTimePast tree p k = checker.periodState useMedianTimePast tree q k := by
  intro k
  induction k with
  | zero => exact fun _ => rfl
  | succ k ih =>
      intro fits
      rw [ThresholdConditionChecker.periodState, ThresholdConditionChecker.periodState,
        periodLast_of_isAncestor wf checker anc (Nat.succ_pos k) fits,
        ih ((Nat.mul_le_mul_right _ (Nat.le_succ k)).trans fits)]

/-- The state of the block after the last block of a period is the state of the next period on every chain through it. -/
theorem stateFor_of_aligned (useMedianTimePast : Bool) {p last k : Nat}
    (anc : IsAncestor (parentOf tree) last p) (aligned : heightOf tree last + 1 = k * checker.nPeriod) :
    checker.stateFor useMedianTimePast tree (some last) = checker.periodState useMedianTimePast tree p k := by
  rw [ThresholdConditionChecker.stateFor, periodOf_of_aligned checker aligned,
    periodState_of_isAncestor wf checker useMedianTimePast anc k (by omega)]

/-- `GetStateFor` first goes to the last block before the period of the block after `p`. -/
theorem alignPrev_eq {p : Nat} (valid : p < tree.length) :
    checker.alignPrev tree (some p) = .ok (checker.periodLast tree p (checker.periodOf tree p)) := by
  obtain ⟨entry, found⟩ : ∃ entry, tree[p]? = some entry := ⟨_, List.getElem?_eq_getElem valid⟩
  have atHeight := heightOf_of_getElem? found
  have split := Nat.div_add_mod (heightOf tree p + 1) checker.nPeriod
  have modLt := Nat.mod_lt (heightOf tree p + 1) checker.period_pos
  rw [Nat.mul_comm] at split
  rw [ThresholdConditionChecker.alignPrev, deref_of_getElem? found, ok_bind, ← atHeight,
    ThresholdConditionChecker.periodLast, ThresholdConditionChecker.periodOf]
  generalize (heightOf tree p + 1) / checker.nPeriod = periods at split ⊢
  generalize (heightOf tree p + 1) % checker.nPeriod = rest at split modLt ⊢
  by_cases first : periods = 0
  · subst first
    rw [if_pos rfl, getAncestor_eq_none found (by omega)]
  · have one : 0 < periods * checker.nPeriod := Nat.mul_pos (by omega) checker.period_pos
    rw [if_neg first, show (heightOf tree p : Int) - (rest : Int) =
        ((periods * checker.nPeriod - 1 : Nat) : Int) by omega,
      getAncestor_eq_climb wf valid (show periods * checker.nPeriod - 1 ≤ heightOf tree p by omega),
      show heightOf tree p - (periods * checker.nPeriod - 1) =
        heightOf tree p + 1 - periods * checker.nPeriod by omega]

/-- From the last block before period `k + 1`, `GetAncestor(nHeight - nPeriod)` is the last block before period `k`. -/
theorem previousPeriod_eq {p k last : Nat} (valid : p < tree.length) (le : k + 1 ≤ checker.periodOf tree p)
    (found : checker.periodLast tree p (k + 1) = some last) {entry : CBlockIndex}
    (atLast : tree[last]? = some entry) :
    getAncestor tree last ((entry.nHeight : Int) - checker.nPeriod) = .ok (checker.periodLast tree p k) := by
  obtain ⟨last', found', _, aligned, validLast⟩ := periodLast_spec wf checker valid (Nat.succ_pos k) le
  rw [found] at found'
  cases found'
  have atHeight := heightOf_of_getElem? atLast
  have grows : (k + 1) * checker.nPeriod = k * checker.nPeriod + checker.nPeriod := Nat.succ_mul _ _
  by_cases first : k = 0
  · subst first
    rw [getAncestor_eq_none atLast (by omega), ThresholdConditionChecker.periodLast, if_pos rfl]
  · have one : 0 < k * checker.nPeriod := Nat.mul_pos (by omega) checker.period_pos
    have fits : (k + 1) * checker.nPeriod ≤ heightOf tree p + 1 :=
      (Nat.mul_le_mul_right _ le).trans (Nat.div_mul_le_self _ _)
    rw [ThresholdConditionChecker.periodLast, if_neg (by omega)] at found
    rw [ThresholdConditionChecker.periodLast, if_neg first]
    generalize k * checker.nPeriod = lower at one grows ⊢
    generalize (k + 1) * checker.nPeriod = upper at grows aligned fits found
    rw [show (entry.nHeight : Int) - checker.nPeriod = ((lower - 1 : Nat) : Int) by omega,
      getAncestor_eq_climb wf validLast (show lower - 1 ≤ heightOf tree last by omega),
      show heightOf tree p + 1 - lower =
        (heightOf tree last - (lower - 1)) + (heightOf tree p + 1 - upper) by omega,
      climb_add, found, Option.bind_some]

end Periods

/-! ## The cache -/

/-- A cache that holds only what `GetStateFor` is to return: `DEFINED` at `NULL`, and at the last block of a period the state of the block after it. -/
structure Consistent (checker : ThresholdConditionChecker) (useMedianTimePast : Bool) (tree : BlockTree)
    (cache : ThresholdConditionCache) : Prop where
  at_null : ∀ state, cache none = some state → state = THRESHOLD_DEFINED
  at_last : ∀ last state, cache (some last) = some state → last < tree.length ∧
    (heightOf tree last + 1) % checker.nPeriod = 0 ∧
    state = checker.stateFor useMedianTimePast tree (some last)

namespace Consistent

variable {checker : ThresholdConditionChecker} {useMedianTimePast : Bool} {tree : BlockTree}

theorem empty : Consistent checker useMedianTimePast tree fun _ => none where
  at_null _ stored := by cases stored
  at_last _ _ stored := by cases stored

theorem update_null {cache : ThresholdConditionCache}
    (consistent : Consistent checker useMedianTimePast tree cache) :
    Consistent checker useMedianTimePast tree (Function.update cache none (some THRESHOLD_DEFINED)) where
  at_null state stored := by
    rw [Function.update_self] at stored
    cases stored
    rfl
  at_last last state stored := by
    rw [Function.update_of_ne (by simp)] at stored
    exact consistent.at_last last state stored

theorem update_last {cache : ThresholdConditionCache}
    (consistent : Consistent checker useMedianTimePast tree cache) {last : Nat} {state : ThresholdState}
    (valid : last < tree.length) (aligned : (heightOf tree last + 1) % checker.nPeriod = 0)
    (stated : state = checker.stateFor useMedianTimePast tree (some last)) :
    Consistent checker useMedianTimePast tree (Function.update cache (some last) (some state)) where
  at_null state' stored := by
    rw [Function.update_of_ne (by simp)] at stored
    exact consistent.at_null state' stored
  at_last last' state' stored := by
    by_cases same : last' = last
    · subst same
      rw [Function.update_self] at stored
      cases stored
      exact ⟨valid, aligned, stated⟩
    · rw [Function.update_of_ne (by simpa using same)] at stored
      exact consistent.at_last last' state' stored

end Consistent

/--
`vToCompute` on the way back from the period `K` of the chain of `p` to
period `j`: the last blocks before the periods `j + 1` to `K`, earliest
first, each with its median time past not before the start.
-/
inductive Pending (checker : ThresholdConditionChecker) (useMedianTimePast : Bool) (tree : BlockTree)
    (p K : Nat) : Nat → List Nat → Prop
  | done : Pending checker useMedianTimePast tree p K K []
  | push {j last : Nat} {todo : List Nat} :
      checker.periodLast tree p (j + 1) = some last →
      checker.nTimeStart ≤ medianTimeOf useMedianTimePast tree last →
      Pending checker useMedianTimePast tree p K (j + 1) todo →
      Pending checker useMedianTimePast tree p K j (last :: todo)

theorem Pending.le {checker : ThresholdConditionChecker} {useMedianTimePast : Bool} {tree : BlockTree}
    {p K j : Nat} {todo : List Nat} (pending : Pending checker useMedianTimePast tree p K j todo) :
    j ≤ K := by
  induction pending with
  | done => exact Nat.le_refl K
  | push _ _ _ ih => omega

/-! ## `GetStateFor` returns the state of the period -/

section GetStateFor

variable {tree : BlockTree} (wf : WellFormed tree) (checker : ThresholdConditionChecker)
  (useMedianTimePast : Bool)
include wf

/-- A state the cache holds for a period of the chain of `p` is the state of that period. -/
theorem Consistent.hit {cache : ThresholdConditionCache}
    (consistent : Consistent checker useMedianTimePast tree cache) {p k : Nat} (valid : p < tree.length)
    (le : k ≤ checker.periodOf tree p) {state : ThresholdState}
    (stored : cache (checker.periodLast tree p k) = some state) :
    state = checker.periodState useMedianTimePast tree p k := by
  cases k with
  | zero =>
      rw [ThresholdConditionChecker.periodLast, if_pos rfl] at stored
      exact consistent.at_null state stored
  | succ k =>
      obtain ⟨last, found, anc, aligned, _⟩ := periodLast_spec wf checker valid (Nat.succ_pos k) le
      rw [found] at stored
      rw [(consistent.at_last last state stored).2.2,
        stateFor_of_aligned wf checker useMedianTimePast anc aligned]

/--
The backward loop of `GetStateFor`, from the last block before period `k`
of the chain of `p`, stops at a period `j` whose state the cache then holds,
having collected the periods after it.  The induction is on the fuel, which
is at least `k`.
-/
theorem walkBack_eq {p : Nat} (valid : p < tree.length) :
    ∀ (fuel k : Nat) (todo : List Nat) (cache : ThresholdConditionCache), k ≤ fuel →
      Consistent checker useMedianTimePast tree cache →
      Pending checker useMedianTimePast tree p (checker.periodOf tree p) k todo →
      ∃ j todo' cache', checker.walkBack useMedianTimePast tree fuel (checker.periodLast tree p k) todo
          cache = .ok (checker.periodLast tree p j, todo', cache') ∧
        Consistent checker useMedianTimePast tree cache' ∧
        cache' (checker.periodLast tree p j) = some (checker.periodState useMedianTimePast tree p j) ∧
        Pending checker useMedianTimePast tree p (checker.periodOf tree p) j todo' := by
  intro fuel
  induction fuel with
  | zero =>
      intro k todo cache short consistent pending
      obtain rfl : k = 0 := by omega
      have zero := checker.periodLast_zero tree p
      by_cases known : (cache (checker.periodLast tree p 0)).isSome
      · obtain ⟨state, stored⟩ := Option.isSome_iff_exists.1 known
        refine ⟨0, todo, cache, ?_, consistent, ?_, pending⟩
        · unfold ThresholdConditionChecker.walkBack
          rw [if_pos known]
          rfl
        · rw [stored, consistent.hit wf checker useMedianTimePast valid (Nat.zero_le _) stored]
      · rw [zero] at known
        refine ⟨0, todo, _, ?_, consistent.update_null, ?_, pending⟩
        · unfold ThresholdConditionChecker.walkBack
          rw [zero, if_neg known]
          rfl
        · rw [zero, Function.update_self]
          rfl
  | succ fuel ih =>
      intro k todo cache short consistent pending
      have inRange := pending.le
      by_cases known : (cache (checker.periodLast tree p k)).isSome
      · obtain ⟨state, stored⟩ := Option.isSome_iff_exists.1 known
        refine ⟨k, todo, cache, ?_, consistent, ?_, pending⟩
        · unfold ThresholdConditionChecker.walkBack
          rw [if_pos known]
          rfl
        · rw [stored, consistent.hit wf checker useMedianTimePast valid inRange stored]
      · unfold ThresholdConditionChecker.walkBack
        rw [if_neg known]
        cases k with
        | zero =>
            have zero := checker.periodLast_zero tree p
            rw [zero] at known
            refine ⟨0, todo, _, ?_, consistent.update_null, ?_, pending⟩
            · rw [zero]
              rfl
            · rw [zero, Function.update_self]
              rfl
        | succ k =>
            obtain ⟨last, found, anc, aligned, validLast⟩ :=
              periodLast_spec wf checker valid (Nat.succ_pos k) inRange
            have alignedMod : (heightOf tree last + 1) % checker.nPeriod = 0 := by
              rw [aligned, Nat.mul_mod_left]
            rw [found]
            dsimp only
            rw [getMedianTimePast_eq wf useMedianTimePast validLast, ok_bind]
            have atState := stateFor_of_aligned wf checker useMedianTimePast anc aligned
            by_cases early : medianTimeOf useMedianTimePast tree last < checker.nTimeStart
            · rw [if_pos early]
              have defined : checker.periodState useMedianTimePast tree p (k + 1) = THRESHOLD_DEFINED := by
                rw [ThresholdConditionChecker.periodState, found]
                exact if_pos early
              refine ⟨k + 1, todo, _, by rw [found]; rfl, consistent.update_last validLast alignedMod
                (by rw [atState, defined]), by rw [found, Function.update_self, defined], pending⟩
            · rw [if_neg early]
              obtain ⟨entry, atLast⟩ : ∃ entry, tree[last]? = some entry :=
                ⟨_, List.getElem?_eq_getElem validLast⟩
              rw [deref_of_getElem? atLast, ok_bind,
                previousPeriod_eq wf checker valid inRange found atLast, ok_bind]
              exact ih k (last :: todo) cache (by omega) consistent
                (.push found (by omega) pending)

/-- The forward loop of `GetStateFor` computes, and caches, the states of the collected periods. -/
theorem walkForward_eq {p : Nat} (valid : p < tree.length) {j : Nat} {todo : List Nat}
    (pending : Pending checker useMedianTimePast tree p (checker.periodOf tree p) j todo) :
    ∀ cache, Consistent checker useMedianTimePast tree cache →
      ∃ cache', checker.walkForward useMedianTimePast tree todo
          (checker.periodState useMedianTimePast tree p j) cache =
        .ok (checker.periodState useMedianTimePast tree p (checker.periodOf tree p), cache') ∧
        Consistent checker useMedianTimePast tree cache' := by
  induction pending with
  | done => exact fun cache consistent => ⟨cache, rfl, consistent⟩
  | @push j last todo found notEarly rest ih =>
      intro cache consistent
      obtain ⟨last', found', anc, aligned, validLast⟩ :=
        periodLast_spec wf checker valid (Nat.succ_pos j) rest.le
      rw [found] at found'
      cases found'
      have tall : checker.nPeriod ≤ heightOf tree last + 1 := by
        rw [aligned, Nat.succ_mul]
        omega
      have next : checker.periodState useMedianTimePast tree p (j + 1) =
          checker.transition (checker.periodState useMedianTimePast tree p j)
            (medianTimeOf useMedianTimePast tree last) (checker.countOf tree last) := by
        rw [ThresholdConditionChecker.periodState, found]
        exact if_neg (by omega)
      rw [ThresholdConditionChecker.walkForward, nextState_eq wf checker useMedianTimePast validLast tall,
        ok_bind, ← next]
      exact ih _ (consistent.update_last validLast (by rw [aligned, Nat.mul_mod_left])
        (by rw [stateFor_of_aligned wf checker useMedianTimePast anc aligned]))

/-- With a consistent cache, `GetStateFor` returns the state of the period of the block after `pindexPrev` and leaves the cache consistent. -/
theorem getStateFor_eq {cache : ThresholdConditionCache}
    (consistent : Consistent checker useMedianTimePast tree cache) {pindexPrev : Option Nat}
    (valid : ∀ p, pindexPrev = some p → p < tree.length) :
    ∃ cache', checker.getStateFor useMedianTimePast tree pindexPrev cache =
        .ok (checker.stateFor useMedianTimePast tree pindexPrev, cache') ∧
      Consistent checker useMedianTimePast tree cache' := by
  cases pindexPrev with
  | none =>
      rw [ThresholdConditionChecker.getStateFor, ThresholdConditionChecker.alignPrev, pure_eq_ok, ok_bind]
      unfold ThresholdConditionChecker.walkBack
      by_cases known : (cache none).isSome
      · obtain ⟨state, stored⟩ := Option.isSome_iff_exists.1 known
        obtain rfl := consistent.at_null state stored
        rw [if_pos known, pure_eq_ok, ok_bind]
        dsimp only
        rw [stored]
        exact ⟨cache, rfl, consistent⟩
      · rw [if_neg known, pure_eq_ok, ok_bind]
        dsimp only
        rw [Function.update_self]
        exact ⟨_, rfl, consistent.update_null⟩
  | some p =>
      have validP := valid p rfl
      have fuel : checker.periodOf tree p ≤ tree.length :=
        (Nat.div_le_self _ _).trans (Nat.lt_of_le_of_lt wf.heightOf_le validP)
      obtain ⟨j, todo, cache', walked, consistent', stored, pending⟩ :=
        walkBack_eq wf checker useMedianTimePast validP tree.length (checker.periodOf tree p) [] cache fuel
          consistent .done
      rw [ThresholdConditionChecker.getStateFor, alignPrev_eq wf checker validP, ok_bind, walked, ok_bind]
      dsimp only
      rw [stored]
      exact walkForward_eq wf checker useMedianTimePast validP pending cache' consistent'

end GetStateFor

/-! ## `GetStateSinceHeightFor` returns the start of the run -/

/-- The first period of the run of periods, ending at `k`, whose states equal that of `k`. -/
def runStart (state : Nat → ThresholdState) : Nat → Nat
  | 0 => 0
  | k + 1 => if state k = state (k + 1) then runStart state k else k + 1

theorem runStart_le (state : Nat → ThresholdState) : ∀ k, runStart state k ≤ k
  | 0 => Nat.le_refl 0
  | k + 1 => by
      rw [runStart]
      split
      · exact Nat.le_succ_of_le (runStart_le state k)
      · exact Nat.le_refl _

/-- Every period from the start of the run to `k` has the state of `k`. -/
theorem runStart_run (state : Nat → ThresholdState) :
    ∀ k i, runStart state k ≤ i → i ≤ k → state i = state k
  | 0, i, _, le => by rw [Nat.le_zero.1 le]
  | k + 1, i, start, le => by
      rw [runStart] at start
      split at start
      · rename_i same
        by_cases top : i = k + 1
        · rw [top]
        · rw [runStart_run state k i start (by omega), same]
      · rw [show i = k + 1 by omega]

/-- The run cannot be extended: it starts at the first period or after a period in another state. -/
theorem runStart_maximal (state : Nat → ThresholdState) :
    ∀ k, runStart state k = 0 ∨ state (runStart state k - 1) ≠ state k
  | 0 => Or.inl rfl
  | k + 1 => by
      rw [runStart]
      split
      · rename_i same
        rw [← same]
        exact runStart_maximal state k
      · rename_i differ
        exact Or.inr differ

namespace ThresholdConditionChecker

variable (checker : ThresholdConditionChecker) (useMedianTimePast : Bool) (tree : BlockTree)

/-- What `GetStateSinceHeightFor(pindexPrev)` is to return: zero in `DEFINED`, else the first height of the run of periods in the current state. -/
def sinceHeightFor : Option Nat → Nat
  | none => 0
  | some p =>
      if checker.stateFor useMedianTimePast tree (some p) = THRESHOLD_DEFINED then 0
      else runStart (checker.periodState useMedianTimePast tree p) (checker.periodOf tree p) * checker.nPeriod

end ThresholdConditionChecker

section SinceHeight

variable {tree : BlockTree} (wf : WellFormed tree) (checker : ThresholdConditionChecker)
  (useMedianTimePast : Bool)
include wf

/--
The loop of `GetStateSinceHeightFor`, at the last block before period `k`
of the chain of `p` with `k` in the state `initial`, stops at the last
block before the start of the run.  The induction is on the fuel.
-/
theorem sinceWalk_eq {p : Nat} (valid : p < tree.length) {initial : ThresholdState}
    (notDefined : initial ≠ THRESHOLD_DEFINED) :
    ∀ (fuel k last : Nat) (cache : ThresholdConditionCache), 0 < k → k ≤ fuel + 1 →
      k ≤ checker.periodOf tree p → checker.periodLast tree p k = some last →
      checker.periodState useMedianTimePast tree p k = initial →
      Consistent checker useMedianTimePast tree cache →
      ∃ first cache', checker.periodLast tree p
          (runStart (checker.periodState useMedianTimePast tree p) k) = some first ∧
        checker.sinceWalk useMedianTimePast tree initial fuel last (checker.periodLast tree p (k - 1))
          cache = .ok (first, cache') ∧
        Consistent checker useMedianTimePast tree cache' := by
  have startsAtOne : ∀ last, checker.periodState useMedianTimePast tree p 1 = initial →
      checker.periodLast tree p 1 = some last →
      checker.periodLast tree p (runStart (checker.periodState useMedianTimePast tree p) 1) = some last := by
    intro last atOne found
    rw [runStart, if_neg (by rw [atOne]; exact fun same => notDefined same.symm)]
    exact found
  intro fuel
  induction fuel with
  | zero =>
      intro k last cache pos short inRange found atK consistent
      obtain rfl : k = 1 := by omega
      exact ⟨last, cache, startsAtOne last atK found, rfl, consistent⟩
  | succ fuel ih =>
      intro k last cache pos short inRange found atK consistent
      cases k with
      | zero => omega
      | succ k =>
          cases k with
          | zero => exact ⟨last, cache, startsAtOne last atK found, rfl, consistent⟩
          | succ k =>
              obtain ⟨previous, foundPrev, anc, aligned, validPrev⟩ :=
                periodLast_spec wf checker valid (Nat.succ_pos k) (by omega)
              have validSome : ∀ q, some previous = some q → q < tree.length :=
                fun _ same => by cases same; exact validPrev
              obtain ⟨cache', asked, consistent'⟩ :=
                getStateFor_eq wf checker useMedianTimePast consistent validSome
              rw [stateFor_of_aligned wf checker useMedianTimePast anc aligned] at asked
              rw [show k + 1 + 1 - 1 = k + 1 from rfl, foundPrev, ThresholdConditionChecker.sinceWalk, asked,
                ok_bind]
              dsimp only
              by_cases same : checker.periodState useMedianTimePast tree p (k + 1) = initial
              · rw [if_pos same]
                obtain ⟨entry, atPrev⟩ : ∃ entry, tree[previous]? = some entry :=
                  ⟨_, List.getElem?_eq_getElem validPrev⟩
                rw [deref_of_getElem? atPrev, ok_bind,
                  previousPeriod_eq wf checker valid (by omega) foundPrev atPrev, ok_bind]
                obtain ⟨first, cache'', start, walked, consistent''⟩ :=
                  ih (k + 1) previous cache' (Nat.succ_pos k) (by omega) (by omega) foundPrev same
                    consistent'
                refine ⟨first, cache'', ?_, walked, consistent''⟩
                rw [runStart, if_pos (by rw [same, atK])]
                exact start
              · rw [if_neg same]
                refine ⟨last, cache', ?_, rfl, consistent'⟩
                rw [runStart, if_neg (by rw [atK]; exact same)]
                exact found

/-- With a consistent cache, `GetStateSinceHeightFor` returns the first height of the run and leaves the cache consistent. -/
theorem getStateSinceHeightFor_eq {cache : ThresholdConditionCache}
    (consistent : Consistent checker useMedianTimePast tree cache) {pindexPrev : Option Nat}
    (valid : ∀ p, pindexPrev = some p → p < tree.length) :
    ∃ cache', checker.getStateSinceHeightFor useMedianTimePast tree pindexPrev cache =
        .ok (checker.sinceHeightFor useMedianTimePast tree pindexPrev, cache') ∧
      Consistent checker useMedianTimePast tree cache' := by
  obtain ⟨cache', asked, consistent'⟩ := getStateFor_eq wf checker useMedianTimePast consistent valid
  rw [ThresholdConditionChecker.getStateSinceHeightFor, asked, ok_bind]
  dsimp only
  by_cases defined : checker.stateFor useMedianTimePast tree pindexPrev = THRESHOLD_DEFINED
  · rw [if_pos defined]
    refine ⟨cache', ?_, consistent'⟩
    cases pindexPrev with
    | none => rfl
    | some p => rw [ThresholdConditionChecker.sinceHeightFor, if_pos defined]; rfl
  · rw [if_neg defined]
    cases pindexPrev with
    | none => exact absurd rfl defined
    | some p =>
        have validP := valid p rfl
        have pos : 0 < checker.periodOf tree p := by
          apply Nat.pos_of_ne_zero
          intro zero
          apply defined
          rw [ThresholdConditionChecker.stateFor, zero]
          rfl
        obtain ⟨last, found, _, _, validLast⟩ := periodLast_spec wf checker validP pos (Nat.le_refl _)
        obtain ⟨entry, atLast⟩ : ∃ entry, tree[last]? = some entry :=
          ⟨_, List.getElem?_eq_getElem validLast⟩
        obtain ⟨k, hk⟩ : ∃ k, checker.periodOf tree p = k + 1 := ⟨_, (Nat.succ_pred_eq_of_pos pos).symm⟩
        have fuel : checker.periodOf tree p ≤ tree.length + 1 :=
          (Nat.div_le_self _ _).trans (by have := wf.heightOf_le (a := p); omega)
        obtain ⟨first, cache'', start, walked, consistent''⟩ :=
          sinceWalk_eq wf checker useMedianTimePast validP defined tree.length (checker.periodOf tree p)
            last cache' pos fuel (Nat.le_refl _) found rfl consistent'
        have previous := previousPeriod_eq wf checker validP (show k + 1 ≤ checker.periodOf tree p by omega)
          (hk ▸ found) atLast
        rw [alignPrev_eq wf checker validP, ok_bind, found]
        dsimp only
        rw [deref_of_getElem? atLast, ok_bind, previous, ok_bind, show k = checker.periodOf tree p - 1 by omega,
          walked, ok_bind]
        dsimp only
        have runPos : 0 < runStart (checker.periodState useMedianTimePast tree p) (checker.periodOf tree p) := by
          apply Nat.pos_of_ne_zero
          intro zero
          rw [zero, checker.periodLast_zero] at start
          cases start
        obtain ⟨first', start', _, alignedFirst, validFirst⟩ := periodLast_spec wf checker validP runPos
          (runStart_le _ _)
        rw [start] at start'
        cases start'
        obtain ⟨entryFirst, atFirst⟩ : ∃ entry, tree[first]? = some entry :=
          ⟨_, List.getElem?_eq_getElem validFirst⟩
        rw [deref_of_getElem? atFirst, ok_bind, ← heightOf_of_getElem? atFirst, alignedFirst,
          ThresholdConditionChecker.sinceHeightFor, if_neg defined]
        exact ⟨cache'', rfl, consistent''⟩

end SinceHeight

/-! ## Queries sharing one cache -/

/-- A question to a deployment about the block after `pindexPrev`. -/
inductive StateQuery
  | getStateFor (pindexPrev : Option Nat)
  | getStateSinceHeightFor (pindexPrev : Option Nat)

/-- The parent of the block a query is about. -/
def StateQuery.pindexPrev : StateQuery → Option Nat
  | .getStateFor pindexPrev => pindexPrev
  | .getStateSinceHeightFor pindexPrev => pindexPrev

/-- The answer to a `StateQuery`. -/
inductive StateAnswer
  | state (state : ThresholdState)
  | height (height : Nat)
deriving DecidableEq, Repr

namespace ThresholdConditionChecker

variable (checker : ThresholdConditionChecker) (useMedianTimePast : Bool) (tree : BlockTree)

/-- One query, with the cache the deployment keeps. -/
def runQuery (query : StateQuery) (cache : ThresholdConditionCache) :
    Except Fault (StateAnswer × ThresholdConditionCache) :=
  match query with
  | .getStateFor pindexPrev => do
      let (state, cache) ← checker.getStateFor useMedianTimePast tree pindexPrev cache
      pure (.state state, cache)
  | .getStateSinceHeightFor pindexPrev => do
      let (height, cache) ← checker.getStateSinceHeightFor useMedianTimePast tree pindexPrev cache
      pure (.height height, cache)

/-- A sequence of queries sharing one cache. -/
def runQueries : List StateQuery → ThresholdConditionCache →
    Except Fault (List StateAnswer × ThresholdConditionCache)
  | [], cache => pure ([], cache)
  | query :: queries, cache => do
      let (answer, cache) ← checker.runQuery useMedianTimePast tree query cache
      let (answers, cache) ← runQueries queries cache
      pure (answer :: answers, cache)

/-- What a query is to answer. -/
def answerOf : StateQuery → StateAnswer
  | .getStateFor pindexPrev => .state (checker.stateFor useMedianTimePast tree pindexPrev)
  | .getStateSinceHeightFor pindexPrev => .height (checker.sinceHeightFor useMedianTimePast tree pindexPrev)

end ThresholdConditionChecker

section Queries

variable {tree : BlockTree} (wf : WellFormed tree) (checker : ThresholdConditionChecker)
  (useMedianTimePast : Bool)
include wf

theorem runQuery_eq {cache : ThresholdConditionCache}
    (consistent : Consistent checker useMedianTimePast tree cache) {query : StateQuery}
    (valid : ∀ p, query.pindexPrev = some p → p < tree.length) :
    ∃ cache', checker.runQuery useMedianTimePast tree query cache =
        .ok (checker.answerOf useMedianTimePast tree query, cache') ∧
      Consistent checker useMedianTimePast tree cache' := by
  cases query with
  | getStateFor pindexPrev =>
      have valid : ∀ p, pindexPrev = some p → p < tree.length := valid
      obtain ⟨cache', asked, consistent'⟩ := getStateFor_eq wf checker useMedianTimePast consistent valid
      exact ⟨cache', by rw [ThresholdConditionChecker.runQuery, asked]; rfl, consistent'⟩
  | getStateSinceHeightFor pindexPrev =>
      have valid : ∀ p, pindexPrev = some p → p < tree.length := valid
      obtain ⟨cache', asked, consistent'⟩ :=
        getStateSinceHeightFor_eq wf checker useMedianTimePast consistent valid
      exact ⟨cache', by rw [ThresholdConditionChecker.runQuery, asked]; rfl, consistent'⟩

/-- The run: a sequence of queries sharing a consistent cache gets the answers `answerOf` gives. -/
theorem runQueries_eq : ∀ (queries : List StateQuery) (cache : ThresholdConditionCache),
    Consistent checker useMedianTimePast tree cache →
    (∀ query ∈ queries, ∀ p, query.pindexPrev = some p → p < tree.length) →
    ∃ cache', checker.runQueries useMedianTimePast tree queries cache =
        .ok (queries.map (checker.answerOf useMedianTimePast tree), cache') ∧
      Consistent checker useMedianTimePast tree cache' := by
  intro queries
  induction queries with
  | nil => exact fun cache consistent _ => ⟨cache, rfl, consistent⟩
  | cons query queries ih =>
      intro cache consistent valid
      obtain ⟨cache', asked, consistent'⟩ :=
        runQuery_eq wf checker useMedianTimePast consistent (valid query List.mem_cons_self)
      obtain ⟨cache'', rest, consistent''⟩ :=
        ih cache' consistent' fun query' member => valid query' (List.mem_cons_of_mem _ member)
      refine ⟨cache'', ?_, consistent''⟩
      rw [ThresholdConditionChecker.runQueries, asked, ok_bind]
      dsimp only
      rw [rest, ok_bind]
      rfl

end Queries

/-! ## The BIP9 transitions -/

/-- The transitions BIP9 allows from the state of one period to the next. -/
inductive Transition : ThresholdState → ThresholdState → Prop
  | defined_defined : Transition THRESHOLD_DEFINED THRESHOLD_DEFINED
  | defined_started : Transition THRESHOLD_DEFINED THRESHOLD_STARTED
  | defined_failed : Transition THRESHOLD_DEFINED THRESHOLD_FAILED
  | started_started : Transition THRESHOLD_STARTED THRESHOLD_STARTED
  | started_lockedIn : Transition THRESHOLD_STARTED THRESHOLD_LOCKED_IN
  | started_failed : Transition THRESHOLD_STARTED THRESHOLD_FAILED
  | lockedIn_active : Transition THRESHOLD_LOCKED_IN THRESHOLD_ACTIVE
  | active_active : Transition THRESHOLD_ACTIVE THRESHOLD_ACTIVE
  | failed_failed : Transition THRESHOLD_FAILED THRESHOLD_FAILED

/-- The `switch` of `GetStateFor` only makes BIP9 transitions. -/
theorem transition_valid (checker : ThresholdConditionChecker) (state : ThresholdState) (mtp : Int)
    (count : Nat) : Transition state (checker.transition state mtp count) := by
  cases state with
  | THRESHOLD_DEFINED =>
      dsimp only [ThresholdConditionChecker.transition]
      split
      · exact .defined_failed
      · split
        · exact .defined_started
        · exact .defined_defined
  | THRESHOLD_STARTED =>
      dsimp only [ThresholdConditionChecker.transition]
      split
      · exact .started_failed
      · split
        · exact .started_lockedIn
        · exact .started_started
  | THRESHOLD_LOCKED_IN => exact .lockedIn_active
  | THRESHOLD_ACTIVE => exact .active_active
  | THRESHOLD_FAILED => exact .failed_failed

/-- Only `DEFINED` goes to `DEFINED`. -/
theorem Transition.eq_defined {state : ThresholdState} (step : Transition state THRESHOLD_DEFINED) :
    state = THRESHOLD_DEFINED := by
  cases step
  rfl

/-- Median times past do not decrease along `pprev`, as the header checks of a chain make them. -/
def MedianTimeMonotone (useMedianTimePast : Bool) (tree : BlockTree) : Prop :=
  ∀ a b, b < tree.length → IsAncestor (parentOf tree) a b →
    medianTimeOf useMedianTimePast tree a ≤ medianTimeOf useMedianTimePast tree b

section Monotone

variable {tree : BlockTree} (wf : WellFormed tree) (checker : ThresholdConditionChecker)
  (useMedianTimePast : Bool)
include wf

omit wf in
/-- A period in a state other than `DEFINED` follows a block whose median time past is not before the start. -/
theorem started_of_ne_defined {p k : Nat}
    (started : checker.periodState useMedianTimePast tree p k ≠ THRESHOLD_DEFINED) :
    ∃ last, checker.periodLast tree p k = some last ∧
      checker.nTimeStart ≤ medianTimeOf useMedianTimePast tree last := by
  cases k with
  | zero => exact absurd rfl started
  | succ k =>
      rw [ThresholdConditionChecker.periodState] at started
      cases found : checker.periodLast tree p (k + 1) with
      | none =>
          rw [found] at started
          exact absurd rfl started
      | some last =>
          rw [found] at started
          dsimp only at started
          refine ⟨last, rfl, ?_⟩
          by_contra early
          exact started (if_pos (by omega))

omit wf in
/-- The last block before a period is an ancestor of the last block before the next. -/
theorem periodLast_isAncestor_next {p k a b : Nat} (le : k + 1 ≤ checker.periodOf tree p)
    (foundA : checker.periodLast tree p k = some a) (foundB : checker.periodLast tree p (k + 1) = some b) :
    IsAncestor (parentOf tree) a b := by
  have pos : k ≠ 0 := by
    rintro rfl
    rw [checker.periodLast_zero] at foundA
    cases foundA
  have fits : (k + 1) * checker.nPeriod ≤ heightOf tree p + 1 :=
    (Nat.mul_le_mul_right _ le).trans (Nat.div_mul_le_self _ _)
  have grows : (k + 1) * checker.nPeriod = k * checker.nPeriod + checker.nPeriod := Nat.succ_mul _ _
  rw [ThresholdConditionChecker.periodLast, if_neg pos] at foundA
  rw [ThresholdConditionChecker.periodLast, if_neg (by omega)] at foundB
  refine ⟨checker.nPeriod, ?_⟩
  rw [show heightOf tree p + 1 - k * checker.nPeriod =
    checker.nPeriod + (heightOf tree p + 1 - (k + 1) * checker.nPeriod) by omega, climb_add, foundB,
    Option.bind_some] at foundA
  exact foundA

/-- With median times past that do not decrease, consecutive periods make BIP9 transitions. -/
theorem periodState_transition (monotone : MedianTimeMonotone useMedianTimePast tree) {p k : Nat}
    (valid : p < tree.length) (le : k + 1 ≤ checker.periodOf tree p) :
    Transition (checker.periodState useMedianTimePast tree p k)
      (checker.periodState useMedianTimePast tree p (k + 1)) := by
  obtain ⟨last, found, _, _, validLast⟩ := periodLast_spec wf checker (k := k + 1) valid (by omega) le
  rw [ThresholdConditionChecker.periodState.eq_2, found]
  dsimp only
  by_cases defined : checker.periodState useMedianTimePast tree p k = THRESHOLD_DEFINED
  · split
    · rw [defined]
      exact .defined_defined
    · exact transition_valid checker _ _ _
  · obtain ⟨earlier, foundEarlier, notEarly⟩ := started_of_ne_defined checker useMedianTimePast defined
    have later := monotone earlier last validLast
      (periodLast_isAncestor_next checker le foundEarlier found)
    rw [if_neg (by omega)]
    exact transition_valid checker _ _ _

/-- `LOCKED_IN` is reached exactly from `STARTED`, before the timeout, with at least `nThreshold` blocks of the period satisfying `Condition`. -/
theorem periodState_lockedIn_iff (monotone : MedianTimeMonotone useMedianTimePast tree) {p k last : Nat}
    (valid : p < tree.length) (le : k + 1 ≤ checker.periodOf tree p)
    (found : checker.periodLast tree p (k + 1) = some last) :
    checker.periodState useMedianTimePast tree p (k + 1) = THRESHOLD_LOCKED_IN ↔
      checker.periodState useMedianTimePast tree p k = THRESHOLD_STARTED ∧
      medianTimeOf useMedianTimePast tree last < checker.nTimeTimeout ∧
      checker.nThreshold ≤ (checker.countOf tree last : Int) := by
  obtain ⟨last', found', _, _, validLast⟩ := periodLast_spec wf checker (k := k + 1) valid (by omega) le
  rw [found] at found'
  cases found'
  rw [ThresholdConditionChecker.periodState.eq_2, found]
  dsimp only
  constructor
  · intro lockedIn
    split at lockedIn
    · cases lockedIn
    · revert lockedIn
      cases checker.periodState useMedianTimePast tree p k <;>
        simp only [ThresholdConditionChecker.transition] <;> (repeat' split) <;> simp_all
  · rintro ⟨started, inTime, counted⟩
    obtain ⟨earlier, foundEarlier, notEarly⟩ :=
      started_of_ne_defined checker useMedianTimePast (by rw [started]; exact nofun)
    have later := monotone earlier last validLast
      (periodLast_isAncestor_next checker le foundEarlier found)
    rw [if_neg (by omega), started, ThresholdConditionChecker.transition, if_neg (by omega),
      if_pos counted]

/-- With median times past that do not decrease, a period in `DEFINED` has only `DEFINED` periods before it. -/
theorem periodState_defined_before (monotone : MedianTimeMonotone useMedianTimePast tree) {p : Nat}
    (valid : p < tree.length) {k : Nat} (le : k ≤ checker.periodOf tree p)
    (defined : checker.periodState useMedianTimePast tree p k = THRESHOLD_DEFINED) :
    ∀ i, i ≤ k → checker.periodState useMedianTimePast tree p i = THRESHOLD_DEFINED := by
  have down : ∀ d i, i + d = k → checker.periodState useMedianTimePast tree p i = THRESHOLD_DEFINED := by
    intro d
    induction d with
    | zero => exact fun i same => by rw [Nat.add_zero] at same; rw [same]; exact defined
    | succ d ih =>
        intro i same
        have step := periodState_transition wf checker useMedianTimePast monotone valid (k := i) (by omega)
        rw [ih (i + 1) (by omega)] at step
        exact step.eq_defined
  exact fun i le' => down (k - i) i (by omega)

end Monotone

theorem runStart_eq_zero {state : Nat → ThresholdState} :
    ∀ k, (∀ i, i ≤ k → state i = state k) → runStart state k = 0
  | 0, _ => rfl
  | k + 1, constant => by
      rw [runStart, if_pos (constant k (Nat.le_succ k))]
      exact runStart_eq_zero k fun i le => (constant i (by omega)).trans (constant k (by omega)).symm

/-- The state of a deployment is a function of the chain: any sequence of `GetStateFor` and `GetStateSinceHeightFor` queries sharing one cache gets the answers a fresh cache gives, the state of a block is that of its period, the same for all parents in one period, and where median times past do not decrease along `pprev` the states of consecutive periods make only BIP9 transitions, reach `LOCKED_IN` exactly from `STARTED` before the timeout with at least `nThreshold` blocks satisfying `Condition`, and `GetStateSinceHeightFor` returns the first height of the maximal run of periods in the current state. -/
theorem deploymentState_wellDefined {tree : BlockTree} (wf : WellFormed tree)
    (checker : ThresholdConditionChecker) (useMedianTimePast : Bool) :
    (∀ queries : List StateQuery,
      (∀ query ∈ queries, ∀ p, query.pindexPrev = some p → p < tree.length) →
      (∃ cache', checker.runQueries useMedianTimePast tree queries (fun _ => none) =
          .ok (queries.map (checker.answerOf useMedianTimePast tree), cache')) ∧
      ∀ query ∈ queries, ∃ cache', checker.runQuery useMedianTimePast tree query (fun _ => none) =
          .ok (checker.answerOf useMedianTimePast tree query, cache')) ∧
    (∀ p q, p < tree.length → IsAncestor (parentOf tree) q p →
      checker.periodOf tree q = checker.periodOf tree p →
      checker.stateFor useMedianTimePast tree (some q) = checker.stateFor useMedianTimePast tree (some p)) ∧
    (MedianTimeMonotone useMedianTimePast tree → ∀ p, p < tree.length →
      (∀ k, k + 1 ≤ checker.periodOf tree p →
        Transition (checker.periodState useMedianTimePast tree p k)
          (checker.periodState useMedianTimePast tree p (k + 1))) ∧
      (∀ k last, k + 1 ≤ checker.periodOf tree p → checker.periodLast tree p (k + 1) = some last →
        (checker.periodState useMedianTimePast tree p (k + 1) = THRESHOLD_LOCKED_IN ↔
          checker.periodState useMedianTimePast tree p k = THRESHOLD_STARTED ∧
          medianTimeOf useMedianTimePast tree last < checker.nTimeTimeout ∧
          checker.nThreshold ≤ (checker.countOf tree last : Int))) ∧
      ∃ j, checker.sinceHeightFor useMedianTimePast tree (some p) = j * checker.nPeriod ∧
        j ≤ checker.periodOf tree p ∧
        (∀ i, j ≤ i → i ≤ checker.periodOf tree p →
          checker.periodState useMedianTimePast tree p i =
            checker.periodState useMedianTimePast tree p (checker.periodOf tree p)) ∧
        (j = 0 ∨ checker.periodState useMedianTimePast tree p (j - 1) ≠
          checker.periodState useMedianTimePast tree p (checker.periodOf tree p))) := by
  refine ⟨fun queries valid => ⟨?_, fun query member => ?_⟩, fun p q validP anc same => ?_,
    fun monotone p valid => ⟨fun k le => periodState_transition wf checker useMedianTimePast monotone valid le,
      fun k last le found => periodState_lockedIn_iff wf checker useMedianTimePast monotone valid le found, ?_⟩⟩
  · obtain ⟨cache', ran, _⟩ := runQueries_eq wf checker useMedianTimePast queries _ .empty valid
    exact ⟨cache', ran⟩
  · obtain ⟨cache', ran, _⟩ := runQuery_eq wf checker useMedianTimePast .empty (valid query member)
    exact ⟨cache', ran⟩
  · rw [ThresholdConditionChecker.stateFor, ThresholdConditionChecker.stateFor, same,
      periodState_of_isAncestor wf checker useMedianTimePast anc _
        (by rw [← same]; exact Nat.div_mul_le_self _ _)]
  · refine ⟨runStart (checker.periodState useMedianTimePast tree p) (checker.periodOf tree p), ?_,
      runStart_le _ _, runStart_run _ _, runStart_maximal _ _⟩
    rw [ThresholdConditionChecker.sinceHeightFor]
    split
    · rename_i defined
      rw [runStart_eq_zero _ fun i le => ?_, Nat.zero_mul]
      rw [periodState_defined_before wf checker useMedianTimePast monotone valid (Nat.le_refl _) defined i le]
      exact defined.symm
    · rfl

/-- `TestTime` of the tests: one block every ten minutes. -/
def testTime (nHeight : Nat) : Int :=
  1415926536 + 600 * nHeight

/-- `TestConditionChecker` of the tests: bit 8 of `nVersion`, 900 of 1000 blocks. -/
def testConditionChecker : ThresholdConditionChecker where
  nPeriod := 1000
  nThreshold := 900
  nTimeStart := testTime 10000
  nTimeTimeout := testTime 20000
  -- `pindex->nVersion & 0x100`
  condition pindex := pindex.nVersion.testBit 8
  period_pos := by decide

theorem deploymentState_wellDefined_threeBlocks :
    WellFormed threeBlocks ∧
    (∀ queries : List StateQuery,
      (∀ query ∈ queries, ∀ p, query.pindexPrev = some p → p < threeBlocks.length) →
      (∃ cache', testConditionChecker.runQueries true threeBlocks queries (fun _ => none) =
          .ok (queries.map (testConditionChecker.answerOf true threeBlocks), cache')) ∧
      ∀ query ∈ queries, ∃ cache', testConditionChecker.runQuery true threeBlocks query (fun _ => none) =
          .ok (testConditionChecker.answerOf true threeBlocks query, cache')) ∧
    (∀ p q, p < threeBlocks.length → IsAncestor (parentOf threeBlocks) q p →
      testConditionChecker.periodOf threeBlocks q = testConditionChecker.periodOf threeBlocks p →
      testConditionChecker.stateFor true threeBlocks (some q) =
        testConditionChecker.stateFor true threeBlocks (some p)) ∧
    (MedianTimeMonotone true threeBlocks → ∀ p, p < threeBlocks.length →
      (∀ k, k + 1 ≤ testConditionChecker.periodOf threeBlocks p →
        Transition (testConditionChecker.periodState true threeBlocks p k)
          (testConditionChecker.periodState true threeBlocks p (k + 1))) ∧
      (∀ k last, k + 1 ≤ testConditionChecker.periodOf threeBlocks p →
        testConditionChecker.periodLast threeBlocks p (k + 1) = some last →
        (testConditionChecker.periodState true threeBlocks p (k + 1) = THRESHOLD_LOCKED_IN ↔
          testConditionChecker.periodState true threeBlocks p k = THRESHOLD_STARTED ∧
          medianTimeOf true threeBlocks last < testConditionChecker.nTimeTimeout ∧
          testConditionChecker.nThreshold ≤ (testConditionChecker.countOf threeBlocks last : Int))) ∧
      ∃ j, testConditionChecker.sinceHeightFor true threeBlocks (some p) = j * testConditionChecker.nPeriod ∧
        j ≤ testConditionChecker.periodOf threeBlocks p ∧
        (∀ i, j ≤ i → i ≤ testConditionChecker.periodOf threeBlocks p →
          testConditionChecker.periodState true threeBlocks p i =
            testConditionChecker.periodState true threeBlocks p (testConditionChecker.periodOf threeBlocks p)) ∧
        (j = 0 ∨ testConditionChecker.periodState true threeBlocks p (j - 1) ≠
          testConditionChecker.periodState true threeBlocks p (testConditionChecker.periodOf threeBlocks p))) :=
  ⟨threeBlocks_built.wellFormed,
    deploymentState_wellDefined threeBlocks_built.wellFormed testConditionChecker true⟩

/-- A block whose time is before its parent's, on a chain that does not use median time past. -/
def timeWarped : BlockTree :=
  [{ hashBlock := 0, pprev := none, pskip := none, nHeight := 0, nVersion := 1, nTime := 20 },
   { hashBlock := 1, pprev := some 0, pskip := some 0, nHeight := 1, nVersion := 1, nTime := 5 }]

/-- A deployment of one-block periods that starts at time 10. -/
def earlyStart : ThresholdConditionChecker where
  nPeriod := 1
  nThreshold := 1
  nTimeStart := 10
  nTimeTimeout := 100
  condition _ := false
  period_pos := Nat.one_pos

/--
Linking builds `timeWarped`, and the block after its genesis is `STARTED`
while the block after that is `DEFINED`: the cut of `GetStateFor` at a
median time past before the start leaves `STARTED` for `DEFINED`, which is
not a BIP9 transition.
-/
theorem thresholdState_started_to_defined :
    Built timeWarped ∧ parentOf timeWarped 1 = some 0 ∧
    (earlyStart.getStateFor false timeWarped (some 0) (fun _ => none)).map Prod.fst =
      .ok THRESHOLD_STARTED ∧
    (earlyStart.getStateFor false timeWarped (some 1) (fun _ => none)).map Prod.fst =
      .ok THRESHOLD_DEFINED :=
  ⟨.link 1 ⟨1, 5⟩ (some 0) (.link 0 ⟨1, 20⟩ none .empty rfl) rfl, rfl, rfl, rfl⟩

end Dogecoin.Chain
