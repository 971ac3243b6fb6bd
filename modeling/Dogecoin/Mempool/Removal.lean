import Dogecoin.Mempool.Consistency
import Dogecoin.Coins.Coins
import Dogecoin.Lib.ExceptSpec
import Dogecoin.Lib.KeyedFold

/-!
# The removals of the memory pool

Four operations of `CTxMemPool` remove transactions: `removeRecursive` a
transaction with what spends it, `removeForReorg` the transactions that a
reorganisation makes immature or no longer final, `Expire` the transactions
older than a time, and `TrimToSize` the transactions of the lowest
descendant score until the pool fits a size.  Each collects a set of entries,
closes it with `CalculateDescendants` and removes it with `RemoveStaged`.

A pool is `Reachable` when it is built from the empty pool by `addUnchecked`
of a transaction that `AcceptToMemoryPool` accepts (new, conflicting with no
pooled transaction, spent by none) and by `RemoveStaged` of pooled entries,
which every removal is.  Every reachable pool is consistent
(`Reachable.consistent`), and from a consistent pool each removal removes
exactly the in-pool descendants of the entries it starts from, leaving no
pooled transaction that spends one removed (`removals_remove_descendants`).

`removeForReorg` looks up the coinbase maturity at `coins->nHeight` before it
tests `coins` against the null pointer.  With the consistency checks off, a
coinbase-spending transaction with an input neither in the pool nor in the
coins view makes it read through the null pointer, where the test after the
read would have removed the transaction (`removeForReorg_eq_error_iff`).
-/

namespace Dogecoin.Mempool

open Dogecoin.Primitives Dogecoin.Coins Worklist ExceptSpec

/-- How a removal stops instead of returning. -/
inductive MempoolFault
  /-- `assert(coins != nullptr)` fails. -/
  | assertion
  /-- `coins->nHeight` is read through a null `coins`. -/
  | nullDereference
deriving DecidableEq, Repr

namespace CTxMemPool

/-- The pool `CTxMemPool()` constructs, with its sanity-check frequency. -/
def empty (nCheckFrequency : UInt32) : CTxMemPool where
  mapTx := ∅
  entries := fun _ => ⟨⟨0, [], [], 0⟩, 0, false⟩
  mapLinks := fun _ => ⟨∅, ∅⟩
  mapNextTx := fun _ => none
  nCheckFrequency := nCheckFrequency

/-! ## `removeRecursive` -/

/-- The entries `removeRecursive(origTx, reason)` starts from: the entry of `origTx`, or else
the pooled transactions that spend its outputs, through `mapNextTx`. -/
def removeRecursiveRoots (getTxHash : CTransaction → UInt256) (pool : CTxMemPool) (origTx : CTransaction) :
    Finset UInt256 :=
  let origit := getTxHash origTx
  if origit ∈ pool.mapTx then {origit}
  else ((List.range origTx.vout.length).filterMap fun i =>
    pool.mapNextTx ⟨getTxHash origTx, UInt32.ofNat i⟩).toFinset

/-- `removeRecursive(origTx, reason)`. -/
def removeRecursive (getTxHash : CTransaction → UInt256) (pool : CTxMemPool) (origTx : CTransaction) :
    CTxMemPool :=
  pool.removeStaged (pool.calculateDescendantsOf (pool.removeRecursiveRoots getTxHash origTx))

/-! ## `Expire` -/

/-- The entries `Expire(time)` starts from: those that entered the pool before `time`, which
the loop over the `entry_time` index visits. -/
def expireRoots (pool : CTxMemPool) (time : Int) : Finset UInt256 :=
  pool.mapTx.filter fun it => (pool.entries it).nTime < time

/-- `Expire(time)`: the number of entries removed, and the pool after. -/
def expire (pool : CTxMemPool) (time : Int) : Nat × CTxMemPool :=
  let stage := pool.calculateDescendantsOf (pool.expireRoots time)
  (stage.card, pool.removeStaged stage)

/-! ## `TrimToSize` -/

/-- The `descendant_score` index of `mapTx`: its first entry, on a pool that has one, is an
entry of the pool. -/
structure DescendantScoreIndex where
  first : (pool : CTxMemPool) → pool.mapTx.Nonempty → UInt256
  first_mem : ∀ pool nonempty, first pool nonempty ∈ pool.mapTx

theorem mem_calculateDescendants_self (pool : CTxMemPool) (entryit : UInt256) :
    entryit ∈ pool.calculateDescendants entryit ∅ :=
  (mem_calculateDescendants closed_empty entryit entryit).2 (.inr (Descends.refl entryit))

/-- A removal of a pooled entry with its descendants shrinks the pool. -/
theorem card_removeStaged_lt (pool : CTxMemPool) {entryit : UInt256} (pooled : entryit ∈ pool.mapTx) :
    (pool.removeStaged (pool.calculateDescendants entryit ∅)).mapTx.card < pool.mapTx.card := by
  rw [(removeStaged_spec pool _).1]
  have smaller : pool.mapTx \ pool.calculateDescendants entryit ∅ ⊆ pool.mapTx.erase entryit := by
    intro y mem
    rw [Finset.mem_sdiff] at mem
    exact Finset.mem_erase.2 ⟨fun same => mem.2 (same ▸ mem_calculateDescendants_self pool entryit), mem.1⟩
  calc (pool.mapTx \ pool.calculateDescendants entryit ∅).card ≤ (pool.mapTx.erase entryit).card :=
        Finset.card_le_card smaller
    _ < pool.mapTx.card := Finset.card_erase_lt_of_mem pooled

/-- `TrimToSize(sizelimit, pvNoSpendsRemaining)`: while the pool is not empty and its memory
usage exceeds `sizelimit`, remove the first entry of the `descendant_score` index with its
descendants. -/
def trimToSize (index : DescendantScoreIndex) (dynamicMemoryUsage : CTxMemPool → Nat) (sizelimit : Nat)
    (pool : CTxMemPool) : CTxMemPool :=
  if oversized : pool.mapTx.Nonempty ∧ dynamicMemoryUsage pool > sizelimit then
    let stage := pool.calculateDescendants (index.first pool oversized.1) ∅
    trimToSize index dynamicMemoryUsage sizelimit (pool.removeStaged stage)
  else pool
termination_by pool.mapTx.card
decreasing_by exact card_removeStaged_lt pool (index.first_mem pool oversized.1)

/-- The rounds `TrimToSize` makes from `pool` to `after`: while the pool has an entry and uses
more than `sizelimit`, a round removes the first entry of the `descendant_score` index with its
in-pool descendants; the rounds stop at a pool that is empty or within the limit. -/
inductive TrimRounds (index : DescendantScoreIndex) (dynamicMemoryUsage : CTxMemPool → Nat) (sizelimit : Nat) :
    CTxMemPool → CTxMemPool → Prop
  | stop {pool : CTxMemPool} :
      ¬(pool.mapTx.Nonempty ∧ dynamicMemoryUsage pool > sizelimit) →
      TrimRounds index dynamicMemoryUsage sizelimit pool pool
  | round {pool middle after : CTxMemPool} (oversized : pool.mapTx.Nonempty ∧ dynamicMemoryUsage pool > sizelimit) :
      RemovesDescendants pool middle {index.first pool oversized.1} → middle.entries = pool.entries →
      TrimRounds index dynamicMemoryUsage sizelimit middle after →
      TrimRounds index dynamicMemoryUsage sizelimit pool after

/-! ## `removeForReorg` -/

/-- The fault `removeForReorg` stops with at an input it has no coins for: the assertion when
the sanity checks are on, the read through the null pointer when they are off. -/
def missingCoinsFault (pool : CTxMemPool) : MempoolFault :=
  if pool.nCheckFrequency ≠ 0 then .assertion else .nullDereference

section Reorg

variable (pcoins : UInt256 → Option CCoins) (nMemPoolHeight : UInt32) (nCoinbaseMaturity : Int → Int)

/-- The loop of `removeForReorg` over the inputs of an entry that spends a coinbase: `true`
when the entry is to be removed.  An input whose transaction is pooled is skipped; for the
others `AccessCoins` gives the coins, and the maturity of the height `coins->nHeight` is read
before `coins` is tested against `nullptr`. -/
def reorgScanInputs (pool : CTxMemPool) : List CTxIn → Except MempoolFault Bool
  | [] => .ok false
  | txin :: rest =>
      if txin.prevout.hash ∈ pool.mapTx then reorgScanInputs pool rest
      else
        let coins := pcoins txin.prevout.hash
        if pool.nCheckFrequency ≠ 0 ∧ coins = none then .error .assertion
        else
          match coins with
          | none => .error .nullDereference
          | some coins =>
              if coins.fCoinBase ∧ (nMemPoolHeight.toNat : Int) - coins.nHeight < nCoinbaseMaturity coins.nHeight
              then .ok true
              else reorgScanInputs pool rest

/-- The scan of `removeForReorg` over `vin` comes to an input that is neither pooled nor in the
coins view: each input before it is pooled, or its coins are not those of an immature coinbase. -/
def ReachesMissingCoins (pool : CTxMemPool) (vin : List CTxIn) : Prop :=
  ∃ pre txin post, vin = pre ++ txin :: post ∧
    (∀ earlier ∈ pre, earlier.prevout.hash ∈ pool.mapTx ∨ ∃ coins, pcoins earlier.prevout.hash = some coins ∧
      ¬(coins.fCoinBase ∧ (nMemPoolHeight.toNat : Int) - coins.nHeight < nCoinbaseMaturity coins.nHeight)) ∧
    txin.prevout.hash ∉ pool.mapTx ∧ pcoins txin.prevout.hash = none

variable (checkFinalTx : CTransaction → Int → Bool) (checkSequenceLocks : CTxMemPoolEntry → Int → Bool)
  (flags : Int)

/-- One round of the loop of `removeForReorg` over `mapTx`: an entry no longer final or whose
sequence locks fail (`CheckFinalTx`, `CheckSequenceLocks` with the entry's lock points) is to
be removed, and so is one spending an immature coinbase. -/
def reorgStep (pool : CTxMemPool) (txToRemove : Finset UInt256) (it : UInt256) :
    Except MempoolFault (Finset UInt256) :=
  let entry := pool.entries it
  if !checkFinalTx entry.tx flags || !checkSequenceLocks entry flags then .ok (insert it txToRemove)
  else if entry.spendsCoinbase then do
    let remove ← reorgScanInputs pcoins nMemPoolHeight nCoinbaseMaturity pool entry.tx.vin
    pure (if remove then insert it txToRemove else txToRemove)
  else .ok txToRemove

/-- An entry at which the loop of `removeForReorg` stops: it is final, its sequence locks hold,
it spends a coinbase, and the scan of its inputs comes to one with no coins. -/
def ReorgFaultsAt (pool : CTxMemPool) (it : UInt256) : Prop :=
  let entry := pool.entries it
  checkFinalTx entry.tx flags = true ∧ checkSequenceLocks entry flags = true ∧ entry.spendsCoinbase = true ∧
    ReachesMissingCoins pcoins nMemPoolHeight nCoinbaseMaturity pool entry.tx.vin

/-- The entries `removeForReorg` starts from. -/
def reorgRoots (pool : CTxMemPool) : Except MempoolFault (Finset UInt256) :=
  (setOrder pool.mapTx).foldlM
    (reorgStep pcoins nMemPoolHeight nCoinbaseMaturity checkFinalTx checkSequenceLocks flags pool) ∅

/-- `removeForReorg(pcoins, nMemPoolHeight, flags)`. -/
def removeForReorg (pool : CTxMemPool) : Except MempoolFault CTxMemPool := do
  let txToRemove ← reorgRoots pcoins nMemPoolHeight nCoinbaseMaturity checkFinalTx checkSequenceLocks flags pool
  pure (pool.removeStaged (pool.calculateDescendantsOf txToRemove))

end Reorg

/-! ## Reachable pools -/

/-- The pools built from an empty one by `addUnchecked` of what `AcceptToMemoryPool` accepts
and by `RemoveStaged` of pooled entries. -/
inductive Reachable : CTxMemPool → Prop
  | empty (nCheckFrequency : UInt32) : Reachable (empty nCheckFrequency)
  | addUnchecked {pool : CTxMemPool} {hash : UInt256} {entry : CTxMemPoolEntry} :
      Reachable pool → hash ∉ pool.mapTx →
      (∀ txin ∈ entry.tx.vin, pool.mapNextTx txin.prevout = none) →
      (∀ y ∈ pool.mapTx, pool.spends y hash = false) →
      (∀ txin ∈ entry.tx.vin, txin.prevout.hash ≠ hash) →
      Reachable (pool.addUnchecked hash entry)
  | removeStaged {pool : CTxMemPool} {stage : Finset UInt256} :
      Reachable pool → stage ⊆ pool.mapTx → Reachable (pool.removeStaged stage)

theorem consistent_empty (nCheckFrequency : UInt32) : (empty nCheckFrequency).Consistent where
  children_eq := fun _ mem => absurd mem (Finset.notMem_empty _)
  parents_eq := fun _ mem => absurd mem (Finset.notMem_empty _)
  mapNextTx_eq_some := fun _ y => by simp [empty]

/-- Every reachable pool passes the link checks of `CTxMemPool::check`. -/
theorem Reachable.consistent {pool : CTxMemPool} (reachable : Reachable pool) : pool.Consistent := by
  induction reachable with
  | empty nCheckFrequency => exact consistent_empty nCheckFrequency
  | addUnchecked _ fresh unspent childless notSelf consistent =>
      exact consistent.addUnchecked fresh unspent childless notSelf
  | removeStaged _ staged consistent => exact consistent.removeStaged staged

/-! ## What each removal starts from -/

theorem removeRecursiveRoots_subset {pool : CTxMemPool} (consistent : pool.Consistent)
    (getTxHash : CTransaction → UInt256) (origTx : CTransaction) :
    pool.removeRecursiveRoots getTxHash origTx ⊆ pool.mapTx := by
  unfold removeRecursiveRoots
  dsimp only
  split
  · rename_i pooled
    exact Finset.singleton_subset_iff.2 pooled
  · intro y mem
    obtain ⟨i, -, spender⟩ := List.mem_filterMap.1 (List.mem_toFinset.1 mem)
    exact ((consistent.mapNextTx_eq_some _ y).1 spender).1

theorem expireRoots_subset (pool : CTxMemPool) (time : Int) : pool.expireRoots time ⊆ pool.mapTx :=
  Finset.filter_subset _ _

section Reorg

variable {pcoins : UInt256 → Option CCoins} {nMemPoolHeight : UInt32} {nCoinbaseMaturity : Int → Int}
  {checkFinalTx : CTransaction → Int → Bool} {checkSequenceLocks : CTxMemPoolEntry → Int → Bool}
  {flags : Int}

theorem reorgStep_subset {pool : CTxMemPool} {txToRemove next : Finset UInt256} {it : UInt256}
    (kept : txToRemove ⊆ pool.mapTx) (pooled : it ∈ pool.mapTx)
    (step : reorgStep pcoins nMemPoolHeight nCoinbaseMaturity checkFinalTx checkSequenceLocks flags pool
      txToRemove it = .ok next) : next ⊆ pool.mapTx := by
  unfold reorgStep at step
  dsimp only at step
  split at step
  · cases step
    exact Finset.insert_subset pooled kept
  · split at step
    · obtain ⟨remove, -, returned⟩ := bind_eq_ok.1 step
      cases returned
      split
      · exact Finset.insert_subset pooled kept
      · exact kept
    · cases step
      exact kept

theorem reorgRoots_subset {pool : CTxMemPool} {txToRemove : Finset UInt256}
    (roots : reorgRoots pcoins nMemPoolHeight nCoinbaseMaturity checkFinalTx checkSequenceLocks flags pool =
      .ok txToRemove) : txToRemove ⊆ pool.mapTx :=
  KeyedFold.foldlM_invariant (· ⊆ pool.mapTx)
    (fun _ _ _ member kept step => reorgStep_subset kept (mem_setOrder.1 member) step)
    (Finset.empty_subset _) roots

theorem not_reachesMissingCoins_nil (pool : CTxMemPool) :
    ¬ReachesMissingCoins pcoins nMemPoolHeight nCoinbaseMaturity pool [] := by
  rintro ⟨pre, txin, post, split, -⟩
  exact List.append_ne_nil_of_right_ne_nil pre (List.cons_ne_nil txin post) split.symm

/-- The scan comes to an input with no coins at the first input, or after an input it skips. -/
theorem reachesMissingCoins_cons (pool : CTxMemPool) (txin : CTxIn) (rest : List CTxIn) :
    ReachesMissingCoins pcoins nMemPoolHeight nCoinbaseMaturity pool (txin :: rest) ↔
      (txin.prevout.hash ∉ pool.mapTx ∧ pcoins txin.prevout.hash = none) ∨
      ((txin.prevout.hash ∈ pool.mapTx ∨ ∃ coins, pcoins txin.prevout.hash = some coins ∧
          ¬(coins.fCoinBase ∧ (nMemPoolHeight.toNat : Int) - coins.nHeight < nCoinbaseMaturity coins.nHeight)) ∧
        ReachesMissingCoins pcoins nMemPoolHeight nCoinbaseMaturity pool rest) := by
  constructor
  · rintro ⟨pre, missing, post, split, earlier, notPooled, noCoins⟩
    cases pre with
    | nil =>
        obtain ⟨rfl, -⟩ := List.cons_eq_cons.1 split
        exact .inl ⟨notPooled, noCoins⟩
    | cons first pre =>
        rw [List.cons_append, List.cons_eq_cons] at split
        obtain ⟨rfl, split⟩ := split
        exact .inr ⟨earlier txin List.mem_cons_self,
          pre, missing, post, split, fun other member => earlier other (List.mem_cons_of_mem _ member),
          notPooled, noCoins⟩
  · rintro (⟨notPooled, noCoins⟩ | ⟨skipped, pre, missing, post, split, earlier, notPooled, noCoins⟩)
    · exact ⟨[], txin, rest, rfl, fun _ member => absurd member List.not_mem_nil, notPooled, noCoins⟩
    · refine ⟨txin :: pre, missing, post, by rw [split, List.cons_append], fun other member => ?_,
        notPooled, noCoins⟩
      rcases List.mem_cons.1 member with rfl | later
      · exact skipped
      · exact earlier other later

/-- The scan over the inputs fails exactly when it comes to an input with no coins, with the
fault of the sanity checks' setting. -/
theorem reorgScanInputs_eq_error_iff (pool : CTxMemPool) (vin : List CTxIn) (e : MempoolFault) :
    reorgScanInputs pcoins nMemPoolHeight nCoinbaseMaturity pool vin = .error e ↔
      ReachesMissingCoins pcoins nMemPoolHeight nCoinbaseMaturity pool vin ∧ e = pool.missingCoinsFault := by
  induction vin with
  | nil =>
      simp only [reorgScanInputs, reduceCtorEq, false_iff, not_and]
      exact fun reaches => absurd reaches (not_reachesMissingCoins_nil pool)
  | cons txin rest ih =>
      rw [reachesMissingCoins_cons, reorgScanInputs]
      by_cases pooled : txin.prevout.hash ∈ pool.mapTx
      · rw [if_pos pooled, ih]
        simp [pooled]
      · rw [if_neg pooled]
        dsimp only
        cases found : pcoins txin.prevout.hash with
        | none =>
            dsimp only
            have raised : (if pool.nCheckFrequency ≠ 0 ∧ (none : Option CCoins) = none then
                Except.error MempoolFault.assertion else Except.error MempoolFault.nullDereference :
                Except MempoolFault Bool) = .error pool.missingCoinsFault := by
              by_cases checked : pool.nCheckFrequency ≠ 0
              · rw [if_pos ⟨checked, rfl⟩, missingCoinsFault, if_pos checked]
              · rw [if_neg fun both => checked both.1, missingCoinsFault, if_neg checked]
            rw [raised, Except.error.injEq]
            exact ⟨fun fault => ⟨.inl ⟨pooled, rfl⟩, fault.symm⟩, fun ⟨_, fault⟩ => fault.symm⟩
        | some coins =>
            have unchecked : ¬(pool.nCheckFrequency ≠ 0 ∧ (some coins : Option CCoins) = none) :=
              fun both => nomatch both.2
            rw [if_neg unchecked]
            dsimp only
            by_cases immature : coins.fCoinBase ∧
                (nMemPoolHeight.toNat : Int) - coins.nHeight < nCoinbaseMaturity coins.nHeight
            · rw [if_pos immature]
              constructor
              · intro raised
                cases raised
              · rintro ⟨⟨-, none⟩ | ⟨inPool | ⟨other, same, mature⟩, -⟩, -⟩
                · cases none
                · exact absurd inPool pooled
                · cases same
                  exact absurd immature mature
            · rw [if_neg immature, ih]
              constructor
              · rintro ⟨reaches, fault⟩
                exact ⟨.inr ⟨.inr ⟨coins, rfl, immature⟩, reaches⟩, fault⟩
              · rintro ⟨⟨-, none⟩ | ⟨-, reaches⟩, fault⟩
                · cases none
                · exact ⟨reaches, fault⟩

/-- One round of the loop fails exactly at an entry it scans and whose scan fails. -/
theorem reorgStep_eq_error_iff (pool : CTxMemPool) (txToRemove : Finset UInt256) (it : UInt256)
    (e : MempoolFault) :
    reorgStep pcoins nMemPoolHeight nCoinbaseMaturity checkFinalTx checkSequenceLocks flags pool
        txToRemove it = .error e ↔
      ReorgFaultsAt pcoins nMemPoolHeight nCoinbaseMaturity checkFinalTx checkSequenceLocks flags pool it ∧
        e = pool.missingCoinsFault := by
  unfold reorgStep ReorgFaultsAt
  dsimp only
  cases final : checkFinalTx (pool.entries it).tx flags
  · simp
  cases locks : checkSequenceLocks (pool.entries it) flags
  · simp
  cases coinbase : (pool.entries it).spendsCoinbase
  · simp
  simp only [Bool.not_true, Bool.or_self, Bool.false_eq_true, if_false, if_true, true_and]
  rw [bind_eq_error, reorgScanInputs_eq_error_iff]
  simp

/-- The loop over `mapTx` fails exactly when one of its entries does; every entry fails with
the same fault, so the order of the loop does not matter. -/
theorem reorgRoots_eq_error_iff (pool : CTxMemPool) (e : MempoolFault) :
    reorgRoots pcoins nMemPoolHeight nCoinbaseMaturity checkFinalTx checkSequenceLocks flags pool = .error e ↔
      (∃ it ∈ pool.mapTx,
        ReorgFaultsAt pcoins nMemPoolHeight nCoinbaseMaturity checkFinalTx checkSequenceLocks flags pool it) ∧
        e = pool.missingCoinsFault := by
  constructor
  · intro raised
    obtain ⟨it, member, txToRemove, fails⟩ := KeyedFold.exists_step_of_foldlM_eq_error raised
    obtain ⟨faults, fault⟩ := (reorgStep_eq_error_iff pool txToRemove it e).1 fails
    exact ⟨⟨it, mem_setOrder.1 member, faults⟩, fault⟩
  · rintro ⟨⟨it, pooled, faults⟩, rfl⟩
    exact KeyedFold.foldlM_eq_error_of_mem
      (fun txToRemove other e' fails => ((reorgStep_eq_error_iff pool txToRemove other e').1 fails).2)
      (fun txToRemove => (reorgStep_eq_error_iff pool txToRemove it _).2 ⟨faults, rfl⟩)
      (mem_setOrder.2 pooled)

/-- `removeForReorg` fails exactly when an entry of the pool is final, has holding sequence
locks, spends a coinbase and has an input that the scan comes to with no coins in the view; it
then stops at the assertion, or with the sanity checks off at the read of `coins->nHeight`
through the null pointer, and removes nothing. -/
theorem removeForReorg_eq_error_iff (pool : CTxMemPool) (e : MempoolFault) :
    removeForReorg pcoins nMemPoolHeight nCoinbaseMaturity checkFinalTx checkSequenceLocks flags pool =
        .error e ↔
      (∃ it ∈ pool.mapTx,
        ReorgFaultsAt pcoins nMemPoolHeight nCoinbaseMaturity checkFinalTx checkSequenceLocks flags pool it) ∧
        e = pool.missingCoinsFault := by
  unfold removeForReorg
  rw [bind_eq_error, reorgRoots_eq_error_iff]
  simp

end Reorg

/-- A pool of one entry, `2`, that spends a coinbase through an input of transaction `1`, with
the sanity checks off. -/
def missingCoinsPool : CTxMemPool :=
  (empty 0).addUnchecked 2 ⟨⟨1, [⟨⟨1, 0⟩, [], 0xffffffff⟩], [], 0⟩, 0, true⟩

theorem mapTx_missingCoinsPool : missingCoinsPool.mapTx = {2} := rfl

theorem reachable_missingCoinsPool : Reachable missingCoinsPool :=
  .addUnchecked (.empty 0) (Finset.notMem_empty 2) (fun _ _ => rfl)
    (fun _ mem => absurd mem (Finset.notMem_empty _)) (by decide)

/-- After a reorganisation whose coins view has no coins for transaction `1`, `removeForReorg`
of the reachable `missingCoinsPool` reads through the null pointer instead of removing `2`. -/
theorem removeForReorg_missingCoinsPool :
    Reachable missingCoinsPool ∧ (missingCoinsPool.entries 2).spendsCoinbase = true ∧
      (1 : UInt256) ∉ missingCoinsPool.mapTx ∧
      removeForReorg (fun _ => none) 100 (fun _ => 30) (fun _ _ => true) (fun _ _ => true) 0
        missingCoinsPool = .error .nullDereference := by
  refine ⟨reachable_missingCoinsPool, rfl, by rw [mapTx_missingCoinsPool]; decide, ?_⟩
  unfold removeForReorg reorgRoots
  rw [mapTx_missingCoinsPool, setOrder_singleton]
  rfl

/-- `TrimToSize` makes its rounds from a reachable pool, and ends at a reachable pool. -/
theorem trimToSize_rounds (index : DescendantScoreIndex) (dynamicMemoryUsage : CTxMemPool → Nat)
    (sizelimit : Nat) {pool : CTxMemPool} (reachable : Reachable pool) :
    TrimRounds index dynamicMemoryUsage sizelimit pool (pool.trimToSize index dynamicMemoryUsage sizelimit) ∧
      Reachable (pool.trimToSize index dynamicMemoryUsage sizelimit) := by
  rw [trimToSize]
  split
  · rename_i oversized
    dsimp only
    have first := index.first_mem pool oversized.1
    have staged (y : UInt256) : y ∈ pool.calculateDescendants (index.first pool oversized.1) ∅ ↔
        ∃ x ∈ ({index.first pool oversized.1} : Finset UInt256), Descends pool.getMemPoolChildren x y := by
      rw [mem_calculateDescendants closed_empty]
      simp
    have stagedPooled : pool.calculateDescendants (index.first pool oversized.1) ∅ ⊆ pool.mapTx := fun y mem => by
      obtain ⟨x, root, descends⟩ := (staged y).1 mem
      rw [Finset.mem_singleton] at root
      exact reachable.consistent.closed_mapTx.mem_of_descends (root ▸ first) descends
    have round := removesDescendants_removeStaged reachable.consistent (Finset.singleton_subset_iff.2 first) staged
    obtain ⟨rest, restReachable⟩ :=
      trimToSize_rounds index dynamicMemoryUsage sizelimit (reachable.removeStaged stagedPooled)
    exact ⟨.round oversized round (removeStaged_spec pool _).2.1 rest, restReachable⟩
  · rename_i within
    exact ⟨.stop within, reachable⟩
termination_by pool.mapTx.card
decreasing_by
  rename_i oversized
  exact card_removeStaged_lt pool (index.first_mem pool oversized.1)

/-- The rounds of `TrimToSize` are one closed removal. -/
theorem TrimRounds.closedRemoval {index : DescendantScoreIndex} {dynamicMemoryUsage : CTxMemPool → Nat}
    {sizelimit : Nat} {pool after : CTxMemPool} (rounds : TrimRounds index dynamicMemoryUsage sizelimit pool after) :
    ClosedRemoval pool after := by
  induction rounds with
  | stop _ => exact ClosedRemoval.refl _
  | round _ removal entries _ rest => exact (removal.closedRemoval entries).trans rest

/-- Each removal, from a reachable pool, removes exactly the in-pool descendants of the entries
it starts from, and leaves no pooled transaction that spends one it removed.  `TrimToSize` starts
each round from the first entry of the `descendant_score` index of the pool left by the round
before, removes that entry's in-pool descendants, and stops at a pool that is empty or within the
limit; all it removes is closed under in-pool spending.  Under them, `CalculateDescendants` adds
to any closed accumulator the descendants of its entry through any links. -/
theorem removals_remove_descendants :
    (∀ (pool : CTxMemPool) (setDescendants : Finset UInt256),
      Closed pool.getMemPoolChildren setDescendants → ∀ entryit y,
        y ∈ pool.calculateDescendants entryit setDescendants ↔
          y ∈ setDescendants ∨ Descends pool.getMemPoolChildren entryit y) ∧
    ∀ pool : CTxMemPool, Reachable pool →
      (∀ getTxHash origTx, RemovesDescendants pool (pool.removeRecursive getTxHash origTx)
        (pool.removeRecursiveRoots getTxHash origTx)) ∧
      (∀ pcoins nMemPoolHeight nCoinbaseMaturity checkFinalTx checkSequenceLocks flags after,
        removeForReorg pcoins nMemPoolHeight nCoinbaseMaturity checkFinalTx checkSequenceLocks flags pool =
            .ok after →
          ∃ txToRemove,
            reorgRoots pcoins nMemPoolHeight nCoinbaseMaturity checkFinalTx checkSequenceLocks flags pool =
              .ok txToRemove ∧ RemovesDescendants pool after txToRemove) ∧
      (∀ time, RemovesDescendants pool (pool.expire time).2 (pool.expireRoots time)) ∧
      (∀ index dynamicMemoryUsage sizelimit,
        TrimRounds index dynamicMemoryUsage sizelimit pool (pool.trimToSize index dynamicMemoryUsage sizelimit) ∧
          RemovesDescendants pool (pool.trimToSize index dynamicMemoryUsage sizelimit)
            (pool.mapTx \ (pool.trimToSize index dynamicMemoryUsage sizelimit).mapTx)) := by
  refine ⟨fun pool setDescendants closed => mem_calculateDescendants closed, fun pool reachable => ?_⟩
  have consistent := reachable.consistent
  refine ⟨fun getTxHash origTx => ?_, ?_, fun time => ?_, fun index dynamicMemoryUsage sizelimit => ?_⟩
  · exact removeStaged_calculateDescendantsOf consistent (removeRecursiveRoots_subset consistent getTxHash origTx)
  · intro pcoins nMemPoolHeight nCoinbaseMaturity checkFinalTx checkSequenceLocks flags after removed
    obtain ⟨txToRemove, roots, returned⟩ := bind_eq_ok.1 removed
    cases returned
    exact ⟨txToRemove, roots, removeStaged_calculateDescendantsOf consistent (reorgRoots_subset roots)⟩
  · exact removeStaged_calculateDescendantsOf consistent (expireRoots_subset pool time)
  · have rounds := (trimToSize_rounds index dynamicMemoryUsage sizelimit reachable).1
    exact ⟨rounds, rounds.closedRemoval.removesDescendants⟩

/-- A pool of two entries: `2` of `missingCoinsPool`, and its child `3`, which spends its first
output. -/
def parentChildPool : CTxMemPool :=
  missingCoinsPool.addUnchecked 3 ⟨⟨1, [⟨⟨2, 0⟩, [], 0xffffffff⟩], [], 0⟩, 0, false⟩

theorem reachable_parentChildPool : Reachable parentChildPool :=
  .addUnchecked reachable_missingCoinsPool (by rw [mapTx_missingCoinsPool, Finset.mem_singleton]; decide) (by decide)
    (fun y mem => by rw [mapTx_missingCoinsPool, Finset.mem_singleton] at mem; subst mem; decide) (by decide)

theorem removals_remove_descendants_parentChildPool :
    Reachable parentChildPool ∧
      RemovesDescendants parentChildPool
        (parentChildPool.removeRecursive (fun _ => 2) ⟨1, [⟨⟨1, 0⟩, [], 0xffffffff⟩], [], 0⟩)
        (parentChildPool.removeRecursiveRoots (fun _ => 2) ⟨1, [⟨⟨1, 0⟩, [], 0xffffffff⟩], [], 0⟩) ∧
      RemovesDescendants parentChildPool (parentChildPool.expire 1).2 (parentChildPool.expireRoots 1) ∧
      TrimRounds ⟨fun _ nonempty => nonempty.choose, fun _ nonempty => nonempty.choose_spec⟩
        (fun pool => pool.mapTx.card) 0 parentChildPool
        (parentChildPool.trimToSize ⟨fun _ nonempty => nonempty.choose, fun _ nonempty => nonempty.choose_spec⟩
          (fun pool => pool.mapTx.card) 0) :=
  have removals := removals_remove_descendants.2 parentChildPool reachable_parentChildPool
  ⟨reachable_parentChildPool, removals.1 _ _, removals.2.2.1 1, (removals.2.2.2 _ _ 0).1⟩

end CTxMemPool

end Dogecoin.Mempool
