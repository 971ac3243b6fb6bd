import Dogecoin.Lib.Worklist
import Dogecoin.Lib.LittleEndian
import Dogecoin.Primitives.Transaction
import Mathlib.Data.Finset.Sort
import Mathlib.Data.FinEnum

/-!
# The memory pool and its links

`CTxMemPool` (txmempool.h) keeps its entries in `mapTx`, indexed by the hash
of their transactions, and for each entry the in-pool transactions it spends
(`parents`) and that spend it (`children`) in `mapLinks`; `mapNextTx` maps each
spent outpoint to the pooled transaction spending it.  An iterator `txiter`
stands for the entry of one hash, so entries are named by their hashes here.
A `setEntries` is a set of them, ordered by `CompareIteratorByHash`, which
compares the hashes as `uint256::operator<` does: `memcmp` of the bytes as
stored, least significant first (`blobKey`).

`CalculateDescendants` adds to a set the descendants of one entry through the
`children` links, with a worklist `stage`.  It is a total function here on any
links: by the measure of `Worklist.pending` the loop ends, whatever the
accumulator holds (`calculateDescendantsLoop`).  When the accumulator is
closed under `children`, as its callers keep it, the result is the
accumulator together with the descendants of the entry
(`mem_calculateDescendants`), and a run over several roots from the empty set
gives the descendants of all of them (`mem_calculateDescendantsOf`).

The statistics of the entries (sizes, fees, counts with ancestors and
descendants, lock points) are not modelled: no removal reads them to decide
what it removes, apart from the order in which `TrimToSize` visits the entries.
-/

namespace Dogecoin.Mempool

open Dogecoin.Primitives LittleEndian Worklist

/-! ## The order of a `setEntries` -/

/-- `base_blob::Compare`: `memcmp` of the 32 bytes as stored, least significant first, read as one number. -/
def blobKey (hash : UInt256) : Nat :=
  leValue (leBytes 32 hash.toNat).reverse

/-- The hash whose bytes, read as `blobKey` reads them, make `key`. -/
def blobOfKey (key : Nat) : UInt256 :=
  BitVec.ofNat 256 (leValue (leBytes 32 key).reverse)

@[simp]
theorem blobOfKey_blobKey (hash : UInt256) : blobOfKey (blobKey hash) = hash := by
  have reversed : (leBytes 32 hash.toNat).reverse.length = 32 := by
    rw [List.length_reverse, length_leBytes]
  have back : leBytes 32 (blobKey hash) = (leBytes 32 hash.toNat).reverse := by
    have bytes := leBytes_leValue (leBytes 32 hash.toNat).reverse
    rwa [reversed] at bytes
  apply BitVec.eq_of_toNat_eq
  rw [blobOfKey, back, List.reverse_reverse, leValue_leBytes, BitVec.toNat_ofNat,
    Nat.mod_eq_of_lt (show hash.toNat % 256 ^ 32 < 2 ^ 256 by omega),
    Nat.mod_eq_of_lt (show hash.toNat < 256 ^ 32 from hash.isLt)]

/-- `setEntries::begin()`: the entry that `CompareIteratorByHash` puts first. -/
def setBegin (stage : Finset UInt256) (nonempty : stage.Nonempty) : UInt256 :=
  blobOfKey ((stage.image blobKey).min' (nonempty.image blobKey))

theorem setBegin_mem (stage : Finset UInt256) (nonempty : stage.Nonempty) :
    setBegin stage nonempty ∈ stage := by
  obtain ⟨first, mem, key⟩ := Finset.mem_image.1 (Finset.min'_mem _ (nonempty.image blobKey))
  rw [setBegin, ← key, blobOfKey_blobKey]
  exact mem

/-- The entries of a `setEntries` in the order a range-based `for` visits them. -/
def setOrder (entries : Finset UInt256) : List UInt256 :=
  ((entries.image blobKey).sort (· ≤ ·)).map blobOfKey

@[simp]
theorem mem_setOrder {entries : Finset UInt256} {hash : UInt256} :
    hash ∈ setOrder entries ↔ hash ∈ entries := by
  simp only [setOrder, List.mem_map, Finset.mem_sort, Finset.mem_image]
  constructor
  · rintro ⟨key, ⟨first, mem, rfl⟩, rfl⟩
    rwa [blobOfKey_blobKey]
  · intro mem
    exact ⟨blobKey hash, ⟨hash, mem, rfl⟩, blobOfKey_blobKey hash⟩

theorem setOrder_singleton (hash : UInt256) : setOrder {hash} = [hash] := by
  rw [setOrder, Finset.image_singleton, Finset.sort_singleton, List.map_singleton, blobOfKey_blobKey]

/-! ## The pool -/

/-- `CTxMemPoolEntry`: the fields that the removals read. -/
structure CTxMemPoolEntry where
  tx : CTransaction
  /-- The local time when the transaction entered the pool. -/
  nTime : Int
  spendsCoinbase : Bool

/-- `CTxMemPool::TxLinks`: the in-pool parents and children of an entry. -/
structure TxLinks where
  parents : Finset UInt256
  children : Finset UInt256

/-- `CTxMemPool`: the entries by the hashes of their transactions, their links and the spent outpoints. -/
structure CTxMemPool where
  /-- The hashes of the pooled transactions, `mapTx` by its txid index. -/
  mapTx : Finset UInt256
  /-- The entry of each pooled hash; what it holds for another hash is never read. -/
  entries : UInt256 → CTxMemPoolEntry
  mapLinks : UInt256 → TxLinks
  /-- The hash of the pooled transaction spending an outpoint. -/
  mapNextTx : COutPoint → Option UInt256
  nCheckFrequency : UInt32

namespace CTxMemPool

/-- `GetMemPoolChildren`. -/
def getMemPoolChildren (pool : CTxMemPool) (entry : UInt256) : Finset UInt256 :=
  (pool.mapLinks entry).children

/-- `GetMemPoolParents`. -/
def getMemPoolParents (pool : CTxMemPool) (entry : UInt256) : Finset UInt256 :=
  (pool.mapLinks entry).parents

/-! ## `CalculateDescendants` -/

/-- The `while` loop of `CalculateDescendants`: visit the first staged entry, and stage its
children that are not in `setDescendants`. -/
def calculateDescendantsLoop (pool : CTxMemPool) (stage setDescendants : Finset UInt256) :
    Finset UInt256 :=
  if nonempty : stage.Nonempty then
    let it := setBegin stage nonempty
    let setDescendants' := insert it setDescendants
    let stage' := stage.erase it ∪ (pool.getMemPoolChildren it).filter (· ∉ setDescendants')
    calculateDescendantsLoop pool stage' setDescendants'
  else setDescendants
termination_by pending setDescendants stage
decreasing_by exact pending_visit_lt (setBegin_mem stage nonempty)

/-- `CalculateDescendants(entryit, setDescendants)`, returning the new `setDescendants`. -/
def calculateDescendants (pool : CTxMemPool) (entryit : UInt256) (setDescendants : Finset UInt256) :
    Finset UInt256 :=
  let stage : Finset UInt256 := if entryit ∉ setDescendants then {entryit} else ∅
  pool.calculateDescendantsLoop stage setDescendants

/-- The callers' loop `for (txiter it : txToRemove) CalculateDescendants(it, setAllRemoves)`,
from an empty `setAllRemoves`. -/
def calculateDescendantsOf (pool : CTxMemPool) (txToRemove : Finset UInt256) : Finset UInt256 :=
  (setOrder txToRemove).foldl (fun setAllRemoves it => pool.calculateDescendants it setAllRemoves) ∅

/-- The loop ends with the start together with the descendants of the roots, when the start is
closed and the worklist invariant holds on entry. -/
theorem mem_calculateDescendantsLoop {pool : CTxMemPool} {base roots : Finset UInt256}
    (closedBase : Closed pool.getMemPoolChildren base) {stage setDescendants : Finset UInt256}
    (upTo : ClosedUpTo pool.getMemPoolChildren setDescendants stage)
    (within : Within pool.getMemPoolChildren base roots (setDescendants ∪ stage))
    (baseVisited : base ⊆ setDescendants) (rootsVisited : roots ⊆ setDescendants ∪ stage) (y : UInt256) :
    y ∈ pool.calculateDescendantsLoop stage setDescendants ↔
      y ∈ base ∨ ∃ x ∈ roots, Descends pool.getMemPoolChildren x y := by
  fun_induction pool.calculateDescendantsLoop stage setDescendants with
  | case1 stage setDescendants nonempty it setDescendants' stage' ih =>
      have staged := setBegin_mem stage nonempty
      exact ih (upTo.visit staged) (within.visit closedBase staged)
        (baseVisited.trans (Finset.subset_insert _ _))
        (rootsVisited.trans (subset_visit setDescendants stage it))
  | case2 stage setDescendants empty =>
      obtain rfl := Finset.not_nonempty_iff_eq_empty.1 empty
      rw [Finset.union_empty] at within rootsVisited
      exact mem_iff_of_closed upTo.closed baseVisited rootsVisited within y

theorem mem_calculateDescendants {pool : CTxMemPool} {setDescendants : Finset UInt256}
    (closed : Closed pool.getMemPoolChildren setDescendants) (entryit y : UInt256) :
    y ∈ pool.calculateDescendants entryit setDescendants ↔
      y ∈ setDescendants ∨ Descends pool.getMemPoolChildren entryit y := by
  have staged : (if entryit ∉ setDescendants then {entryit} else ∅) ⊆ ({entryit} : Finset UInt256) := by
    split <;> simp
  have rootsVisited : {entryit} ⊆ setDescendants ∪ (if entryit ∉ setDescendants then {entryit} else ∅) := by
    by_cases seen : entryit ∈ setDescendants <;> simp [seen]
  rw [calculateDescendants, mem_calculateDescendantsLoop closed (closed.closedUpTo _)
    (within_start staged) Finset.Subset.rfl rootsVisited y]
  simp

theorem closed_calculateDescendants {pool : CTxMemPool} {setDescendants : Finset UInt256}
    (closed : Closed pool.getMemPoolChildren setDescendants) (entryit : UInt256) :
    Closed pool.getMemPoolChildren (pool.calculateDescendants entryit setDescendants) := by
  have mem (y : UInt256) : y ∈ pool.calculateDescendants entryit setDescendants ↔
      y ∈ setDescendants ∨ ∃ x ∈ ({entryit} : Finset UInt256), Descends pool.getMemPoolChildren x y := by
    rw [mem_calculateDescendants closed]
    simp
  exact closed_of_mem_iff closed mem

/-- Running `CalculateDescendants` over several roots from a closed set adds the descendants of each. -/
theorem mem_foldl_calculateDescendants {pool : CTxMemPool} (roots : List UInt256) :
    ∀ {setAllRemoves : Finset UInt256}, Closed pool.getMemPoolChildren setAllRemoves → ∀ y,
      (y ∈ roots.foldl (fun setAllRemoves it => pool.calculateDescendants it setAllRemoves) setAllRemoves ↔
        y ∈ setAllRemoves ∨ ∃ x ∈ roots, Descends pool.getMemPoolChildren x y) := by
  induction roots with
  | nil => simp
  | cons root roots ih =>
      intro setAllRemoves closed y
      rw [List.foldl_cons, ih (closed_calculateDescendants closed root), mem_calculateDescendants closed]
      simp only [List.mem_cons, exists_eq_or_imp]
      tauto

theorem mem_calculateDescendantsOf (pool : CTxMemPool) (txToRemove : Finset UInt256) (y : UInt256) :
    y ∈ pool.calculateDescendantsOf txToRemove ↔ ∃ x ∈ txToRemove, Descends pool.getMemPoolChildren x y := by
  rw [calculateDescendantsOf, mem_foldl_calculateDescendants _ closed_empty]
  simp

/-! ## `addUnchecked` -/

/-- `addUnchecked(hash, entry, setAncestors)` on the entries and the links.  `mapTx.insert`
keeps an entry of the same hash in place and returns it; the outpoints the entry spends join
`mapNextTx` unless they are there (`std::map::insert`); the entry gets the pooled transactions
it spends as parents (`UpdateParent`) and becomes a child of each of its parents
(`UpdateAncestorsOf(true, ...)`).  The ancestors only feed the statistics. -/
def addUnchecked (pool : CTxMemPool) (hash : UInt256) (entry : CTxMemPoolEntry) : CTxMemPool :=
  let fresh := hash ∉ pool.mapTx
  let newEntry := if fresh then entry else pool.entries hash
  let mapTx := insert hash pool.mapTx
  let setParentTransactions := (newEntry.tx.vin.map (·.prevout.hash)).toFinset
  -- `mapLinks.insert(make_pair(newit, TxLinks()))` adds empty links for a new entry only
  let oldLinks := fun it => if it = hash ∧ fresh then (⟨∅, ∅⟩ : TxLinks) else pool.mapLinks it
  let parentIters := (oldLinks hash).parents ∪ setParentTransactions.filter (· ∈ mapTx)
  { pool with
    mapTx := mapTx
    entries := fun it => if it = hash then newEntry else pool.entries it
    mapLinks := fun it =>
      { parents := if it = hash then parentIters else (oldLinks it).parents
        children := if it ∈ parentIters then insert hash (oldLinks it).children else (oldLinks it).children }
    mapNextTx := fun outpoint =>
      match pool.mapNextTx outpoint with
      | some spender => some spender
      | none => if outpoint ∈ newEntry.tx.vin.map (·.prevout) then some hash else none }

/-! ## `RemoveStaged` -/

/-- The first loop of `UpdateAncestorsOf(false, it, setAncestors)`: `UpdateChild(piter, it, false)`
for each parent `piter` of `it`, which takes `it` out of the children of its parents. -/
def updateAncestorsOf (pool : CTxMemPool) (it : UInt256) : CTxMemPool :=
  let parentIters := pool.getMemPoolParents it
  { pool with
    mapLinks := fun entry =>
      if entry ∈ parentIters then { pool.mapLinks entry with children := (pool.mapLinks entry).children.erase it }
      else pool.mapLinks entry }

/-- `UpdateChildrenForRemoval(it)`: `UpdateParent(updateIt, it, false)` for each child of `it`. -/
def updateChildrenForRemoval (pool : CTxMemPool) (it : UInt256) : CTxMemPool :=
  let setMemPoolChildren := pool.getMemPoolChildren it
  { pool with
    mapLinks := fun entry =>
      if entry ∈ setMemPoolChildren then { pool.mapLinks entry with parents := (pool.mapLinks entry).parents.erase it }
      else pool.mapLinks entry }

/-- `UpdateForRemoveFromMempool(entriesToRemove, false)` on the links: every removed entry leaves
the children of its parents, then the parents of its children. -/
def updateForRemoveFromMempool (pool : CTxMemPool) (entriesToRemove : Finset UInt256) : CTxMemPool :=
  let severed := (setOrder entriesToRemove).foldl updateAncestorsOf pool
  (setOrder entriesToRemove).foldl updateChildrenForRemoval severed

/-- The outpoints that a pooled transaction spends. -/
def prevouts (pool : CTxMemPool) (it : UInt256) : List COutPoint :=
  (pool.entries it).tx.vin.map (·.prevout)

/-- `removeUnchecked(it, reason)`: the spent outpoints leave `mapNextTx`, the entry leaves
`mapLinks` and `mapTx`. -/
def removeUnchecked (pool : CTxMemPool) (it : UInt256) : CTxMemPool :=
  { pool with
    mapNextTx := fun outpoint => if outpoint ∈ pool.prevouts it then none else pool.mapNextTx outpoint
    mapLinks := fun entry => if entry = it then ⟨∅, ∅⟩ else pool.mapLinks entry
    mapTx := pool.mapTx.erase it }

/-- `RemoveStaged(stage, false, reason)`. -/
def removeStaged (pool : CTxMemPool) (stage : Finset UInt256) : CTxMemPool :=
  (setOrder stage).foldl removeUnchecked (pool.updateForRemoveFromMempool stage)

section Links

variable (pool : CTxMemPool)

@[simp]
theorem updateAncestorsOf_mapTx (it : UInt256) : (pool.updateAncestorsOf it).mapTx = pool.mapTx := rfl

@[simp]
theorem updateAncestorsOf_entries (it : UInt256) : (pool.updateAncestorsOf it).entries = pool.entries := rfl

@[simp]
theorem updateAncestorsOf_mapNextTx (it : UInt256) :
    (pool.updateAncestorsOf it).mapNextTx = pool.mapNextTx := rfl

@[simp]
theorem getMemPoolParents_updateAncestorsOf (it entry : UInt256) :
    (pool.updateAncestorsOf it).getMemPoolParents entry = pool.getMemPoolParents entry := by
  unfold updateAncestorsOf getMemPoolParents
  dsimp only
  split_ifs <;> rfl

theorem getMemPoolChildren_updateAncestorsOf (it entry : UInt256) :
    (pool.updateAncestorsOf it).getMemPoolChildren entry =
      (pool.getMemPoolChildren entry).filter fun child => ¬(child = it ∧ entry ∈ pool.getMemPoolParents it) := by
  ext child
  unfold updateAncestorsOf getMemPoolChildren getMemPoolParents
  dsimp only
  split_ifs with parent
  · simp only [Finset.mem_erase, Finset.mem_filter, parent, and_true]
    tauto
  · simp [parent]

@[simp]
theorem updateChildrenForRemoval_mapTx (it : UInt256) :
    (pool.updateChildrenForRemoval it).mapTx = pool.mapTx := rfl

@[simp]
theorem updateChildrenForRemoval_entries (it : UInt256) :
    (pool.updateChildrenForRemoval it).entries = pool.entries := rfl

@[simp]
theorem updateChildrenForRemoval_mapNextTx (it : UInt256) :
    (pool.updateChildrenForRemoval it).mapNextTx = pool.mapNextTx := rfl

@[simp]
theorem getMemPoolChildren_updateChildrenForRemoval (it entry : UInt256) :
    (pool.updateChildrenForRemoval it).getMemPoolChildren entry = pool.getMemPoolChildren entry := by
  unfold updateChildrenForRemoval getMemPoolChildren
  dsimp only
  split_ifs <;> rfl

theorem getMemPoolParents_updateChildrenForRemoval (it entry : UInt256) :
    (pool.updateChildrenForRemoval it).getMemPoolParents entry =
      (pool.getMemPoolParents entry).filter fun parent => ¬(parent = it ∧ entry ∈ pool.getMemPoolChildren it) := by
  ext parent
  unfold updateChildrenForRemoval getMemPoolParents getMemPoolChildren
  dsimp only
  split_ifs with child
  · simp only [Finset.mem_erase, Finset.mem_filter, child, and_true]
    tauto
  · simp [child]

@[simp]
theorem removeUnchecked_mapTx (it : UInt256) : (pool.removeUnchecked it).mapTx = pool.mapTx.erase it := rfl

@[simp]
theorem removeUnchecked_entries (it : UInt256) : (pool.removeUnchecked it).entries = pool.entries := rfl

/-! ### The loops of `UpdateForRemoveFromMempool` and `RemoveStaged` -/

theorem foldl_updateAncestorsOf_spec (removed : List UInt256) :
    ∀ pool : CTxMemPool, let severed := removed.foldl updateAncestorsOf pool
      severed.mapTx = pool.mapTx ∧ severed.entries = pool.entries ∧ severed.mapNextTx = pool.mapNextTx ∧
      (∀ entry, severed.getMemPoolParents entry = pool.getMemPoolParents entry) ∧
      ∀ entry, severed.getMemPoolChildren entry = (pool.getMemPoolChildren entry).filter
        fun child => ¬(child ∈ removed ∧ entry ∈ pool.getMemPoolParents child) := by
  induction removed with
  | nil => simp
  | cons it removed ih =>
      intro pool
      obtain ⟨mapTx, entries, mapNextTx, parents, children⟩ := ih (pool.updateAncestorsOf it)
      refine ⟨mapTx, entries, mapNextTx, fun entry => by rw [List.foldl_cons, parents,
        getMemPoolParents_updateAncestorsOf], fun entry => ?_⟩
      rw [List.foldl_cons, children, getMemPoolChildren_updateAncestorsOf, Finset.filter_filter]
      simp only [getMemPoolParents_updateAncestorsOf, List.mem_cons]
      congr 1
      ext child
      by_cases same : child = it
      · subst same
        tauto
      · tauto

theorem foldl_updateChildrenForRemoval_spec (removed : List UInt256) :
    ∀ pool : CTxMemPool, let severed := removed.foldl updateChildrenForRemoval pool
      severed.mapTx = pool.mapTx ∧ severed.entries = pool.entries ∧ severed.mapNextTx = pool.mapNextTx ∧
      (∀ entry, severed.getMemPoolChildren entry = pool.getMemPoolChildren entry) ∧
      ∀ entry, severed.getMemPoolParents entry = (pool.getMemPoolParents entry).filter
        fun parent => ¬(parent ∈ removed ∧ entry ∈ pool.getMemPoolChildren parent) := by
  induction removed with
  | nil => simp
  | cons it removed ih =>
      intro pool
      obtain ⟨mapTx, entries, mapNextTx, children, parents⟩ := ih (pool.updateChildrenForRemoval it)
      refine ⟨mapTx, entries, mapNextTx, fun entry => by rw [List.foldl_cons, children,
        getMemPoolChildren_updateChildrenForRemoval], fun entry => ?_⟩
      rw [List.foldl_cons, parents, getMemPoolParents_updateChildrenForRemoval, Finset.filter_filter]
      simp only [getMemPoolChildren_updateChildrenForRemoval, List.mem_cons]
      congr 1
      ext parent
      by_cases same : parent = it
      · subst same
        tauto
      · tauto

theorem foldl_removeUnchecked_spec (removed : List UInt256) :
    ∀ pool : CTxMemPool, let after := removed.foldl removeUnchecked pool
      after.mapTx = pool.mapTx.filter (· ∉ removed) ∧ after.entries = pool.entries ∧
      (∀ entry, entry ∉ removed → after.mapLinks entry = pool.mapLinks entry) ∧
      ∀ outpoint, after.mapNextTx outpoint =
        if ∃ it ∈ removed, outpoint ∈ pool.prevouts it then none else pool.mapNextTx outpoint := by
  induction removed with
  | nil => simp
  | cons it removed ih =>
      intro pool
      obtain ⟨mapTx, entries, links, nextTx⟩ := ih (pool.removeUnchecked it)
      refine ⟨?_, entries, fun entry kept => ?_, fun outpoint => ?_⟩
      · rw [List.foldl_cons, mapTx, removeUnchecked_mapTx]
        ext entry
        simp only [Finset.mem_filter, Finset.mem_erase, List.mem_cons, not_or]
        tauto
      · rw [List.foldl_cons, links entry (fun mem => kept (List.mem_cons_of_mem it mem))]
        exact if_neg fun same => kept (List.mem_cons.2 (.inl same))
      · rw [List.foldl_cons, nextTx]
        change (if ∃ r ∈ removed, outpoint ∈ pool.prevouts r then none
          else (pool.removeUnchecked it).mapNextTx outpoint) = _
        have spent : (∃ r ∈ it :: removed, outpoint ∈ pool.prevouts r) ↔
            outpoint ∈ pool.prevouts it ∨ ∃ r ∈ removed, outpoint ∈ pool.prevouts r := by
          simp only [List.mem_cons, or_and_right, exists_or, exists_eq_left]
        by_cases first : outpoint ∈ pool.prevouts it
        · rw [if_pos (spent.2 (.inl first))]
          split
          · rfl
          · exact if_pos first
        · by_cases rest : ∃ r ∈ removed, outpoint ∈ pool.prevouts r
          · rw [if_pos rest, if_pos (spent.2 (.inr rest))]
          · rw [if_neg rest, if_neg fun both => (spent.1 both).elim first rest]
            exact if_neg first

end Links

theorem removeStaged_spec (pool : CTxMemPool) (stage : Finset UInt256) :
    let after := pool.removeStaged stage
    after.mapTx = pool.mapTx \ stage ∧ after.entries = pool.entries ∧
      (∀ entry ∉ stage, after.getMemPoolChildren entry = (pool.getMemPoolChildren entry).filter
        fun child => ¬(child ∈ stage ∧ entry ∈ pool.getMemPoolParents child)) ∧
      (∀ entry ∉ stage, after.getMemPoolParents entry = (pool.getMemPoolParents entry).filter
        fun parent => ¬(parent ∈ stage ∧ entry ∈ pool.getMemPoolChildren parent)) ∧
      ∀ outpoint, after.mapNextTx outpoint =
        if ∃ it ∈ stage, outpoint ∈ pool.prevouts it then none else pool.mapNextTx outpoint := by
  have unlinked : pool.updateForRemoveFromMempool stage = (setOrder stage).foldl updateChildrenForRemoval
      ((setOrder stage).foldl updateAncestorsOf pool) := rfl
  obtain ⟨mapTx₁, entries₁, nextTx₁, parents₁, children₁⟩ :=
    foldl_updateAncestorsOf_spec (setOrder stage) pool
  obtain ⟨mapTx₂, entries₂, nextTx₂, children₂, parents₂⟩ :=
    foldl_updateChildrenForRemoval_spec (setOrder stage) ((setOrder stage).foldl updateAncestorsOf pool)
  obtain ⟨mapTx₃, entries₃, links₃, nextTx₃⟩ :=
    foldl_removeUnchecked_spec (setOrder stage) (pool.updateForRemoveFromMempool stage)
  simp only [mem_setOrder] at children₁ parents₂ mapTx₃ links₃ nextTx₃
  have kept (entry : UInt256) (notRemoved : entry ∉ stage) :
      (pool.removeStaged stage).mapLinks entry = (pool.updateForRemoveFromMempool stage).mapLinks entry :=
    links₃ entry notRemoved
  refine ⟨?_, ?_, fun entry notRemoved => ?_, fun entry notRemoved => ?_, fun outpoint => ?_⟩
  · rw [removeStaged, mapTx₃, unlinked, mapTx₂, mapTx₁, Finset.sdiff_eq_filter]
  · rw [removeStaged, entries₃, unlinked, entries₂, entries₁]
  · change ((pool.removeStaged stage).mapLinks entry).children = _
    rw [kept entry notRemoved]
    change (pool.updateForRemoveFromMempool stage).getMemPoolChildren entry = _
    rw [unlinked, children₂, children₁]
  · change ((pool.removeStaged stage).mapLinks entry).parents = _
    rw [kept entry notRemoved]
    change (pool.updateForRemoveFromMempool stage).getMemPoolParents entry = _
    rw [unlinked, parents₂, parents₁]
    congr 1
    ext parent
    rw [children₁]
    simp [notRemoved]
  · have samePrevouts : (pool.updateForRemoveFromMempool stage).prevouts = pool.prevouts := by
      funext it
      rw [prevouts, prevouts, unlinked, entries₂, entries₁]
    rw [removeStaged, nextTx₃, samePrevouts, unlinked, nextTx₂, nextTx₁]

end CTxMemPool

end Dogecoin.Mempool
