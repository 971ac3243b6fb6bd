import Dogecoin.Mempool.TxMemPool

/-!
# A consistent pool, and removing descendants from it

`CTxMemPool::check` asserts that the links of every entry are what the pooled
transactions spend: the parents of an entry are the pooled transactions whose
outputs it spends, its children are the pooled transactions spending its
outputs, and `mapNextTx` maps each spent outpoint to the pooled transaction
spending it and holds nothing else.  `Consistent` states these three facts.

`RemoveStaged` keeps a pool consistent, whatever set of its entries it removes
(`Consistent.removeStaged`), and `addUnchecked` does when the new transaction
conflicts with no pooled one and no pooled transaction spends it, which is
what `AcceptToMemoryPool` makes sure of (`Consistent.addUnchecked`).

On a consistent pool the links lead to the same descendants as what the
transactions spend, so removing what `CalculateDescendants` collects from a
set of entries removes exactly the in-pool descendants of that set, and leaves
no pooled transaction spending one removed (`removeStaged_calculateDescendantsOf`).
-/

namespace Dogecoin.Mempool

open Dogecoin.Primitives Worklist

namespace CTxMemPool

/-- The pooled transaction `y` spends an output of the transaction with hash `x`. -/
def spends (pool : CTxMemPool) (y x : UInt256) : Bool :=
  (pool.entries y).tx.vin.any fun txin => txin.prevout.hash == x

/-- The pooled transactions spending an output of `x`: what `check` rebuilds from `mapNextTx`. -/
def inPoolChildren (pool : CTxMemPool) (x : UInt256) : Finset UInt256 :=
  pool.mapTx.filter fun y => pool.spends y x

/-- The pooled transactions whose outputs `y` spends: `setParentCheck` of `check`. -/
def inPoolParents (pool : CTxMemPool) (y : UInt256) : Finset UInt256 :=
  pool.mapTx.filter fun x => pool.spends y x

/-- The links and `mapNextTx` agree with what the pooled transactions spend, as
`CTxMemPool::check` asserts. -/
structure Consistent (pool : CTxMemPool) : Prop where
  children_eq : ∀ x ∈ pool.mapTx, pool.getMemPoolChildren x = pool.inPoolChildren x
  parents_eq : ∀ y ∈ pool.mapTx, pool.getMemPoolParents y = pool.inPoolParents y
  mapNextTx_eq_some : ∀ outpoint y, pool.mapNextTx outpoint = some y ↔
    y ∈ pool.mapTx ∧ outpoint ∈ pool.prevouts y

theorem mem_inPoolChildren {pool : CTxMemPool} {x y : UInt256} :
    y ∈ pool.inPoolChildren x ↔ y ∈ pool.mapTx ∧ pool.spends y x = true := by
  simp [inPoolChildren]

theorem mem_inPoolParents {pool : CTxMemPool} {x y : UInt256} :
    x ∈ pool.inPoolParents y ↔ x ∈ pool.mapTx ∧ pool.spends y x = true := by
  simp [inPoolParents]

theorem closed_mapTx_inPoolChildren (pool : CTxMemPool) : Closed pool.inPoolChildren pool.mapTx :=
  fun _ _ _ child => (mem_inPoolChildren.1 child).1

namespace Consistent

variable {pool : CTxMemPool} (consistent : pool.Consistent)
include consistent

theorem closed_mapTx : Closed pool.getMemPoolChildren pool.mapTx := by
  intro x mem
  rw [consistent.children_eq x mem]
  exact closed_mapTx_inPoolChildren pool x mem

/-- From a pooled entry, the links lead to the in-pool descendants. -/
theorem descends_iff {x y : UInt256} (mem : x ∈ pool.mapTx) :
    Descends pool.getMemPoolChildren x y ↔ Descends pool.inPoolChildren x y :=
  descends_iff_of_agree (closed_mapTx_inPoolChildren pool) consistent.children_eq mem

end Consistent

/-! ## `RemoveStaged` keeps a pool consistent -/

@[simp]
theorem spends_removeStaged (pool : CTxMemPool) (stage : Finset UInt256) :
    (pool.removeStaged stage).spends = pool.spends := by
  funext y x
  rw [spends, spends, (removeStaged_spec pool stage).2.1]

@[simp]
theorem prevouts_removeStaged (pool : CTxMemPool) (stage : Finset UInt256) :
    (pool.removeStaged stage).prevouts = pool.prevouts := by
  funext y
  rw [prevouts, prevouts, (removeStaged_spec pool stage).2.1]

theorem Consistent.removeStaged {pool : CTxMemPool} (consistent : pool.Consistent)
    {stage : Finset UInt256} (staged : stage ⊆ pool.mapTx) : (pool.removeStaged stage).Consistent := by
  obtain ⟨mapTx, -, children, parents, nextTx⟩ := removeStaged_spec pool stage
  refine ⟨fun x mem => ?_, fun y mem => ?_, fun outpoint y => ?_⟩
  · rw [mapTx, Finset.mem_sdiff] at mem
    rw [children x mem.2, consistent.children_eq x mem.1]
    ext child
    simp only [Finset.mem_filter, mem_inPoolChildren, mapTx, Finset.mem_sdiff, spends_removeStaged]
    constructor
    · rintro ⟨⟨pooled, spent⟩, notRemoved⟩
      exact ⟨⟨pooled, fun removed => notRemoved ⟨removed, by
        rw [consistent.parents_eq child pooled]
        exact mem_inPoolParents.2 ⟨mem.1, spent⟩⟩⟩, spent⟩
    · rintro ⟨⟨pooled, notRemoved⟩, spent⟩
      exact ⟨⟨pooled, spent⟩, fun removed => notRemoved removed.1⟩
  · rw [mapTx, Finset.mem_sdiff] at mem
    rw [parents y mem.2, consistent.parents_eq y mem.1]
    ext parent
    simp only [Finset.mem_filter, mem_inPoolParents, mapTx, Finset.mem_sdiff, spends_removeStaged]
    constructor
    · rintro ⟨⟨pooled, spent⟩, notRemoved⟩
      exact ⟨⟨pooled, fun removed => notRemoved ⟨removed, by
        rw [consistent.children_eq parent pooled]
        exact mem_inPoolChildren.2 ⟨mem.1, spent⟩⟩⟩, spent⟩
    · rintro ⟨⟨pooled, notRemoved⟩, spent⟩
      exact ⟨⟨pooled, spent⟩, fun removed => notRemoved removed.1⟩
  · rw [nextTx, mapTx, prevouts_removeStaged, Finset.mem_sdiff]
    split
    · rename_i spentByRemoved
      obtain ⟨it, removed, spent⟩ := spentByRemoved
      have spender := (consistent.mapNextTx_eq_some outpoint it).2 ⟨staged removed, spent⟩
      refine ⟨fun found => (nomatch found), fun ⟨⟨pooled, notRemoved⟩, spentByY⟩ => (notRemoved ?_).elim⟩
      have same := (consistent.mapNextTx_eq_some outpoint y).2 ⟨pooled, spentByY⟩
      rw [spender] at same
      exact Option.some_injective _ same ▸ removed
    · rename_i notSpentByRemoved
      rw [consistent.mapNextTx_eq_some outpoint y]
      constructor
      · rintro ⟨pooled, spent⟩
        exact ⟨⟨pooled, fun removed => notSpentByRemoved ⟨y, removed, spent⟩⟩, spent⟩
      · rintro ⟨⟨pooled, -⟩, spent⟩
        exact ⟨pooled, spent⟩

/-! ## Removing the descendants of a set -/

/-- What a removal of the descendants of `start` does: it removes exactly the in-pool
descendants of `start`, and no transaction it keeps spends one it removed. -/
structure RemovesDescendants (pool after : CTxMemPool) (start : Finset UInt256) : Prop where
  kept_subset : after.mapTx ⊆ pool.mapTx
  removed_iff : ∀ y, y ∈ pool.mapTx ∧ y ∉ after.mapTx ↔ ∃ x ∈ start, Descends pool.inPoolChildren x y
  no_spender : ∀ y ∈ after.mapTx, ∀ x ∈ pool.mapTx, x ∉ after.mapTx → pool.spends y x = false

/-- `RemoveStaged` of a set that holds exactly the descendants of some pooled entries through
the links removes their in-pool descendants. -/
theorem removesDescendants_removeStaged {pool : CTxMemPool} (consistent : pool.Consistent)
    {start stage : Finset UInt256} (pooled : start ⊆ pool.mapTx)
    (staged : ∀ y, y ∈ stage ↔ ∃ x ∈ start, Descends pool.getMemPoolChildren x y) :
    RemovesDescendants pool (pool.removeStaged stage) start := by
  have removed (y : UInt256) : y ∈ stage ↔ ∃ x ∈ start, Descends pool.inPoolChildren x y := by
    rw [staged]
    exact exists_congr fun x => and_congr_right fun root => consistent.descends_iff (pooled root)
  have mapTx := (removeStaged_spec pool stage).1
  refine ⟨by rw [mapTx]; exact Finset.sdiff_subset, fun y => ?_, fun y kept x pooledX removedX => ?_⟩
  · rw [mapTx, Finset.mem_sdiff, ← removed]
    constructor
    · rintro ⟨inPool, notKept⟩
      exact not_not.1 fun notRemoved => notKept ⟨inPool, notRemoved⟩
    · intro isRemoved
      obtain ⟨x, root, descends⟩ := (removed y).1 isRemoved
      exact ⟨(closed_mapTx_inPoolChildren pool).mem_of_descends (pooled root) descends,
        fun ⟨_, notRemoved⟩ => notRemoved isRemoved⟩
  · rw [mapTx, Finset.mem_sdiff] at kept removedX
    have xRemoved : x ∈ stage := not_not.1 fun notRemoved => removedX ⟨pooledX, notRemoved⟩
    obtain ⟨root, isRoot, descends⟩ := (removed x).1 xRemoved
    cases spent : pool.spends y x with
    | false => rfl
    | true =>
        exact absurd ((removed y).2 ⟨root, isRoot, descends.tail (mem_inPoolChildren.2 ⟨kept.1, spent⟩)⟩)
          kept.2

/-- `RemoveStaged` of what `CalculateDescendants` collects from pooled entries removes their
descendants. -/
theorem removeStaged_calculateDescendantsOf {pool : CTxMemPool} (consistent : pool.Consistent)
    {start : Finset UInt256} (pooled : start ⊆ pool.mapTx) :
    RemovesDescendants pool (pool.removeStaged (pool.calculateDescendantsOf start)) start :=
  removesDescendants_removeStaged consistent pooled (mem_calculateDescendantsOf pool start)

/-- A removal that keeps the entries and removes a set closed under in-pool spending. -/
structure ClosedRemoval (pool after : CTxMemPool) : Prop where
  kept_subset : after.mapTx ⊆ pool.mapTx
  entries_eq : after.entries = pool.entries
  closed : Closed pool.inPoolChildren (pool.mapTx \ after.mapTx)

theorem ClosedRemoval.refl (pool : CTxMemPool) : ClosedRemoval pool pool :=
  ⟨Finset.Subset.rfl, rfl, by rw [Finset.sdiff_self]; exact closed_empty⟩

/-- Two closed removals in a row are one: a child of an entry the second one removes is
removed by the first one or, still pooled, by the second one. -/
theorem ClosedRemoval.trans {pool middle after : CTxMemPool} (first : ClosedRemoval pool middle)
    (second : ClosedRemoval middle after) : ClosedRemoval pool after := by
  refine ⟨second.kept_subset.trans first.kept_subset, second.entries_eq.trans first.entries_eq, ?_⟩
  intro x removed y child
  rw [Finset.mem_sdiff] at removed ⊢
  obtain ⟨pooled, spent⟩ := mem_inPoolChildren.1 child
  refine ⟨pooled, fun kept => ?_⟩
  by_cases stays : x ∈ middle.mapTx
  · have spends : middle.spends = pool.spends := by
      funext y x
      rw [spends, spends, first.entries_eq]
    have childInMiddle : y ∈ middle.inPoolChildren x :=
      mem_inPoolChildren.2 ⟨second.kept_subset kept, spends ▸ spent⟩
    exact (Finset.mem_sdiff.1 (second.closed x (Finset.mem_sdiff.2 ⟨stays, removed.2⟩) childInMiddle)).2 kept
  · exact (Finset.mem_sdiff.1 (first.closed x (Finset.mem_sdiff.2 ⟨removed.1, stays⟩) child)).2
      (second.kept_subset kept)

/-- A closed removal removes the in-pool descendants of what it removes, and leaves no spender of them. -/
theorem ClosedRemoval.removesDescendants {pool after : CTxMemPool} (removal : ClosedRemoval pool after) :
    RemovesDescendants pool after (pool.mapTx \ after.mapTx) := by
  refine ⟨removal.kept_subset, fun y => ?_, fun y kept x pooled removed => ?_⟩
  · rw [← Finset.mem_sdiff]
    constructor
    · intro mem
      exact ⟨y, mem, Descends.refl y⟩
    · rintro ⟨x, root, descends⟩
      exact removal.closed.mem_of_descends root descends
  · cases spent : pool.spends y x with
    | false => rfl
    | true =>
        have child : y ∈ pool.inPoolChildren x := mem_inPoolChildren.2 ⟨removal.kept_subset kept, spent⟩
        exact absurd kept (Finset.mem_sdiff.1 (removal.closed x (Finset.mem_sdiff.2 ⟨pooled, removed⟩) child)).2

/-- The removal of the descendants of a set is closed. -/
theorem RemovesDescendants.closedRemoval {pool after : CTxMemPool} {start : Finset UInt256}
    (removal : RemovesDescendants pool after start) (entries : after.entries = pool.entries) :
    ClosedRemoval pool after := by
  refine ⟨removal.kept_subset, entries, fun x removed y child => ?_⟩
  rw [Finset.mem_sdiff] at removed
  obtain ⟨root, isRoot, descends⟩ := (removal.removed_iff x).1 removed
  exact Finset.mem_sdiff.2 ((removal.removed_iff y).2 ⟨root, isRoot, descends.tail child⟩)

/-! ## `addUnchecked` keeps a pool consistent -/

section Add

variable {pool : CTxMemPool} {hash : UInt256} {entry : CTxMemPoolEntry}

@[simp]
theorem addUnchecked_mapTx : (pool.addUnchecked hash entry).mapTx = insert hash pool.mapTx := rfl

theorem addUnchecked_entries (fresh : hash ∉ pool.mapTx) (y : UInt256) :
    (pool.addUnchecked hash entry).entries y = if y = hash then entry else pool.entries y := by
  unfold addUnchecked
  dsimp only
  rw [if_pos fresh]

theorem spends_addUnchecked (fresh : hash ∉ pool.mapTx) (y x : UInt256) :
    (pool.addUnchecked hash entry).spends y x =
      if y = hash then entry.tx.vin.any (fun txin => txin.prevout.hash == x) else pool.spends y x := by
  rw [spends, addUnchecked_entries fresh]
  split <;> rfl

theorem prevouts_addUnchecked (fresh : hash ∉ pool.mapTx) (y : UInt256) :
    (pool.addUnchecked hash entry).prevouts y =
      if y = hash then entry.tx.vin.map (·.prevout) else pool.prevouts y := by
  rw [prevouts, addUnchecked_entries fresh]
  split <;> rfl

theorem mapNextTx_addUnchecked_of_some {outpoint : COutPoint}
    {spender : UInt256} (old : pool.mapNextTx outpoint = some spender) :
    (pool.addUnchecked hash entry).mapNextTx outpoint = some spender := by
  unfold addUnchecked
  dsimp only
  rw [old]

theorem mapNextTx_addUnchecked_of_none (fresh : hash ∉ pool.mapTx) {outpoint : COutPoint}
    (old : pool.mapNextTx outpoint = none) :
    (pool.addUnchecked hash entry).mapNextTx outpoint =
      if outpoint ∈ entry.tx.vin.map (·.prevout) then some hash else none := by
  unfold addUnchecked
  dsimp only
  rw [old, if_pos fresh]

/-- The parents the entry gets: the pooled transactions it spends. -/
theorem getMemPoolParents_addUnchecked (fresh : hash ∉ pool.mapTx) (it : UInt256) :
    (pool.addUnchecked hash entry).getMemPoolParents it =
      if it = hash then (entry.tx.vin.map (·.prevout.hash)).toFinset.filter (· ∈ insert hash pool.mapTx)
      else pool.getMemPoolParents it := by
  by_cases same : it = hash <;> simp [addUnchecked, getMemPoolParents, same, fresh]

theorem getMemPoolChildren_addUnchecked (fresh : hash ∉ pool.mapTx) {it : UInt256} (old : it ≠ hash) :
    (pool.addUnchecked hash entry).getMemPoolChildren it =
      if it ∈ entry.tx.vin.map (·.prevout.hash) ∧ it ∈ pool.mapTx then insert hash (pool.getMemPoolChildren it)
      else pool.getMemPoolChildren it := by
  simp [addUnchecked, getMemPoolChildren, old, fresh]

theorem mem_prevoutHashes {x : UInt256} :
    x ∈ entry.tx.vin.map (·.prevout.hash) ↔ entry.tx.vin.any (fun txin => txin.prevout.hash == x) = true := by
  simp

variable (fresh : hash ∉ pool.mapTx) (notSelf : ∀ txin ∈ entry.tx.vin, txin.prevout.hash ≠ hash)
include fresh notSelf

omit fresh in
theorem not_mem_prevoutHashes : hash ∉ entry.tx.vin.map (·.prevout.hash) := by
  intro mem
  obtain ⟨txin, input, same⟩ := List.mem_map.1 mem
  exact notSelf txin input same

theorem getMemPoolChildren_addUnchecked_self :
    (pool.addUnchecked hash entry).getMemPoolChildren hash = ∅ := by
  simpa [addUnchecked, getMemPoolChildren, fresh] using notSelf

/-- Nothing spends the new entry, not even itself. -/
theorem inPoolChildren_addUnchecked_self (childless : ∀ y ∈ pool.mapTx, pool.spends y hash = false) :
    (pool.addUnchecked hash entry).inPoolChildren hash = ∅ := by
  ext y
  rw [mem_inPoolChildren, spends_addUnchecked fresh, addUnchecked_mapTx, Finset.mem_insert]
  simp only [Finset.notMem_empty, iff_false, not_and]
  intro pooled
  split
  · rw [← mem_prevoutHashes]
    exact not_mem_prevoutHashes notSelf
  · rename_i notNew
    rw [childless y (pooled.resolve_left notNew)]
    exact Bool.false_ne_true

omit notSelf in
theorem inPoolChildren_addUnchecked (x : UInt256) :
    (pool.addUnchecked hash entry).inPoolChildren x =
      if x ∈ entry.tx.vin.map (·.prevout.hash) then insert hash (pool.inPoolChildren x)
      else pool.inPoolChildren x := by
  ext y
  rw [mem_inPoolChildren, spends_addUnchecked fresh, addUnchecked_mapTx, Finset.mem_insert]
  by_cases isNew : y = hash
  · have notOld : y ∉ pool.inPoolChildren x := fun mem => fresh (isNew ▸ (mem_inPoolChildren.1 mem).1)
    rw [if_pos isNew, ← mem_prevoutHashes]
    split <;> simp_all
  · rw [if_neg isNew]
    split <;> simp [isNew, mem_inPoolChildren]

omit notSelf in
theorem inPoolParents_addUnchecked (childless : ∀ y ∈ pool.mapTx, pool.spends y hash = false)
    {y : UInt256} (pooled : y ∈ pool.mapTx) :
    (pool.addUnchecked hash entry).inPoolParents y = pool.inPoolParents y := by
  have old : y ≠ hash := fun same => fresh (same ▸ pooled)
  ext x
  rw [mem_inPoolParents, mem_inPoolParents, spends_addUnchecked fresh, if_neg old, addUnchecked_mapTx,
    Finset.mem_insert]
  constructor
  · rintro ⟨isNew | inPool, spent⟩
    · rw [isNew, childless y pooled] at spent
      exact absurd spent Bool.false_ne_true
    · exact ⟨inPool, spent⟩
  · rintro ⟨inPool, spent⟩
    exact ⟨.inr inPool, spent⟩

end Add

/-- `addUnchecked` keeps a pool consistent when the entry is new, conflicts with no pooled
transaction and has no pooled spender, as `AcceptToMemoryPool` ensures. -/
theorem Consistent.addUnchecked {pool : CTxMemPool} {hash : UInt256} {entry : CTxMemPoolEntry}
    (consistent : pool.Consistent) (fresh : hash ∉ pool.mapTx)
    (unspent : ∀ txin ∈ entry.tx.vin, pool.mapNextTx txin.prevout = none)
    (childless : ∀ y ∈ pool.mapTx, pool.spends y hash = false)
    (notSelf : ∀ txin ∈ entry.tx.vin, txin.prevout.hash ≠ hash) :
    (pool.addUnchecked hash entry).Consistent := by
  refine ⟨fun x mem => ?_, fun y mem => ?_, fun outpoint y => ?_⟩
  · by_cases same : x = hash
    · rw [same, getMemPoolChildren_addUnchecked_self fresh notSelf,
        inPoolChildren_addUnchecked_self fresh notSelf childless]
    · have pooled := Finset.mem_of_mem_insert_of_ne mem same
      rw [getMemPoolChildren_addUnchecked fresh same, inPoolChildren_addUnchecked fresh x,
        consistent.children_eq x pooled]
      simp only [pooled, and_true]
  · by_cases same : y = hash
    · rw [getMemPoolParents_addUnchecked fresh, if_pos same]
      ext x
      rw [mem_inPoolParents, spends_addUnchecked fresh, if_pos same, addUnchecked_mapTx, ← mem_prevoutHashes,
        Finset.mem_filter, List.mem_toFinset, and_comm]
    · have pooled := Finset.mem_of_mem_insert_of_ne mem same
      rw [getMemPoolParents_addUnchecked fresh, if_neg same, inPoolParents_addUnchecked fresh childless pooled,
        consistent.parents_eq y pooled]
  · rw [prevouts_addUnchecked fresh, addUnchecked_mapTx]
    have newSpends : outpoint ∈ entry.tx.vin.map (·.prevout) → pool.mapNextTx outpoint = none := by
      rw [List.mem_map]
      rintro ⟨txin, input, rfl⟩
      exact unspent txin input
    cases old : pool.mapNextTx outpoint with
    | some spender =>
        obtain ⟨pooled, spentBy⟩ := (consistent.mapNextTx_eq_some outpoint spender).1 old
        have other : spender ≠ hash := fun same => fresh (same ▸ pooled)
        rw [mapNextTx_addUnchecked_of_some old]
        constructor
        · rintro ⟨⟩
          exact ⟨Finset.mem_insert_of_mem pooled, by rw [if_neg other]; exact spentBy⟩
        · rintro ⟨mem, spentByY⟩
          split at spentByY
          · rw [newSpends spentByY] at old
            exact absurd old (by simp)
          · rename_i notNew
            rw [← old, (consistent.mapNextTx_eq_some outpoint y).2
              ⟨Finset.mem_of_mem_insert_of_ne mem notNew, spentByY⟩]
    | none =>
        rw [mapNextTx_addUnchecked_of_none fresh old]
        by_cases isNew : y = hash
        · rw [if_pos isNew, isNew]
          simp
        · rw [if_neg isNew]
          constructor
          · intro found
            split at found
            · exact absurd (Option.some_injective _ found) (Ne.symm isNew)
            · exact absurd found (by simp)
          · rintro ⟨mem, spentByY⟩
            have spender := (consistent.mapNextTx_eq_some outpoint y).2
              ⟨Finset.mem_of_mem_insert_of_ne mem isNew, spentByY⟩
            rw [old] at spender
            exact absurd spender (by simp)

end CTxMemPool

end Dogecoin.Mempool
