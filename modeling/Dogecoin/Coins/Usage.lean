import Dogecoin.Coins.Simulation
import Dogecoin.Lib.AListValues

/-!
# The memory counter of a cache

`cachedCoinsUsage` is meant to hold the sum of `DynamicMemoryUsage` over the
coins of all entries, the sum that `SelfTest` in src/src/test/coins_tests.cpp
recomputes.  Six places change it.  Five adjust it by the usage of the coins
they add or remove.  The sixth, `ModifyNewCoins`, hands the modifier a
remembered usage of zero for an entry that may already exist: the counter stays
exact only because such an entry is pruned and cleaned up, so that it holds no
memory.  A coinbase `ModifyNewCoins` over unspent cached coins, outside the
documented contract, leaves the counter too high.

Within the contract the counter is exact for every cache of every permitted
run from a database of cleaned-up records, which is what `CCoinsViewDB` holds:
every record it returns comes out of `CCoins::Unserialize`, which ends with
`Cleanup`.  While a modifier is alive the counter lacks the usage of the
modified entry and holds the remembered usage instead.
-/

namespace Dogecoin.Coins

variable {κ : Type}

/-- The sum that `SelfTest` recomputes: every entry's `DynamicMemoryUsage`. -/
def coinsUsage (mapCoins : CCoinsMap κ) : Nat :=
  AListValues.weight (fun _ entry => entry.coins.dynamicMemoryUsage) mapCoins.entries

/-- Every cache of the stack satisfies `holds`. -/
def CoinsView.EveryCache (holds : CacheState κ → Prop) : CoinsView κ → Prop
  | .db _ => True
  | .cache self base => holds self ∧ base.EveryCache holds

@[simp]
theorem coinsUsage_empty : coinsUsage (∅ : CCoinsMap κ) = 0 := rfl

variable [DecidableEq κ]

/-! ## Sums after `insert` and `erase` -/

theorem coinsUsage_insert_of_lookup_none {mapCoins : CCoinsMap κ} {txhash : κ}
    {entry : CCoinsCacheEntry} (missing : mapCoins.lookup txhash = none) :
    coinsUsage (mapCoins.insert txhash entry) =
      coinsUsage mapCoins + entry.coins.dynamicMemoryUsage := by
  have total := AListValues.weight_insert
    (fun _ entry => entry.coins.dynamicMemoryUsage) txhash entry mapCoins
  rw [missing, AListValues.weightAt, Option.elim_none, Nat.add_zero] at total
  exact total

theorem coinsUsage_insert_of_lookup_some {mapCoins : CCoinsMap κ} {txhash : κ}
    {old : CCoinsCacheEntry} (entry : CCoinsCacheEntry)
    (found : mapCoins.lookup txhash = some old) :
    coinsUsage (mapCoins.insert txhash entry) + old.coins.dynamicMemoryUsage =
      coinsUsage mapCoins + entry.coins.dynamicMemoryUsage := by
  have total := AListValues.weight_insert
    (fun _ entry => entry.coins.dynamicMemoryUsage) txhash entry mapCoins
  rw [found, AListValues.weightAt, Option.elim_some] at total
  exact total

theorem coinsUsage_erase_of_lookup_some {mapCoins : CCoinsMap κ} {txhash : κ}
    {old : CCoinsCacheEntry} (found : mapCoins.lookup txhash = some old) :
    coinsUsage (mapCoins.erase txhash) + old.coins.dynamicMemoryUsage =
      coinsUsage mapCoins := by
  have total := AListValues.weight_erase
    (fun _ entry => entry.coins.dynamicMemoryUsage) txhash mapCoins
  rw [found, AListValues.weightAt, Option.elim_some] at total
  exact total

theorem usage_le_coinsUsage {mapCoins : CCoinsMap κ} {txhash : κ}
    {entry : CCoinsCacheEntry} (found : mapCoins.lookup txhash = some entry) :
    entry.coins.dynamicMemoryUsage ≤ coinsUsage mapCoins :=
  @AListValues.le_weight_of_lookup κ CCoinsCacheEntry _
    (fun _ entry => entry.coins.dynamicMemoryUsage) txhash entry mapCoins found

/-! ## Cleaned-up records -/

/-- Every entry of a cache map holds coins that `Cleanup` does not change. -/
def MapCleaned (mapCoins : CCoinsMap κ) : Prop :=
  AListValues.Every (fun entry : CCoinsCacheEntry => entry.coins.cleanup = entry.coins)
    mapCoins

/-- Every record of the database is unchanged by `Cleanup`. -/
def StoreCleaned (coins : CoinsStore κ) : Prop :=
  AListValues.Every (fun stored : CCoins => stored.cleanup = stored) coins

/-- A cleaned-up pruned entry holds no memory. -/
theorem usage_eq_zero_of_pruned {entry : CCoinsCacheEntry}
    (tidy : entry.coins.cleanup = entry.coins) (pruned : entry.coins.isPruned = true) :
    entry.coins.dynamicMemoryUsage = 0 := by
  rw [← tidy]
  exact CCoins.dynamicMemoryUsage_cleanup_of_isPruned pruned

/-! ## The invariant -/

/-- The counter of a cache is exact and its coins are cleaned up. -/
structure CacheState.UsageExact (state : CacheState κ) : Prop where
  accounted : state.cachedCoinsUsage = coinsUsage state.cacheCoins
  cleaned : MapCleaned state.cacheCoins

theorem CacheState.usageExact_empty : (CacheState.empty : CacheState κ).UsageExact :=
  ⟨rfl, fun _ _ found => by simp [CacheState.empty] at found⟩

/--
An entry of an exact cache uses at most the counter, so subtracting its usage,
as `Uncache`, `BatchWrite` and the modifier's destructor do, does not wrap.
-/
theorem CacheState.UsageExact.usage_le {self : CacheState κ} (exact : self.UsageExact)
    {txhash : κ} {entry : CCoinsCacheEntry} (found : self.cacheCoins.lookup txhash = some entry) :
    entry.coins.dynamicMemoryUsage ≤ self.cachedCoinsUsage :=
  exact.accounted ▸ usage_le_coinsUsage found

/-- Every cache of the stack is exact, and the database holds cleaned-up records. -/
def CoinsView.UsageExact : CoinsView κ → Prop
  | .db coins => StoreCleaned coins
  | .cache self base => base.UsageExact ∧ self.UsageExact

theorem CoinsView.UsageExact.everyCache :
    ∀ {view : CoinsView κ}, view.UsageExact →
      view.EveryCache fun self => self.cachedCoinsUsage = coinsUsage self.cacheCoins ∧
        ∀ txhash entry, self.cacheCoins.lookup txhash = some entry →
          entry.coins.dynamicMemoryUsage ≤ self.cachedCoinsUsage
  | .db _, _ => trivial
  | .cache _ _, ⟨below, here⟩ =>
      ⟨⟨here.accounted, fun _ _ found => here.usage_le found⟩, below.everyCache⟩

/-- Through an exact stack, every answer is a cleaned-up record. -/
theorem CoinsView.UsageExact.view_cleaned :
    ∀ {view : CoinsView κ}, view.UsageExact →
      ∀ {txhash : κ} {coins : CCoins}, view.view txhash = some coins →
        coins.cleanup = coins
  | .db _, cleaned, _, _, found => cleaned _ _ found
  | .cache self base, ⟨below, here⟩, txhash, coins, found => by
      cases lookedUp : self.cacheCoins.lookup txhash with
      | none =>
          rw [CoinsView.view, overlay_of_lookup_none lookedUp] at found
          exact below.view_cleaned found
      | some entry =>
          rw [CoinsView.view, overlay_of_lookup_some lookedUp] at found
          obtain rfl := Option.some.inj found
          exact here.cleaned _ _ lookedUp

/-! ## Reads -/

/-- `GetCoins` keeps every cache it fills exact: it adds the usage of what it caches. -/
theorem CoinsView.getCoins_usageExact : ∀ (view : CoinsView κ) (txhash : κ),
    view.UsageExact → (view.getCoins txhash).2.UsageExact
  | .db _, _, cleaned => cleaned
  | .cache self base, txhash, ⟨below, here⟩ => by
      have baseExact := getCoins_usageExact base txhash below
      cases found : self.cacheCoins.lookup txhash with
      | some entry =>
          simp only [getCoins, CacheState.fetchCoins_of_lookup_some found]
          exact ⟨below, here⟩
      | none =>
          rcases baseAnswer : base.getCoins txhash with ⟨read, base'⟩
          rw [baseAnswer] at baseExact
          cases read with
          | none =>
              simp only [getCoins, CacheState.fetchCoins_of_base_none found baseAnswer]
              exact ⟨baseExact, here⟩
          | some tmp =>
              have answer := CoinsView.getCoins_fst base txhash
              rw [baseAnswer] at answer
              simp only [getCoins, CacheState.fetchCoins_of_base_some found baseAnswer]
              refine ⟨baseExact, ?_, ?_⟩
              · rw [here.accounted, coinsUsage_insert_of_lookup_none found]
              · exact AListValues.Every.insert (here.cleaned.others txhash)
                  (below.view_cleaned answer.symm)

/-! ## Writing a child's entries -/

/-- One iteration of `BatchWrite` with a cleaned-up child entry keeps the cache exact. -/
theorem CacheState.batchWriteEntry_usageExact {self self' : CacheState κ} {txhash : κ}
    {child : CCoinsCacheEntry} (exact : self.UsageExact)
    (tidy : child.coins.cleanup = child.coins)
    (step : self.batchWriteEntry txhash child = .ok self') : self'.UsageExact := by
  have counted := exact.accounted
  rcases batchWriteEntry_cases step with
    ⟨-, rfl⟩ | ⟨-, -, -, -, rfl⟩ | ⟨-, missing, -, rfl⟩ |
      ⟨ours, -, found, -, -, -, rfl⟩ | ⟨ours, -, found, -, -, rfl⟩
  · exact exact
  · exact exact
  · refine ⟨?_, AListValues.Every.insert (exact.cleaned.others txhash) tidy⟩
    dsimp only
    rw [counted, coinsUsage_insert_of_lookup_none missing]
  · refine ⟨?_, exact.cleaned.erase txhash⟩
    have erased := coinsUsage_erase_of_lookup_some found
    dsimp only
    omega
  · refine ⟨?_, AListValues.Every.insert (exact.cleaned.others txhash) tidy⟩
    have replaced := coinsUsage_insert_of_lookup_some
      { coins := child.coins, flags := { ours.flags with dirty := true } } found
    have bounded := usage_le_coinsUsage found
    dsimp only at replaced ⊢
    omega

/-- `BatchWrite` of a cleaned-up child map keeps the cache exact. -/
theorem CacheState.batchWrite_usageExact {self self' : CacheState κ}
    {mapCoins : CCoinsMap κ} (exact : self.UsageExact) (tidy : MapCleaned mapCoins)
    (written : self.batchWrite mapCoins = .ok self') : self'.UsageExact := by
  apply KeyedFold.foldlM_invariant CacheState.UsageExact _ exact written
  intro state state' entry member holds step
  exact batchWriteEntry_usageExact holds (tidy.of_mem member) step

/-- The database keeps only cleaned-up records when it is written cleaned-up coins. -/
theorem CoinsStore.batchWrite_cleaned {coins : CoinsStore κ} {mapCoins : CCoinsMap κ}
    (cleaned : StoreCleaned coins) (tidy : MapCleaned mapCoins) :
    StoreCleaned (coins.batchWrite mapCoins) := by
  apply KeyedFold.foldl_invariant StoreCleaned _ cleaned
  intro store entry member kept
  split
  · split
    · exact AListValues.Every.erase kept _
    · exact AListValues.Every.insert (kept.others _) (tidy.of_mem member)
  · exact kept

theorem CoinsView.batchWrite_usageExact {view view' : CoinsView κ}
    {mapCoins : CCoinsMap κ} (exact : view.UsageExact) (tidy : MapCleaned mapCoins)
    (written : view.batchWrite mapCoins = .ok view') : view'.UsageExact := by
  cases view with
  | db coins =>
      simp only [batchWrite, Except.ok.injEq] at written
      subst written
      exact CoinsStore.batchWrite_cleaned exact tidy
  | cache self base =>
      simp only [batchWrite] at written
      cases wrote : self.batchWrite mapCoins with
      | error failure => simp [wrote, Except.map] at written
      | ok self' =>
          simp only [wrote, Except.map, Except.ok.injEq] at written
          subst written
          exact ⟨exact.1, CacheState.batchWrite_usageExact exact.2 tidy wrote⟩

/-- `Flush` leaves the cache empty and its base exact. -/
theorem CacheState.flush_usageExact {self self' : CacheState κ} {base base' : CoinsView κ}
    (exact : (CoinsView.cache self base).UsageExact)
    (flushed : self.flush base = .ok (self', base')) :
    self' = CacheState.empty ∧ base'.UsageExact := by
  unfold CacheState.flush at flushed
  cases written : base.batchWrite self.cacheCoins with
  | error failure => simp [written, Except.map] at flushed
  | ok written' =>
      simp only [written, Except.map, Except.ok.injEq, Prod.mk.injEq] at flushed
      obtain ⟨rfl, rfl⟩ := flushed
      exact ⟨rfl, CoinsView.batchWrite_usageExact exact.1 exact.2.cleaned written⟩

/-- `Uncache` subtracts the usage of the entry it forgets. -/
theorem CacheState.uncache_usageExact {self : CacheState κ} (exact : self.UsageExact)
    (hash : κ) : (self.uncache hash).UsageExact := by
  unfold CacheState.uncache
  cases found : self.cacheCoins.lookup hash with
  | none => exact exact
  | some entry =>
      dsimp only
      split
      · refine ⟨?_, exact.cleaned.erase hash⟩
        have erased := coinsUsage_erase_of_lookup_some found
        have counted := exact.accounted
        dsimp only
        omega
      · exact exact

/-! ## Operations at a depth -/

/-- An action on one cache that keeps every cache exact. -/
def PreservesUsage (act : CacheState κ → CoinsView κ → Except String (CoinsView κ)) :
    Prop :=
  ∀ self base view', (CoinsView.cache self base).UsageExact → act self base = .ok view' →
    view'.UsageExact

/-- An action that keeps the stack exact does so at whatever depth it is applied. -/
theorem CoinsView.onCache_usageExact
    {act : CacheState κ → CoinsView κ → Except String (CoinsView κ)}
    (preserves : PreservesUsage act) :
    ∀ {depth : Nat} {view view' : CoinsView κ}, view.UsageExact →
      view.onCache act depth = some (.ok view') → view'.UsageExact
  | _, .db _, _, _, acted => by simp [onCache] at acted
  | 0, .cache self base, _, exact, acted =>
      preserves self base _ exact (Option.some.inj acted)
  | depth + 1, .cache self base, _, exact, acted => by
      simp only [onCache] at acted
      cases below : base.onCache act depth with
      | none => simp [below] at acted
      | some result =>
          cases result with
          | error failure => simp [below, Except.map] at acted
          | ok base' =>
              simp only [below, Option.map_some, Except.map, Option.some.injEq,
                Except.ok.injEq] at acted
              subst acted
              exact ⟨onCache_usageExact preserves exact.1 below, exact.2⟩

theorem flush_preservesUsage :
    @PreservesUsage κ _ fun self base =>
      (self.flush base).map fun flushed => .cache flushed.1 flushed.2 := by
  intro self base view' exact acted
  cases flushed : self.flush base with
  | error failure => simp [flushed, Except.map] at acted
  | ok result =>
      simp only [flushed, Except.map, Except.ok.injEq] at acted
      subst acted
      obtain ⟨emptied, baseExact⟩ := CacheState.flush_usageExact exact flushed
      rw [emptied]
      exact ⟨baseExact, CacheState.usageExact_empty⟩

theorem pop_preservesUsage :
    @PreservesUsage κ _ fun self base => (self.flush base).map Prod.snd := by
  intro self base view' exact acted
  cases flushed : self.flush base with
  | error failure => simp [flushed, Except.map] at acted
  | ok result =>
      simp only [flushed, Except.map, Except.ok.injEq] at acted
      subst acted
      exact (CacheState.flush_usageExact exact flushed).2

theorem uncache_preservesUsage (txhash : κ) :
    @PreservesUsage κ _ fun self base => .ok (.cache (self.uncache txhash) base) := by
  intro self base view' exact acted
  cases acted
  exact ⟨exact.1, CacheState.uncache_usageExact exact.2 txhash⟩

/-! ## Modifications of the top cache -/

/--
The counter while a modifier is alive: it lacks the usage of the modified
entry and holds the usage the modifier remembered instead, and every other
entry is cleaned up.
-/
structure ModifierAccounted (state : CacheState κ) (modifier : CCoinsModifier κ) :
    Prop where
  entry : ∃ entry, state.cacheCoins.lookup modifier.txhash = some entry ∧
    state.cachedCoinsUsage + entry.coins.dynamicMemoryUsage =
      coinsUsage state.cacheCoins + modifier.cachedCoinUsage
  others : ∀ other ≠ modifier.txhash, ∀ entry, state.cacheCoins.lookup other = some entry →
    entry.coins.cleanup = entry.coins

/-- The destructor's subtraction of the remembered usage does not wrap. -/
theorem ModifierAccounted.cachedCoinUsage_le {self : CacheState κ}
    {modifier : CCoinsModifier κ} (accounted : ModifierAccounted self modifier) :
    modifier.cachedCoinUsage ≤ self.cachedCoinsUsage := by
  obtain ⟨entry, found, counted⟩ := accounted.entry
  have bounded := usage_le_coinsUsage found
  omega

/-- `ModifyCoins` remembers the usage of the entry it hands out, zero for a new one. -/
theorem CacheState.modifyCoins_accounted {self : CacheState κ} {base : CoinsView κ}
    {txhash : κ} (exact : (CoinsView.cache self base).UsageExact) :
    ModifierAccounted (self.modifyCoins base txhash).1 (self.modifyCoins base txhash).2.2 ∧
      (self.modifyCoins base txhash).2.1.UsageExact := by
  have counted := exact.2.accounted
  unfold CacheState.modifyCoins
  cases found : self.cacheCoins.lookup txhash with
  | none =>
      refine ⟨⟨⟨_, AList.lookup_insert _, ?_⟩, ?_⟩,
        CoinsView.getCoins_usageExact base txhash exact.1⟩
      · dsimp only
        rw [coinsUsage_insert_of_lookup_none found, counted, Nat.add_zero]
      · intro other apart entry lookedUp
        rw [AList.lookup_insert_ne apart] at lookedUp
        exact exact.2.cleaned other entry lookedUp
  | some entry =>
      refine ⟨⟨⟨_, AList.lookup_insert _, ?_⟩, ?_⟩, exact.1⟩
      · have replaced := coinsUsage_insert_of_lookup_some
          { entry with flags := { entry.flags with dirty := true } } found
        dsimp only at replaced ⊢
        omega
      · intro other apart entry' lookedUp
        rw [AList.lookup_insert_ne apart] at lookedUp
        exact exact.2.cleaned other entry' lookedUp

/--
`ModifyNewCoins` remembers a usage of zero, which is right when the entry it
clears, if any, is pruned: a cleaned-up pruned entry holds no memory.
-/
theorem CacheState.modifyNewCoins_accounted {self self' : CacheState κ}
    {modifier : CCoinsModifier κ} {txhash : κ} {coinbase : Bool}
    (exact : self.UsageExact)
    (pruned : ∀ entry, self.cacheCoins.lookup txhash = some entry →
      entry.coins.isPruned = true)
    (created : self.modifyNewCoins txhash coinbase = .ok (self', modifier)) :
    ModifierAccounted self' modifier := by
  unfold CacheState.modifyNewCoins at created
  dsimp only at created
  split at created
  · cases created
  · simp only [Except.ok.injEq, Prod.mk.injEq] at created
    obtain ⟨rfl, rfl⟩ := created
    refine ⟨⟨_, AList.lookup_insert _, ?_⟩, ?_⟩
    · have counted := exact.accounted
      dsimp only
      rw [CCoins.dynamicMemoryUsage_empty, Nat.add_zero, Nat.add_zero, counted]
      cases found : self.cacheCoins.lookup txhash with
      | none =>
          rw [coinsUsage_insert_of_lookup_none found, CCoins.dynamicMemoryUsage_empty,
            Nat.add_zero]
      | some old =>
          simp only [Option.getD_some]
          have replaced := coinsUsage_insert_of_lookup_some
            { coins := CCoins.empty,
              flags := ⟨true, old.flags.fresh || (!coinbase && !old.flags.dirty)⟩ } found
          have noMemory := usage_eq_zero_of_pruned (exact.cleaned txhash old found)
            (pruned old found)
          rw [CCoins.dynamicMemoryUsage_empty] at replaced
          omega
    · intro other apart entry lookedUp
      rw [AList.lookup_insert_ne apart] at lookedUp
      exact exact.cleaned other entry lookedUp

/-- The assignment through a modifier leaves the counter alone. -/
theorem CCoinsModifier.assign_accounted {modifier : CCoinsModifier κ}
    {self : CacheState κ} (accounted : ModifierAccounted self modifier) (coins : CCoins) :
    ModifierAccounted (modifier.assign self coins) modifier := by
  obtain ⟨⟨entry, found, counted⟩, others⟩ := accounted
  rw [CCoinsModifier.assign_of_lookup_some found]
  refine ⟨⟨_, AList.lookup_insert _, ?_⟩, ?_⟩
  · have replaced := coinsUsage_insert_of_lookup_some { entry with coins := coins } found
    dsimp only at replaced ⊢
    omega
  · intro other apart entry' lookedUp
    rw [AList.lookup_insert_ne apart] at lookedUp
    exact others other apart entry' lookedUp

/--
The destructor subtracts the remembered usage and adds that of the cleaned-up
coins, so the cache is exact again.
-/
theorem CCoinsModifier.destroy_usageExact {modifier : CCoinsModifier κ}
    {self : CacheState κ} (accounted : ModifierAccounted self modifier) :
    (modifier.destroy self).UsageExact := by
  have noWrap := accounted.cachedCoinUsage_le
  obtain ⟨⟨entry, found, counted⟩, others⟩ := accounted
  unfold CCoinsModifier.destroy
  rw [found]
  dsimp only
  split
  · refine ⟨?_, AListValues.Every.erase_of_others others⟩
    have erased := coinsUsage_erase_of_lookup_some found
    dsimp only
    omega
  · refine ⟨?_, AListValues.Every.insert others (CCoins.cleanup_cleanup _)⟩
    have replaced := coinsUsage_insert_of_lookup_some
      { entry with coins := entry.coins.cleanup } found
    dsimp only at replaced ⊢
    omega

theorem CacheState.modifyAndAssign_usageExact {self : CacheState κ} {base : CoinsView κ}
    {txhash : κ} {coins : CCoins} (exact : (CoinsView.cache self base).UsageExact) :
    (CoinsView.cache (self.modifyAndAssign base txhash coins).1
      (self.modifyAndAssign base txhash coins).2).UsageExact := by
  obtain ⟨accounted, baseExact⟩ := @CacheState.modifyCoins_accounted κ _ self base txhash exact
  exact ⟨baseExact,
    CCoinsModifier.destroy_usageExact (CCoinsModifier.assign_accounted accounted coins)⟩

theorem CacheState.modifyNewAndAssign_usageExact {self self' : CacheState κ} {txhash : κ}
    {coinbase : Bool} {coins : CCoins} (exact : self.UsageExact)
    (pruned : ∀ entry, self.cacheCoins.lookup txhash = some entry →
      entry.coins.isPruned = true)
    (modified : self.modifyNewAndAssign txhash coinbase coins = .ok self') :
    self'.UsageExact := by
  unfold CacheState.modifyNewAndAssign at modified
  cases created : self.modifyNewCoins txhash coinbase with
  | error failure => simp [created, Except.map] at modified
  | ok result =>
      rcases result with ⟨self₁, modifier⟩
      simp only [created, Except.map, Except.ok.injEq] at modified
      subst modified
      exact CCoinsModifier.destroy_usageExact
        (CCoinsModifier.assign_accounted (modifyNewCoins_accounted exact pruned created) coins)

/-- Nothing unspent through the view means the top cache's entry, if any, is pruned. -/
theorem CoinsView.pruned_of_notUnspent {self : CacheState κ} {base : CoinsView κ}
    {txhash : κ} (absent : (CoinsView.cache self base).notUnspent txhash = true) :
    ∀ entry, self.cacheCoins.lookup txhash = some entry → entry.coins.isPruned = true := by
  intro entry found
  have nothingLive := live_view_of_notUnspent absent
  rw [CoinsView.view, overlay_of_lookup_some found] at nothingLive
  exact isPruned_of_live_some_eq_none nothingLive

/-! ## Every step of a run -/

/-- The step lemma: a permitted operation keeps every cache of the stack exact. -/
theorem CoinsView.step_usageExact {view view' : CoinsView κ} {op : StackOp κ}
    (exact : view.UsageExact) (permitted : op.Permitted view)
    (stepped : view.step op = some (.ok view')) : view'.UsageExact := by
  cases op with
  | modifyCoins txhash coins =>
      cases view with
      | db _ => simp [step, onCache] at stepped
      | cache self base =>
          simp only [step, onCache, Option.some.injEq, Except.ok.injEq] at stepped
          subst stepped
          exact CacheState.modifyAndAssign_usageExact exact
  | modifyNewCoins txhash coinbase coins =>
      cases view with
      | db _ => simp [step, onCache] at stepped
      | cache self base =>
          simp only [step, onCache, Option.some.injEq] at stepped
          cases modified : self.modifyNewAndAssign txhash coinbase coins with
          | error failure => simp [modified, Except.map] at stepped
          | ok self' =>
              simp only [modified, Except.map, Except.ok.injEq] at stepped
              subst stepped
              exact ⟨exact.1, CacheState.modifyNewAndAssign_usageExact exact.2
                (pruned_of_notUnspent permitted.2) modified⟩
  | accessCoins txhash =>
      simp only [step, Option.some.injEq, Except.ok.injEq] at stepped
      subst stepped
      exact getCoins_usageExact view txhash exact
  | flush depth => exact onCache_usageExact flush_preservesUsage exact stepped
  | uncache depth txhash =>
      exact onCache_usageExact (uncache_preservesUsage txhash) exact stepped
  | push =>
      simp only [step, Option.some.injEq, Except.ok.injEq] at stepped
      subst stepped
      exact ⟨exact, CacheState.usageExact_empty⟩
  | pop => exact onCache_usageExact pop_preservesUsage exact stepped

/-- The run lemma: every permitted run from an exact stack keeps it exact. -/
theorem Run.usageExact {start view : CoinsView κ} {ops : List (StackOp κ)}
    (run : Run StackOp.Permitted start ops view) (exact : start.UsageExact) :
    view.UsageExact := by
  induction run with
  | nil => exact exact
  | snoc op _ permitted stepped ih => exact CoinsView.step_usageExact ih permitted stepped

/-! ## The counter over whole runs -/

/--
Outside the contract the counter drifts: a coinbase `ModifyNewCoins` over
unspent coins that `AccessCoins` has cached remembers a usage of zero, so the
destructor adds the new usage without taking the old one away.
-/
theorem cacheStack_usage_counterexample :
    ¬ ∀ (store : CoinsStore Nat) (ops : List (StackOp Nat)) (view : CoinsView Nat),
      Run StackOp.Callable (.db store) ops view →
        view.EveryCache fun self => self.cachedCoinsUsage = coinsUsage self.cacheCoins := by
  intro universal
  have run : Run StackOp.Callable (.db ((∅ : CoinsStore Nat).insert 0 oneOutput))
      [.push, .accessCoins 0, .modifyNewCoins 0 true oneOutput] _ :=
    Run.snoc (.modifyNewCoins 0 true oneOutput)
      (Run.snoc (.accessCoins 0) (Run.snoc .push (Run.nil _) trivial rfl) trivial rfl)
      (by decide) rfl
  obtain ⟨drifted, -⟩ := universal _ _ _ run
  exact absurd drifted (by decide)

/--
Every cache of every permitted run from a database of cleaned-up records
counts exactly the memory of its coins, and every entry's usage is at most the
counter, so that subtracting it does not wrap.
-/
theorem cacheStack_usage_exact {store : CoinsStore κ} {ops : List (StackOp κ)}
    {view : CoinsView κ} (cleanStore : StoreCleaned store)
    (run : Run StackOp.Permitted (.db store) ops view) :
    view.EveryCache fun self => self.cachedCoinsUsage = coinsUsage self.cacheCoins ∧
      ∀ txhash entry, self.cacheCoins.lookup txhash = some entry →
        entry.coins.dynamicMemoryUsage ≤ self.cachedCoinsUsage :=
  (run.usageExact cleanStore).everyCache

theorem cacheStack_usage_exact_newCoinsRun :
    StoreCleaned ((∅ : CoinsStore Nat).insert 0 oneOutput) ∧
      ∃ view, Run StackOp.Permitted (.db ((∅ : CoinsStore Nat).insert 0 oneOutput))
          [.push, .accessCoins 0, .modifyNewCoins 1 false oneOutput] view ∧
        view.EveryCache fun self => self.cachedCoinsUsage = coinsUsage self.cacheCoins ∧
          ∀ txhash entry, self.cacheCoins.lookup txhash = some entry →
            entry.coins.dynamicMemoryUsage ≤ self.cachedCoinsUsage := by
  have cleanStore : StoreCleaned ((∅ : CoinsStore Nat).insert 0 oneOutput) :=
    AListValues.Every.insert (fun _ _ _ found => by simp at found) (by decide)
  have run : Run StackOp.Permitted (.db ((∅ : CoinsStore Nat).insert 0 oneOutput))
      [.push, .accessCoins 0, .modifyNewCoins 1 false oneOutput] _ :=
    Run.snoc (.modifyNewCoins 1 false oneOutput)
      (Run.snoc (.accessCoins 0) (Run.snoc .push (Run.nil _) trivial rfl) trivial rfl)
      (by decide) rfl
  exact ⟨cleanStore, _, run, cacheStack_usage_exact cleanStore run⟩

end Dogecoin.Coins
