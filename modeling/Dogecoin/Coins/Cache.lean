import Dogecoin.Coins.Coins
import Mathlib.Data.List.AList

/-!
# `CCoinsViewCache` and the views below it

A model of `src/src/coins.cpp`.  A `CCoinsViewCache` keeps a map of cache
entries in front of a base view; every entry carries a `DIRTY` flag (it may
differ from the base) and a `FRESH` flag (the base does not have it unspent).
The base of a cache is either another cache or the coins database at the
bottom, so a stack of caches is the nested value `CoinsView.cache`, whose last
argument is the C++ pointer `base`, ending in `CoinsView.db`, the map that
`CCoinsViewDB` (src/src/txdb.cpp) stores.

`std::unordered_map` is an `AList`: its keys are distinct, and the loop of
`BatchWrite` visits the entries in the order of the list, which is arbitrary.
The two `std::logic_error`s of the source are the `Except.error` results.
-/

namespace Dogecoin.Coins

/-- The `DIRTY` and `FRESH` bits of `CCoinsCacheEntry::flags`. -/
structure CacheFlags where
  dirty : Bool
  fresh : Bool
deriving DecidableEq, Repr

/-- `CCoinsCacheEntry`: the cached coins and their flags. -/
structure CCoinsCacheEntry where
  coins : CCoins
  flags : CacheFlags
deriving DecidableEq, Repr

/-- The default `CCoinsCacheEntry()`: empty coins, no flag set. -/
def CCoinsCacheEntry.default : CCoinsCacheEntry where
  coins := CCoins.empty
  flags := ⟨false, false⟩

/-- `CCoinsMap`, keyed by transaction hashes of type `κ`. -/
abbrev CCoinsMap (κ : Type) := AList fun _ : κ => CCoinsCacheEntry

/-- The coins a `CCoinsViewDB` has stored, keyed by transaction hash. -/
abbrev CoinsStore (κ : Type) := AList fun _ : κ => CCoins

/-- The fields of a `CCoinsViewCache` other than its base. -/
structure CacheState (κ : Type) where
  cacheCoins : CCoinsMap κ
  cachedCoinsUsage : Nat

/-- An `AbstractCoinsView` of the node: a cache over its base, or the database. -/
inductive CoinsView (κ : Type) where
  | db (coins : CoinsStore κ)
  | cache (self : CacheState κ) (base : CoinsView κ)

/-- The handle `CCoinsModifier` returned by `ModifyCoins` and `ModifyNewCoins`. -/
structure CCoinsModifier (κ : Type) where
  txhash : κ
  cachedCoinUsage : Nat

/-- `FRESH flag misapplied ...`, the `logic_error` of `BatchWrite`. -/
def freshMisappliedError : String :=
  "FRESH flag misapplied to cache entry for base transaction with spendable outputs"

/-- The `logic_error` of `ModifyNewCoins` on unspent coins. -/
def preexistingCoinsError : String :=
  "ModifyNewCoins should not find pre-existing coins on a non-coinbase unless they are pruned!"

variable {κ : Type} [DecidableEq κ]

namespace CacheState

/-- A freshly constructed cache, and the state `Flush` leaves. -/
def empty : CacheState κ where
  cacheCoins := ∅
  cachedCoinsUsage := 0

/--
`CCoinsViewCache::FetchCoins`.  `baseGetCoins` is `base->GetCoins`; the
returned entry is the one the iterator points to.
-/
def fetchCoins {β : Type} (baseGetCoins : κ → Option CCoins × β)
    (self : CacheState κ) (base : β) (txhash : κ) :
    Option CCoinsCacheEntry × CacheState κ × β :=
  match self.cacheCoins.lookup txhash with
  | some entry => (some entry, self, base)
  | none =>
      match baseGetCoins txhash with
      | (none, base') => (none, self, base')
      | (some tmp, base') =>
          let entry : CCoinsCacheEntry :=
            { coins := tmp, flags := ⟨false, tmp.isPruned⟩ }
          (some entry,
            { cacheCoins := self.cacheCoins.insert txhash entry
              cachedCoinsUsage :=
                self.cachedCoinsUsage + tmp.dynamicMemoryUsage },
            base')

theorem fetchCoins_of_lookup_some {β : Type} {baseGetCoins : κ → Option CCoins × β}
    {self : CacheState κ} {base : β} {txhash : κ} {entry : CCoinsCacheEntry}
    (found : self.cacheCoins.lookup txhash = some entry) :
    self.fetchCoins baseGetCoins base txhash = (some entry, self, base) := by
  simp [fetchCoins, found]

theorem fetchCoins_of_base_none {β : Type} {baseGetCoins : κ → Option CCoins × β}
    {self : CacheState κ} {base base' : β} {txhash : κ}
    (missing : self.cacheCoins.lookup txhash = none)
    (answer : baseGetCoins txhash = (none, base')) :
    self.fetchCoins baseGetCoins base txhash = (none, self, base') := by
  simp [fetchCoins, missing, answer]

theorem fetchCoins_of_base_some {β : Type} {baseGetCoins : κ → Option CCoins × β}
    {self : CacheState κ} {base base' : β} {txhash : κ} {tmp : CCoins}
    (missing : self.cacheCoins.lookup txhash = none)
    (answer : baseGetCoins txhash = (some tmp, base')) :
    self.fetchCoins baseGetCoins base txhash =
      (some { coins := tmp, flags := ⟨false, tmp.isPruned⟩ },
        { cacheCoins := self.cacheCoins.insert txhash
            { coins := tmp, flags := ⟨false, tmp.isPruned⟩ }
          cachedCoinsUsage := self.cachedCoinsUsage + tmp.dynamicMemoryUsage },
        base') := by
  simp [fetchCoins, missing, answer]

/-- One iteration of the loop of `CCoinsViewCache::BatchWrite`. -/
def batchWriteEntry (self : CacheState κ) (txhash : κ)
    (child : CCoinsCacheEntry) : Except String (CacheState κ) :=
  if child.flags.dirty then
    match self.cacheCoins.lookup txhash with
    | none =>
        if child.flags.fresh && child.coins.isPruned then
          .ok self
        else
          .ok
            { cacheCoins := self.cacheCoins.insert txhash
                { coins := child.coins, flags := ⟨true, child.flags.fresh⟩ }
              cachedCoinsUsage :=
                self.cachedCoinsUsage + child.coins.dynamicMemoryUsage }
    | some ours =>
        if child.flags.fresh && !ours.coins.isPruned then
          .error freshMisappliedError
        else if ours.flags.fresh && child.coins.isPruned then
          .ok
            { cacheCoins := self.cacheCoins.erase txhash
              cachedCoinsUsage :=
                self.cachedCoinsUsage - ours.coins.dynamicMemoryUsage }
        else
          .ok
            { cacheCoins := self.cacheCoins.insert txhash
                { coins := child.coins, flags := { ours.flags with dirty := true } }
              cachedCoinsUsage :=
                self.cachedCoinsUsage - ours.coins.dynamicMemoryUsage +
                  child.coins.dynamicMemoryUsage }
  else
    .ok self

/-- Everything one iteration of `BatchWrite` can do, with the guards of each branch. -/
theorem batchWriteEntry_cases {self self' : CacheState κ} {txhash : κ}
    {child : CCoinsCacheEntry}
    (step : self.batchWriteEntry txhash child = .ok self') :
    (child.flags.dirty = false ∧ self' = self) ∨
    (child.flags.dirty = true ∧ self.cacheCoins.lookup txhash = none ∧
      child.flags.fresh = true ∧ child.coins.isPruned = true ∧ self' = self) ∨
    (child.flags.dirty = true ∧ self.cacheCoins.lookup txhash = none ∧
      (child.flags.fresh = false ∨ child.coins.isPruned = false) ∧
      self' =
        { cacheCoins := self.cacheCoins.insert txhash
            { coins := child.coins, flags := ⟨true, child.flags.fresh⟩ }
          cachedCoinsUsage :=
            self.cachedCoinsUsage + child.coins.dynamicMemoryUsage }) ∨
    (∃ ours, child.flags.dirty = true ∧ self.cacheCoins.lookup txhash = some ours ∧
      (child.flags.fresh = false ∨ ours.coins.isPruned = true) ∧
      ours.flags.fresh = true ∧ child.coins.isPruned = true ∧
      self' =
        { cacheCoins := self.cacheCoins.erase txhash
          cachedCoinsUsage :=
            self.cachedCoinsUsage - ours.coins.dynamicMemoryUsage }) ∨
    (∃ ours, child.flags.dirty = true ∧ self.cacheCoins.lookup txhash = some ours ∧
      (child.flags.fresh = false ∨ ours.coins.isPruned = true) ∧
      (ours.flags.fresh = false ∨ child.coins.isPruned = false) ∧
      self' =
        { cacheCoins := self.cacheCoins.insert txhash
            { coins := child.coins, flags := { ours.flags with dirty := true } }
          cachedCoinsUsage :=
            self.cachedCoinsUsage - ours.coins.dynamicMemoryUsage +
              child.coins.dynamicMemoryUsage }) := by
  unfold batchWriteEntry at step
  cases dirty : child.flags.dirty with
  | false =>
      simp only [dirty, Bool.false_eq_true, if_false, Except.ok.injEq] at step
      exact Or.inl ⟨rfl, step.symm⟩
  | true =>
      simp only [dirty, if_true] at step
      cases found : self.cacheCoins.lookup txhash with
      | none =>
          simp only [found] at step
          split at step
          · rename_i skip
            simp only [Bool.and_eq_true] at skip
            exact Or.inr (Or.inl ⟨rfl, rfl, skip.1, skip.2, (Except.ok.inj step).symm⟩)
          · rename_i kept
            simp only [Bool.and_eq_true, not_and_or, Bool.not_eq_true] at kept
            exact Or.inr (Or.inr (Or.inl ⟨rfl, rfl, kept, (Except.ok.inj step).symm⟩))
      | some ours =>
          simp only [found] at step
          split at step
          · cases step
          · rename_i consistent
            simp only [Bool.and_eq_true, Bool.not_eq_true', not_and_or,
              Bool.not_eq_false, Bool.not_eq_true] at consistent
            split at step
            · rename_i erasable
              simp only [Bool.and_eq_true] at erasable
              exact Or.inr (Or.inr (Or.inr (Or.inl ⟨ours, rfl, rfl, consistent,
                erasable.1, erasable.2, (Except.ok.inj step).symm⟩)))
            · rename_i kept
              simp only [Bool.and_eq_true, not_and_or, Bool.not_eq_true] at kept
              exact Or.inr (Or.inr (Or.inr (Or.inr ⟨ours, rfl, rfl, consistent,
                kept, (Except.ok.inj step).symm⟩)))

/--
One iteration of `BatchWrite` throws only when a dirty `FRESH` child entry
meets an entry of ours with unspent outputs.
-/
theorem batchWriteEntry_ok {self : CacheState κ} {txhash : κ}
    {child : CCoinsCacheEntry}
    (consistent : ∀ ours, self.cacheCoins.lookup txhash = some ours →
      child.flags.dirty = true → child.flags.fresh = true →
        ours.coins.isPruned = true) :
    ∃ self', self.batchWriteEntry txhash child = .ok self' := by
  unfold batchWriteEntry
  cases dirty : child.flags.dirty with
  | false => exact ⟨self, by simp⟩
  | true =>
      cases found : self.cacheCoins.lookup txhash with
      | none =>
          simp only [if_true]
          split <;> exact ⟨_, rfl⟩
      | some ours =>
          have pruned := consistent ours found dirty
          simp only [if_true]
          split
          · rename_i misapplied
            simp only [Bool.and_eq_true, Bool.not_eq_true'] at misapplied
            simp [pruned misapplied.1] at misapplied
          · split <;> exact ⟨_, rfl⟩

/-- `CCoinsViewCache::BatchWrite`: every entry of the child's map in turn. -/
def batchWrite (self : CacheState κ) (mapCoins : CCoinsMap κ) :
    Except String (CacheState κ) :=
  mapCoins.entries.foldlM
    (fun state entry => state.batchWriteEntry entry.1 entry.2) self

/-- `CCoinsViewCache::Uncache`: forget an entry that carries no flag. -/
def uncache (self : CacheState κ) (hash : κ) : CacheState κ :=
  match self.cacheCoins.lookup hash with
  | some entry =>
      if entry.flags = ⟨false, false⟩ then
        { cacheCoins := self.cacheCoins.erase hash
          cachedCoinsUsage :=
            self.cachedCoinsUsage - entry.coins.dynamicMemoryUsage }
      else
        self
  | none => self

end CacheState

/-- `CCoinsViewDB::BatchWrite`: dirty pruned coins are erased, other dirty coins written. -/
def CoinsStore.batchWrite (coins : CoinsStore κ) (mapCoins : CCoinsMap κ) :
    CoinsStore κ :=
  mapCoins.entries.foldl
    (fun store entry =>
      if entry.2.flags.dirty then
        if entry.2.coins.isPruned then store.erase entry.1
        else store.insert entry.1 entry.2.coins
      else store)
    coins

namespace CoinsView

/--
`GetCoins` (and `AccessCoins`) of a view.  Through a cache it is `FetchCoins`,
which fills the cache and, through `base->GetCoins`, every cache below it.
-/
def getCoins : CoinsView κ → κ → Option CCoins × CoinsView κ
  | .db coins, txhash => (coins.lookup txhash, .db coins)
  | .cache self base, txhash =>
      let fetched :=
        self.fetchCoins (fun hash => getCoins base hash) base txhash
      (fetched.1.map CCoinsCacheEntry.coins, .cache fetched.2.1 fetched.2.2)

/-- `BatchWrite` of a view: the virtual call of `Flush` on its base. -/
def batchWrite : CoinsView κ → CCoinsMap κ → Except String (CoinsView κ)
  | .db coins, mapCoins => .ok (.db (coins.batchWrite mapCoins))
  | .cache self base, mapCoins =>
      (self.batchWrite mapCoins).map fun self' => .cache self' base

end CoinsView

namespace CacheState

/-- `CCoinsViewCache::Flush`: write every entry to the base, then clear. -/
def flush (self : CacheState κ) (base : CoinsView κ) :
    Except String (CacheState κ × CoinsView κ) :=
  (base.batchWrite self.cacheCoins).map fun base' => (empty, base')

/--
`CCoinsViewCache::ModifyCoins`.  A new entry is filled from the base and is
`FRESH` when the base has nothing unspent; an existing entry remembers its
memory usage in the modifier.  Either way the entry becomes `DIRTY`.
-/
def modifyCoins (self : CacheState κ) (base : CoinsView κ) (txhash : κ) :
    CacheState κ × CoinsView κ × CCoinsModifier κ :=
  match self.cacheCoins.lookup txhash with
  | none =>
      let fromBase := base.getCoins txhash
      let entry : CCoinsCacheEntry :=
        match fromBase.1 with
        | none => { coins := CCoins.empty, flags := ⟨true, true⟩ }
        | some coins => { coins := coins, flags := ⟨true, coins.isPruned⟩ }
      ({ self with cacheCoins := self.cacheCoins.insert txhash entry },
        fromBase.2, ⟨txhash, 0⟩)
  | some entry =>
      ({ self with
          cacheCoins := self.cacheCoins.insert txhash
            { entry with flags := { entry.flags with dirty := true } } },
        base, ⟨txhash, entry.coins.dynamicMemoryUsage⟩)

/--
`CCoinsViewCache::ModifyNewCoins`.  The coins are cleared without reading the
base; a non-coinbase entry that is not `DIRTY` is marked `FRESH`.
-/
def modifyNewCoins (self : CacheState κ) (txhash : κ) (coinbase : Bool) :
    Except String (CacheState κ × CCoinsModifier κ) :=
  let entry := (self.cacheCoins.lookup txhash).getD CCoinsCacheEntry.default
  if !coinbase && !entry.coins.isPruned then
    .error preexistingCoinsError
  else
    let fresh := entry.flags.fresh || (!coinbase && !entry.flags.dirty)
    .ok ({ self with
            cacheCoins := self.cacheCoins.insert txhash
              { coins := CCoins.empty, flags := ⟨true, fresh⟩ } },
          ⟨txhash, 0⟩)

end CacheState

namespace CCoinsModifier

/-- Assignment `*modifier = coins` through `CCoinsModifier::operator*`. -/
def assign (modifier : CCoinsModifier κ) (self : CacheState κ)
    (coins : CCoins) : CacheState κ :=
  match self.cacheCoins.lookup modifier.txhash with
  | some entry =>
      { self with
          cacheCoins := self.cacheCoins.insert modifier.txhash
            { entry with coins := coins } }
  | none => self

theorem assign_of_lookup_some {modifier : CCoinsModifier κ} {self : CacheState κ}
    {entry : CCoinsCacheEntry} (found : self.cacheCoins.lookup modifier.txhash = some entry)
    (coins : CCoins) :
    modifier.assign self coins =
      { self with
          cacheCoins := self.cacheCoins.insert modifier.txhash { entry with coins := coins } } := by
  simp [assign, found]

/--
`CCoinsModifier::~CCoinsModifier`: clean up the coins, subtract the usage
remembered at creation, and erase a `FRESH` entry left pruned.
-/
def destroy (modifier : CCoinsModifier κ) (self : CacheState κ) :
    CacheState κ :=
  match self.cacheCoins.lookup modifier.txhash with
  | some entry =>
      let coins := entry.coins.cleanup
      let usage := self.cachedCoinsUsage - modifier.cachedCoinUsage
      if entry.flags.fresh && coins.isPruned then
        { cacheCoins := self.cacheCoins.erase modifier.txhash
          cachedCoinsUsage := usage }
      else
        { cacheCoins := self.cacheCoins.insert modifier.txhash
            { entry with coins := coins }
          cachedCoinsUsage := usage + coins.dynamicMemoryUsage }
  | none => self

end CCoinsModifier

end Dogecoin.Coins
