import Dogecoin.Coins.Stack
import Dogecoin.Lib.KeyedFold

/-!
# The flag invariant of a stack of caches

What a view answers for a transaction hash, once pruned records are read as
no record, is its *live* content.  The flags of a cache entry promise two
facts about the live content of the base: an entry that is not `DIRTY` has the
same live content as the base, and a `FRESH` entry has a base with nothing
live.  `WellFormed` states these promises for every entry of every cache of a
stack.

Every operation of the simulation keeps `WellFormed` and changes the live
content of the top view exactly as the assignment it makes; the flush of a
cache at any depth, `Uncache`, the reads that fill the caches, and pushing or
popping a cache do not change the live content of any view above them.  Under
`WellFormed`, neither `logic_error` of the source can be thrown.
-/

namespace Dogecoin.Coins

variable {κ : Type}

/-! ## Live content -/

/-- The unspent coins of an answer: a pruned record counts as no record. -/
def live (read : Option CCoins) : Option CCoins :=
  read.filter fun coins => !coins.isPruned

@[simp]
theorem live_none : live none = none := rfl

theorem live_some (coins : CCoins) :
    live (some coins) = if coins.isPruned then none else some coins := by
  by_cases pruned : coins.isPruned <;> simp [live, Option.filter, pruned]

theorem live_some_of_isPruned {coins : CCoins} (pruned : coins.isPruned = true) :
    live (some coins) = none := by
  simp [live_some, pruned]

theorem isPruned_of_live_some_eq_none {coins : CCoins}
    (dead : live (some coins) = none) : coins.isPruned = true := by
  by_contra unspent
  simp [live_some, unspent] at dead

@[simp]
theorem live_some_cleanup (coins : CCoins) :
    live (some coins.cleanup) =
      if coins.isPruned then none else some coins.cleanup := by
  simp [live_some]

/-- The source's check of a read against a reference is equality of live content. -/
theorem matchesReference_iff (read : Option CCoins) (reference : CCoins) :
    matchesReference read reference = true ↔ live read = live (some reference) := by
  cases read with
  | none =>
      by_cases pruned : reference.isPruned <;> simp [matchesReference, live_some, pruned]
  | some coins =>
      rw [matchesReference, CCoins.same_iff]
      by_cases left : coins.isPruned <;> by_cases right : reference.isPruned <;>
        simp [live_some, left, right]
      all_goals
        rintro rfl
        simp_all

/-- Two families of answers with the same live content at every hash. -/
def SameLive (first second : κ → Option CCoins) : Prop :=
  ∀ txhash, live (first txhash) = live (second txhash)

theorem SameLive.refl (answers : κ → Option CCoins) : SameLive answers answers :=
  fun _ => rfl

theorem SameLive.trans {first second third : κ → Option CCoins}
    (left : SameLive first second) (right : SameLive second third) :
    SameLive first third :=
  fun txhash => (left txhash).trans (right txhash)

/-! ## Answers of a view -/

variable [DecidableEq κ]

/-- The answers of a cache map in front of the answers `below`. -/
def overlay (mapCoins : CCoinsMap κ) (below : κ → Option CCoins)
    (txhash : κ) : Option CCoins :=
  match mapCoins.lookup txhash with
  | some entry => some entry.coins
  | none => below txhash

theorem overlay_of_lookup_some {mapCoins : CCoinsMap κ} {below : κ → Option CCoins}
    {txhash : κ} {entry : CCoinsCacheEntry}
    (found : mapCoins.lookup txhash = some entry) :
    overlay mapCoins below txhash = some entry.coins := by
  simp [overlay, found]

theorem overlay_of_lookup_none {mapCoins : CCoinsMap κ} {below : κ → Option CCoins}
    {txhash : κ} (missing : mapCoins.lookup txhash = none) :
    overlay mapCoins below txhash = below txhash := by
  simp [overlay, missing]

@[simp]
theorem overlay_insert_self (mapCoins : CCoinsMap κ) (below : κ → Option CCoins)
    (txhash : κ) (entry : CCoinsCacheEntry) :
    overlay (mapCoins.insert txhash entry) below txhash = some entry.coins := by
  simp [overlay]

theorem overlay_insert_ne {mapCoins : CCoinsMap κ} {below : κ → Option CCoins}
    {txhash other : κ} {entry : CCoinsCacheEntry} (apart : other ≠ txhash) :
    overlay (mapCoins.insert txhash entry) below other = overlay mapCoins below other := by
  simp [overlay, AList.lookup_insert_ne apart]

@[simp]
theorem overlay_erase_self (mapCoins : CCoinsMap κ) (below : κ → Option CCoins)
    (txhash : κ) :
    overlay (mapCoins.erase txhash) below txhash = below txhash := by
  simp [overlay]

theorem overlay_erase_ne {mapCoins : CCoinsMap κ} {below : κ → Option CCoins}
    {txhash other : κ} (apart : other ≠ txhash) :
    overlay (mapCoins.erase txhash) below other = overlay mapCoins below other := by
  simp [overlay, AList.lookup_erase_ne apart]

@[simp]
theorem overlay_empty (below : κ → Option CCoins) :
    overlay (∅ : CCoinsMap κ) below = below := by
  funext txhash
  simp [overlay]

theorem overlay_congr {mapCoins mapCoins' : CCoinsMap κ} {below : κ → Option CCoins}
    {txhash : κ} (agrees : mapCoins.lookup txhash = mapCoins'.lookup txhash) :
    overlay mapCoins below txhash = overlay mapCoins' below txhash := by
  simp [overlay, agrees]

theorem SameLive.overlay {mapCoins : CCoinsMap κ} {below below' : κ → Option CCoins}
    (same : SameLive below below') :
    SameLive (overlay mapCoins below) (overlay mapCoins below') := by
  intro txhash
  cases found : mapCoins.lookup txhash with
  | none => simp [overlay_of_lookup_none found, same txhash]
  | some entry => simp [overlay_of_lookup_some found]

namespace CoinsView

/-- What `GetCoins` answers through a view, leaving out what it caches. -/
def view : CoinsView κ → κ → Option CCoins
  | .db coins => fun txhash => coins.lookup txhash
  | .cache self base => overlay self.cacheCoins base.view

end CoinsView

/-! ## The flag invariant -/

/-- The promises of an entry's flags about the answer `below` of its base. -/
structure EntryValid (below : Option CCoins) (entry : CCoinsCacheEntry) : Prop where
  clean : entry.flags.dirty = false → live (some entry.coins) = live below
  fresh : entry.flags.fresh = true → live below = none

theorem EntryValid.congr {below below' : Option CCoins} {entry : CCoinsCacheEntry}
    (valid : EntryValid below entry) (same : live below = live below') :
    EntryValid below' entry where
  clean := fun notDirty => (valid.clean notDirty).trans same
  fresh := fun isFresh => same ▸ valid.fresh isFresh

/-- Every entry of a cache map keeps its promises about the answers `below`. -/
def MapValid (mapCoins : CCoinsMap κ) (below : κ → Option CCoins) : Prop :=
  ∀ txhash entry, mapCoins.lookup txhash = some entry → EntryValid (below txhash) entry

theorem MapValid.congr {mapCoins : CCoinsMap κ} {below below' : κ → Option CCoins}
    (valid : MapValid mapCoins below) (same : SameLive below below') :
    MapValid mapCoins below' :=
  fun txhash entry found => (valid txhash entry found).congr (same txhash)

theorem MapValid.empty (below : κ → Option CCoins) :
    MapValid (∅ : CCoinsMap κ) below := by
  intro txhash entry found
  simp at found

theorem MapValid.insert {mapCoins : CCoinsMap κ} {below : κ → Option CCoins}
    {txhash : κ} {entry : CCoinsCacheEntry}
    (others : ∀ other ≠ txhash, ∀ entry, mapCoins.lookup other = some entry →
      EntryValid (below other) entry)
    (valid : EntryValid (below txhash) entry) :
    MapValid (mapCoins.insert txhash entry) below := by
  intro other found lookedUp
  by_cases same : other = txhash
  · subst same
    simp only [AList.lookup_insert, Option.some.injEq] at lookedUp
    exact lookedUp ▸ valid
  · rw [AList.lookup_insert_ne same] at lookedUp
    exact others other same found lookedUp

theorem MapValid.erase {mapCoins : CCoinsMap κ} {below : κ → Option CCoins}
    {txhash : κ}
    (others : ∀ other ≠ txhash, ∀ entry, mapCoins.lookup other = some entry →
      EntryValid (below other) entry) :
    MapValid (mapCoins.erase txhash) below := by
  intro other found lookedUp
  by_cases same : other = txhash
  · subst same
    simp at lookedUp
  · rw [AList.lookup_erase_ne same] at lookedUp
    exact others other same found lookedUp

namespace CoinsView

/-- Every cache of the stack keeps the promises of its flags. -/
def WellFormed : CoinsView κ → Prop
  | .db _ => True
  | .cache self base => base.WellFormed ∧ MapValid self.cacheCoins base.view

/-! ## Reads -/

/--
The spec of `GetCoins`: it answers what the view answers, and what it caches
on the way keeps the answers and the invariant of every view of the stack.
-/
theorem getCoins_spec : ∀ (view : CoinsView κ) (txhash : κ),
    (view.getCoins txhash).1 = view.view txhash ∧
      (view.getCoins txhash).2.view = view.view ∧
      (view.WellFormed → (view.getCoins txhash).2.WellFormed)
  | .db _, _ => ⟨rfl, rfl, id⟩
  | .cache self base, txhash => by
      obtain ⟨answer, sameView, keepsForm⟩ := getCoins_spec base txhash
      cases found : self.cacheCoins.lookup txhash with
      | some entry =>
          simp only [getCoins, CacheState.fetchCoins_of_lookup_some found,
            Option.map_some, view, overlay_of_lookup_some found, and_self, imp_self]
      | none =>
          rcases baseAnswer : base.getCoins txhash with ⟨read, base'⟩
          rw [baseAnswer] at answer sameView keepsForm
          cases read with
          | none =>
              simp only [getCoins,
                CacheState.fetchCoins_of_base_none found baseAnswer, Option.map_none]
              refine ⟨?_, ?_, ?_⟩
              · rw [view, overlay_of_lookup_none found, ← answer]
              · simp only [view, sameView]
              · rintro ⟨baseForm, valid⟩
                exact ⟨keepsForm baseForm, sameView ▸ valid⟩
          | some tmp =>
              simp only [getCoins,
                CacheState.fetchCoins_of_base_some found baseAnswer, Option.map_some]
              have entryView : ∀ other,
                  overlay (self.cacheCoins.insert txhash
                      { coins := tmp, flags := ⟨false, tmp.isPruned⟩ }) base'.view other =
                    overlay self.cacheCoins base.view other := by
                intro other
                by_cases same : other = txhash
                · subst same
                  rw [overlay_insert_self, overlay_of_lookup_none found, ← answer]
                · rw [overlay_insert_ne same, sameView]
              refine ⟨?_, ?_, ?_⟩
              · rw [view, overlay_of_lookup_none found, ← answer]
              · funext other
                exact entryView other
              · rintro ⟨baseForm, valid⟩
                refine ⟨keepsForm baseForm, MapValid.insert ?_ ?_⟩
                · intro other _ entry lookedUp
                  exact sameView ▸ valid other entry lookedUp
                · rw [sameView, ← answer]
                  exact ⟨fun _ => rfl, live_some_of_isPruned⟩

theorem getCoins_fst (view : CoinsView κ) (txhash : κ) :
    (view.getCoins txhash).1 = view.view txhash :=
  (getCoins_spec view txhash).1

end CoinsView

/-! ## Writing a child's entries into a view -/

namespace CacheState

/-- One iteration of `BatchWrite` leaves every other hash of the map alone. -/
theorem batchWriteEntry_local :
    KeyedFold.LocalM
      (fun (state : CacheState κ) txhash => state.cacheCoins.lookup txhash)
      (fun (state : CacheState κ) (entry : Sigma fun _ : κ => CCoinsCacheEntry) =>
        state.batchWriteEntry entry.1 entry.2) := by
  intro state state' entry other step apart
  rcases batchWriteEntry_cases step with
    ⟨-, rfl⟩ | ⟨-, -, -, -, rfl⟩ | ⟨-, -, -, rfl⟩ |
      ⟨ours, -, -, -, -, -, rfl⟩ | ⟨ours, -, -, -, -, rfl⟩
  · rfl
  · rfl
  · exact AList.lookup_insert_ne apart
  · exact AList.lookup_erase_ne apart
  · exact AList.lookup_insert_ne apart

/--
The spec of one iteration of `BatchWrite` into a cache over the answers
`below`: for a child entry whose flags are valid against our view, it does
not throw, the live answer at its hash becomes the child's, and our entry
there stays valid.
-/
theorem batchWriteEntry_spec {self : CacheState κ} {below : κ → Option CCoins}
    {txhash : κ} {child : CCoinsCacheEntry}
    (childValid : EntryValid (overlay self.cacheCoins below txhash) child)
    (oursValid : ∀ ours, self.cacheCoins.lookup txhash = some ours →
      EntryValid (below txhash) ours) :
    ∃ self', self.batchWriteEntry txhash child = .ok self' ∧
      live (overlay self'.cacheCoins below txhash) = live (some child.coins) ∧
      ∀ entry, self'.cacheCoins.lookup txhash = some entry →
        EntryValid (below txhash) entry := by
  obtain ⟨self', step⟩ : ∃ self', self.batchWriteEntry txhash child = .ok self' :=
    batchWriteEntry_ok (by
      intro ours found _ isFresh
      have nothingLive := childValid.fresh isFresh
      rw [overlay_of_lookup_some found] at nothingLive
      exact isPruned_of_live_some_eq_none nothingLive)
  refine ⟨self', step, ?_⟩
  rcases batchWriteEntry_cases step with
    ⟨clean, rfl⟩ | ⟨_, missing, isFresh, pruned, rfl⟩ | ⟨_, missing, _, rfl⟩ |
      ⟨ours, _, found, _, oursFresh, pruned, rfl⟩ | ⟨ours, _, found, _, _, rfl⟩
  · exact ⟨(childValid.clean clean).symm, oursValid⟩
  · rw [overlay_of_lookup_none missing] at childValid
    refine ⟨?_, ?_⟩
    · rw [overlay_of_lookup_none missing, childValid.fresh isFresh,
        live_some_of_isPruned pruned]
    · intro entry lookedUp
      rw [missing] at lookedUp
      cases lookedUp
  · rw [overlay_of_lookup_none missing] at childValid
    refine ⟨by simp, ?_⟩
    intro entry lookedUp
    simp only [AList.lookup_insert, Option.some.injEq] at lookedUp
    subst lookedUp
    exact ⟨(fun notDirty => by cases notDirty), childValid.fresh⟩
  · refine ⟨?_, ?_⟩
    · rw [overlay_erase_self, (oursValid ours found).fresh oursFresh,
        live_some_of_isPruned pruned]
    · intro entry lookedUp
      simp at lookedUp
  · refine ⟨by simp, ?_⟩
    intro entry lookedUp
    simp only [AList.lookup_insert, Option.some.injEq] at lookedUp
    subst lookedUp
    exact ⟨(fun notDirty => by cases notDirty), (oursValid ours found).fresh⟩

/--
The spec of `CCoinsViewCache::BatchWrite`: a child map whose flags are valid
against our view is written without a throw, our live answers become the
child's view of them, and our entries stay valid against `below`.
-/
theorem batchWrite_spec {self : CacheState κ} {below : κ → Option CCoins}
    {mapCoins : CCoinsMap κ}
    (childValid : MapValid mapCoins (overlay self.cacheCoins below))
    (selfValid : MapValid self.cacheCoins below) :
    ∃ self', self.batchWrite mapCoins = .ok self' ∧
      SameLive (overlay self'.cacheCoins below)
        (overlay mapCoins (overlay self.cacheCoins below)) ∧
      MapValid self'.cacheCoins below := by
  have local_ := @batchWriteEntry_local κ _
  obtain ⟨self', run⟩ := KeyedFold.foldlM_ok local_ mapCoins.nodupKeys (by
    intro state entry member agrees
    obtain ⟨next, step, -⟩ := @batchWriteEntry_spec κ _ state below entry.1 entry.2
      ((childValid entry.1 entry.2 (AList.mem_lookup_iff.2 member)).congr
        (by rw [overlay_congr agrees]))
      (fun ours found => selfValid _ _ (agrees ▸ found))
    exact ⟨next, step⟩)
  refine ⟨self', run, ?_⟩
  have atHash : ∀ txhash,
      live (overlay self'.cacheCoins below txhash) =
          live (overlay mapCoins (overlay self.cacheCoins below) txhash) ∧
        ∀ entry, self'.cacheCoins.lookup txhash = some entry →
          EntryValid (below txhash) entry := by
    intro txhash
    cases found : mapCoins.lookup txhash with
    | none =>
        have unchanged := KeyedFold.foldlM_observe_of_notMem local_
          (AList.lookup_eq_none.1 found) run
        rw [overlay_of_lookup_none found, overlay_congr unchanged]
        exact ⟨rfl, fun entry lookedUp => selfValid _ _ (unchanged ▸ lookedUp)⟩
    | some child =>
        obtain ⟨before, after, agrees, stepped, result⟩ :=
          KeyedFold.foldlM_observe_of_mem local_ mapCoins.nodupKeys
            (AList.mem_lookup_iff.1 found) run
        obtain ⟨after', stepped', liveChild, validChild⟩ :=
          @batchWriteEntry_spec κ _ before below txhash child
            ((childValid txhash child found).congr (by rw [overlay_congr agrees]))
            (fun ours lookedUp => selfValid _ _ (agrees ▸ lookedUp))
        rw [stepped] at stepped'
        cases stepped'
        rw [overlay_of_lookup_some found, overlay_congr result]
        exact ⟨liveChild, fun entry lookedUp => validChild entry (result ▸ lookedUp)⟩
  exact ⟨fun txhash => (atHash txhash).1,
    fun txhash entry lookedUp => (atHash txhash).2 entry lookedUp⟩

end CacheState

/--
The spec of `CCoinsViewDB::BatchWrite`: for a child map valid against the
stored coins, the live answers become the child's view of them.
-/
theorem CoinsStore.batchWrite_live {coins : CoinsStore κ} {mapCoins : CCoinsMap κ}
    (childValid : MapValid mapCoins fun txhash => coins.lookup txhash) :
    SameLive (fun txhash => (coins.batchWrite mapCoins).lookup txhash)
      (overlay mapCoins fun txhash => coins.lookup txhash) := by
  have local_ : KeyedFold.Local
      (fun (store : CoinsStore κ) txhash => store.lookup txhash)
      (fun (store : CoinsStore κ) (entry : Sigma fun _ : κ => CCoinsCacheEntry) =>
        if entry.2.flags.dirty then
          if entry.2.coins.isPruned then store.erase entry.1
          else store.insert entry.1 entry.2.coins
        else store) := by
    intro store entry other apart
    dsimp only
    split
    · split
      · exact AList.lookup_erase_ne apart
      · exact AList.lookup_insert_ne apart
    · rfl
  intro txhash
  cases found : mapCoins.lookup txhash with
  | none =>
      rw [overlay_of_lookup_none found]
      exact congrArg live
        (KeyedFold.foldl_observe_of_notMem local_ coins
          (AList.lookup_eq_none.1 found))
  | some child =>
      obtain ⟨before, agrees, result⟩ := KeyedFold.foldl_observe_of_mem local_
        coins mapCoins.nodupKeys (AList.mem_lookup_iff.1 found)
      rw [overlay_of_lookup_some found]
      simp only [CoinsStore.batchWrite, result]
      by_cases dirty : child.flags.dirty = true
      · by_cases pruned : child.coins.isPruned = true
        · simp [dirty, pruned, live_some_of_isPruned pruned]
        · simp [dirty, pruned]
      · simp only [dirty, Bool.false_eq_true, if_false, agrees]
        exact ((childValid txhash child found).clean (by simpa using dirty)).symm

namespace CoinsView

/--
The spec of `BatchWrite` on a view: a child map valid against the view is
written without a throw, and the view's live answers become the child's.
-/
theorem batchWrite_spec {view : CoinsView κ} {mapCoins : CCoinsMap κ}
    (wellFormed : view.WellFormed) (childValid : MapValid mapCoins view.view) :
    ∃ view', view.batchWrite mapCoins = .ok view' ∧ view'.WellFormed ∧
      SameLive view'.view (overlay mapCoins view.view) := by
  cases view with
  | db coins =>
      exact ⟨.db (coins.batchWrite mapCoins), rfl, trivial,
        CoinsStore.batchWrite_live childValid⟩
  | cache self base =>
      obtain ⟨self', written, sameLive, valid⟩ :=
        @CacheState.batchWrite_spec κ _ self base.view mapCoins childValid wellFormed.2
      exact ⟨.cache self' base, by simp [batchWrite, written, Except.map],
        ⟨wellFormed.1, valid⟩, sameLive⟩

end CoinsView

/--
The spec of `CCoinsViewCache::Flush`: the base takes over the live answers of
the cache, and the cache is left empty.
-/
theorem CacheState.flush_spec {self : CacheState κ} {base : CoinsView κ}
    (wellFormed : (CoinsView.cache self base).WellFormed) :
    ∃ base', self.flush base = .ok (CacheState.empty, base') ∧ base'.WellFormed ∧
      SameLive base'.view (CoinsView.cache self base).view := by
  obtain ⟨base', written, form, sameLive⟩ :=
    CoinsView.batchWrite_spec wellFormed.1 wellFormed.2
  exact ⟨base', by simp [CacheState.flush, written, Except.map], form, sameLive⟩

/-! ## Operations below the top of the stack -/

/-- An action on one cache that keeps the invariant and the live answers of the cache. -/
def PreservesLive (act : CacheState κ → CoinsView κ → Except String (CoinsView κ)) :
    Prop :=
  ∀ self base, (CoinsView.cache self base).WellFormed →
    ∃ view', act self base = .ok view' ∧ view'.WellFormed ∧
      SameLive view'.view (CoinsView.cache self base).view

/--
An action that keeps the live answers of the cache it acts on keeps those of
every cache above it, at whatever depth it is applied.
-/
theorem CoinsView.onCache_spec
    {act : CacheState κ → CoinsView κ → Except String (CoinsView κ)}
    (preserves : PreservesLive act) :
    ∀ {depth : Nat} {view : CoinsView κ}, view.WellFormed → depth < view.depth →
      ∃ view', view.onCache act depth = some (.ok view') ∧ view'.WellFormed ∧
        SameLive view'.view view.view
  | _, .db _, _, deep => absurd deep (Nat.not_lt_zero _)
  | 0, .cache self base, wellFormed, _ => by
      obtain ⟨view', acted, form, same⟩ := preserves self base wellFormed
      exact ⟨view', by simp [onCache, acted], form, same⟩
  | depth + 1, .cache self base, wellFormed, deep => by
      have deeper : depth < base.depth := by
        simp only [CoinsView.depth] at deep
        omega
      obtain ⟨base', acted, form, same⟩ :=
        CoinsView.onCache_spec preserves wellFormed.1 deeper
      refine ⟨.cache self base', by simp [onCache, acted, Except.map], ?_, ?_⟩
      · exact ⟨form, wellFormed.2.congr fun txhash => (same txhash).symm⟩
      · exact SameLive.overlay same

theorem flush_preservesLive :
    @PreservesLive κ _ fun self base =>
      (self.flush base).map fun flushed => .cache flushed.1 flushed.2 := by
  intro self base wellFormed
  obtain ⟨base', flushed, form, same⟩ := CacheState.flush_spec wellFormed
  refine ⟨.cache CacheState.empty base', by simp [flushed, Except.map], ?_, ?_⟩
  · exact ⟨form, MapValid.empty _⟩
  · simpa [CoinsView.view, CacheState.empty] using same

theorem pop_preservesLive :
    @PreservesLive κ _ fun self base => (self.flush base).map Prod.snd := by
  intro self base wellFormed
  obtain ⟨base', flushed, form, same⟩ := CacheState.flush_spec wellFormed
  exact ⟨base', by simp [flushed, Except.map], form, same⟩

/-- `Uncache` only forgets an entry without flags, whose coins the base has live. -/
theorem uncache_preservesLive (txhash : κ) :
    @PreservesLive κ _ fun self base => .ok (.cache (self.uncache txhash) base) := by
  intro self base wellFormed
  refine ⟨_, rfl, ?_⟩
  unfold CacheState.uncache
  cases found : self.cacheCoins.lookup txhash with
  | none => exact ⟨wellFormed, SameLive.refl _⟩
  | some entry =>
      by_cases noFlags : entry.flags = ⟨false, false⟩
      · have clean := (wellFormed.2 txhash entry found).clean (by simp [noFlags])
        simp only [noFlags, if_true]
        refine ⟨⟨wellFormed.1, MapValid.erase ?_⟩, ?_⟩
        · intro other _ entry' lookedUp
          exact wellFormed.2 other entry' lookedUp
        · intro other
          by_cases same : other = txhash
          · subst same
            simp only [CoinsView.view, overlay_erase_self,
              overlay_of_lookup_some found]
            exact clean.symm
          · simp only [CoinsView.view, overlay_erase_ne same]
      · simp only [noFlags, if_false]
        exact ⟨wellFormed, SameLive.refl _⟩

/-! ## Modifications of the top cache -/

/--
The state while a modifier of `txhash` is alive: its entry is `DIRTY`, may be
`FRESH` only when the base has nothing live, and every other entry is valid.
-/
structure ModifierReady (mapCoins : CCoinsMap κ) (below : κ → Option CCoins)
    (txhash : κ) : Prop where
  entry : ∃ entry, mapCoins.lookup txhash = some entry ∧ entry.flags.dirty = true ∧
    (entry.flags.fresh = true → live (below txhash) = none)
  others : ∀ other ≠ txhash, ∀ entry, mapCoins.lookup other = some entry →
    EntryValid (below other) entry

/--
The spec of an assignment through a modifier followed by its destructor: the
entries are valid again, and the live answer is the cleaned-up assignment.
-/
theorem CCoinsModifier.destroy_assign_spec {modifier : CCoinsModifier κ}
    {self : CacheState κ} {below : κ → Option CCoins} {coins : CCoins}
    (ready : ModifierReady self.cacheCoins below modifier.txhash) :
    MapValid (modifier.destroy (modifier.assign self coins)).cacheCoins below ∧
      live (overlay (modifier.destroy (modifier.assign self coins)).cacheCoins below
          modifier.txhash) = live (some coins.cleanup) ∧
      ∀ other ≠ modifier.txhash,
        (modifier.destroy (modifier.assign self coins)).cacheCoins.lookup other =
          self.cacheCoins.lookup other := by
  obtain ⟨entry, found, dirty, freshOk⟩ := ready.entry
  rw [CCoinsModifier.assign_of_lookup_some found]
  unfold CCoinsModifier.destroy
  simp only [AList.lookup_insert]
  by_cases erased : entry.flags.fresh = true ∧ coins.cleanup.isPruned = true
  · simp only [erased, Bool.and_self, if_true]
    refine ⟨MapValid.erase ?_, ?_, ?_⟩
    · intro other apart entry' lookedUp
      rw [AList.lookup_insert_ne apart] at lookedUp
      exact ready.others other apart entry' lookedUp
    · rw [overlay_erase_self, freshOk erased.1, live_some_of_isPruned erased.2]
    · intro other apart
      rw [AList.lookup_erase_ne apart, AList.lookup_insert_ne apart]
  · have kept : (entry.flags.fresh && coins.cleanup.isPruned) = false := by
      simpa [Bool.and_eq_true] using erased
    simp only [kept, Bool.false_eq_true, if_false, AList.insert_insert]
    refine ⟨MapValid.insert ?_ ?_, by simp, ?_⟩
    · intro other apart entry' lookedUp
      exact ready.others other apart entry' lookedUp
    · exact ⟨fun notDirty => by simp [dirty] at notDirty, freshOk⟩
    · intro other apart
      rw [AList.lookup_insert_ne apart]

/--
The spec of `ModifyCoins`: the modifier is for `txhash`, the reads it makes
through the base keep the base's answers and invariant, and the entry is
ready for the modification.
-/
theorem CacheState.modifyCoins_spec {self : CacheState κ} {base : CoinsView κ}
    {txhash : κ} (wellFormed : (CoinsView.cache self base).WellFormed) :
    (self.modifyCoins base txhash).2.2.txhash = txhash ∧
      (self.modifyCoins base txhash).2.1.WellFormed ∧
      (self.modifyCoins base txhash).2.1.view = base.view ∧
      ModifierReady (self.modifyCoins base txhash).1.cacheCoins base.view txhash ∧
      ∀ other ≠ txhash,
        (self.modifyCoins base txhash).1.cacheCoins.lookup other =
          self.cacheCoins.lookup other := by
  unfold CacheState.modifyCoins
  cases found : self.cacheCoins.lookup txhash with
  | none =>
      obtain ⟨answer, sameView, keepsForm⟩ := CoinsView.getCoins_spec base txhash
      refine ⟨rfl, keepsForm wellFormed.1, sameView, ⟨?_, ?_⟩, ?_⟩
      · refine ⟨_, AList.lookup_insert _, ?_, ?_⟩
        · split <;> rfl
        · rw [← answer]
          split
          · rename_i nothing
            simp [nothing]
          · rename_i coins fetched
            simp only [fetched]
            exact live_some_of_isPruned
      · intro other apart entry lookedUp
        rw [AList.lookup_insert_ne apart] at lookedUp
        exact wellFormed.2 other entry lookedUp
      · intro other apart
        exact AList.lookup_insert_ne apart
  | some entry =>
      refine ⟨rfl, wellFormed.1, rfl, ⟨?_, ?_⟩, ?_⟩
      · exact ⟨_, AList.lookup_insert _, rfl,
          (wellFormed.2 txhash entry found).fresh⟩
      · intro other apart entry' lookedUp
        rw [AList.lookup_insert_ne apart] at lookedUp
        exact wellFormed.2 other entry' lookedUp
      · intro other apart
        exact AList.lookup_insert_ne apart

/--
The spec of `ModifyNewCoins` for a transaction with nothing live in the view:
it does not throw, and the cleared entry may be `FRESH` because the base has
nothing live either.
-/
theorem CacheState.modifyNewCoins_spec {self : CacheState κ}
    {below : κ → Option CCoins} {txhash : κ} {coinbase : Bool}
    (valid : MapValid self.cacheCoins below)
    (nothingLive : live (overlay self.cacheCoins below txhash) = none) :
    ∃ self', self.modifyNewCoins txhash coinbase = .ok (self', ⟨txhash, 0⟩) ∧
      ModifierReady self'.cacheCoins below txhash ∧
      ∀ other ≠ txhash, self'.cacheCoins.lookup other = self.cacheCoins.lookup other := by
  have readyFresh : ∀ entry, (self.cacheCoins.lookup txhash).getD
        CCoinsCacheEntry.default = entry →
      entry.coins.isPruned = true ∧
        ((entry.flags.fresh || (!coinbase && !entry.flags.dirty)) = true →
          live (below txhash) = none) := by
    intro entry chosen
    cases found : self.cacheCoins.lookup txhash with
    | none =>
        rw [found] at chosen
        rw [overlay_of_lookup_none found] at nothingLive
        subst chosen
        exact ⟨rfl, fun _ => nothingLive⟩
    | some ours =>
        rw [found] at chosen
        subst chosen
        rw [overlay_of_lookup_some found] at nothingLive
        refine ⟨isPruned_of_live_some_eq_none nothingLive, ?_⟩
        intro marked
        simp only [Bool.or_eq_true, Bool.and_eq_true, Bool.not_eq_true'] at marked
        rcases marked with isFresh | ⟨-, notDirty⟩
        · exact (valid txhash ours found).fresh isFresh
        · rw [← (valid txhash ours found).clean notDirty]
          exact nothingLive
  obtain ⟨pruned, freshOk⟩ := readyFresh _ rfl
  unfold CacheState.modifyNewCoins
  simp only [pruned, Bool.not_true, Bool.and_false, Bool.false_eq_true, if_false]
  refine ⟨_, rfl, ⟨⟨_, AList.lookup_insert _, rfl, freshOk⟩, ?_⟩, ?_⟩
  · intro other apart entry lookedUp
    rw [AList.lookup_insert_ne apart] at lookedUp
    exact valid other entry lookedUp
  · intro other apart
    exact AList.lookup_insert_ne apart

/--
The spec of `ModifyCoins`, an assignment, and the modifier's destructor on the
top cache: the invariant holds again and only the answer at `txhash` changes,
to the cleaned-up assignment.
-/
theorem CacheState.modifyAndAssign_spec {self : CacheState κ} {base : CoinsView κ}
    {txhash : κ} {coins : CCoins}
    (wellFormed : (CoinsView.cache self base).WellFormed) :
    (CoinsView.cache (self.modifyAndAssign base txhash coins).1
        (self.modifyAndAssign base txhash coins).2).WellFormed ∧
      SameLive
        (CoinsView.cache (self.modifyAndAssign base txhash coins).1
          (self.modifyAndAssign base txhash coins).2).view
        (Function.update (CoinsView.cache self base).view txhash
          (some coins.cleanup)) := by
  obtain ⟨forTxhash, form, sameView, ready, others⟩ :=
    @CacheState.modifyCoins_spec κ _ self base txhash wellFormed
  have ready' : ModifierReady (self.modifyCoins base txhash).1.cacheCoins base.view
      (self.modifyCoins base txhash).2.2.txhash := by
    rw [forTxhash]
    exact ready
  obtain ⟨valid, liveHere, unchanged⟩ :=
    @CCoinsModifier.destroy_assign_spec κ _ _ _ _ coins ready'
  rw [forTxhash] at liveHere unchanged
  refine ⟨⟨form, sameView ▸ valid⟩, ?_⟩
  intro other
  simp only [CacheState.modifyAndAssign, CoinsView.view, sameView]
  by_cases same : other = txhash
  · subst same
    rw [Function.update_self]
    exact liveHere
  · rw [Function.update_of_ne same, overlay_congr ((unchanged other same).trans
      (others other same))]

/-- The same for `ModifyNewCoins`, called for a hash with nothing live in the view. -/
theorem CacheState.modifyNewAndAssign_spec {self : CacheState κ}
    {below : κ → Option CCoins} {txhash : κ} {coinbase : Bool} {coins : CCoins}
    (valid : MapValid self.cacheCoins below)
    (nothingLive : live (overlay self.cacheCoins below txhash) = none) :
    ∃ self', self.modifyNewAndAssign txhash coinbase coins = .ok self' ∧
      MapValid self'.cacheCoins below ∧
      SameLive (overlay self'.cacheCoins below)
        (Function.update (overlay self.cacheCoins below) txhash
          (some coins.cleanup)) := by
  obtain ⟨self₁, created, ready, others⟩ :=
    @CacheState.modifyNewCoins_spec κ _ self below txhash coinbase valid nothingLive
  obtain ⟨valid', liveHere, unchanged⟩ :=
    @CCoinsModifier.destroy_assign_spec κ _ ⟨txhash, 0⟩ self₁ below coins ready
  refine ⟨_, by simp [CacheState.modifyNewAndAssign, created, Except.map], valid', ?_⟩
  intro other
  by_cases same : other = txhash
  · subst same
    rw [Function.update_self]
    exact liveHere
  · rw [Function.update_of_ne same, overlay_congr ((unchanged other same).trans
      (others other same))]

/-! ## Every step of a run -/

/-- What an operation does to the answers of the top view. -/
def StackOp.effect : StackOp κ → (κ → Option CCoins) → κ → Option CCoins
  | .modifyCoins txhash coins, answers
  | .modifyNewCoins txhash _ coins, answers =>
      Function.update answers txhash (some coins.cleanup)
  | _, answers => answers

theorem CoinsView.live_view_of_notUnspent {view : CoinsView κ} {txhash : κ}
    (absent : view.notUnspent txhash = true) : live (view.view txhash) = none := by
  unfold CoinsView.notUnspent at absent
  rw [CoinsView.getCoins_fst] at absent
  cases found : view.view txhash with
  | none => rfl
  | some coins =>
      rw [found] at absent
      exact live_some_of_isPruned absent

/--
The step lemma: a permitted operation on a well-formed stack throws no
`logic_error`, keeps the stack well formed, and changes the live answers of
the top view as its `effect` says.
-/
theorem CoinsView.step_spec {view : CoinsView κ} {op : StackOp κ}
    (wellFormed : view.WellFormed) (permitted : op.Permitted view) :
    ∃ view', view.step op = some (.ok view') ∧ view'.WellFormed ∧
      SameLive view'.view (op.effect view.view) := by
  cases op with
  | modifyCoins txhash coins =>
      cases view with
      | db _ => exact absurd permitted (Nat.lt_irrefl 0)
      | cache self base =>
          exact ⟨_, rfl, CacheState.modifyAndAssign_spec wellFormed⟩
  | modifyNewCoins txhash coinbase coins =>
      cases view with
      | db _ => exact absurd permitted.1 (Nat.lt_irrefl 0)
      | cache self base =>
          obtain ⟨self', modified, valid, same⟩ :=
            @CacheState.modifyNewAndAssign_spec κ _ self base.view txhash coinbase
              coins wellFormed.2
              (live_view_of_notUnspent permitted.2)
          exact ⟨.cache self' base,
            by simp [step, onCache, modified, Except.map], ⟨wellFormed.1, valid⟩, same⟩
  | accessCoins txhash =>
      obtain ⟨-, sameView, keepsForm⟩ := getCoins_spec view txhash
      exact ⟨_, rfl, keepsForm wellFormed, by rw [sameView]; exact SameLive.refl _⟩
  | flush depth =>
      exact onCache_spec flush_preservesLive wellFormed permitted
  | uncache depth txhash =>
      exact onCache_spec (uncache_preservesLive txhash) wellFormed permitted
  | push =>
      exact ⟨.cache CacheState.empty view, rfl, ⟨wellFormed, MapValid.empty _⟩,
        by simpa [CoinsView.view, CacheState.empty, StackOp.effect]
          using SameLive.refl view.view⟩
  | pop =>
      exact onCache_spec pop_preservesLive wellFormed permitted

/-- The effect of an operation on answers follows its cleaned reference map. -/
theorem StackOp.effect_sameLive {answers : κ → Option CCoins} {reference : κ → CCoins}
    (op : StackOp κ) (same : SameLive answers fun txhash => some (reference txhash)) :
    SameLive (op.effect answers) fun txhash => some (op.applyCleanedTo reference txhash) := by
  cases op with
  | modifyCoins txhash coins | modifyNewCoins txhash _ coins =>
      intro other
      by_cases here : other = txhash
      · subst here
        simp [StackOp.effect, StackOp.applyCleanedTo]
      · simpa [StackOp.effect, StackOp.applyCleanedTo, Function.update_of_ne here]
          using same other
  | accessCoins _ | flush _ | uncache _ _ | push | pop => exact same

theorem CoinsStore.sameLive_reference (coins : CoinsStore κ) :
    SameLive (CoinsView.db coins).view fun txhash => some (coins.reference txhash) := by
  intro txhash
  cases found : coins.lookup txhash with
  | none => simp [CoinsView.view, CoinsStore.reference, found, live_some]
  | some stored => simp [CoinsView.view, CoinsStore.reference, found]

/--
The run lemma: along every permitted run from the database, the stack stays
well formed and the top view has the live content of the cleaned reference.
-/
theorem Run.wellFormed_sameLive {store : CoinsStore κ} {ops : List (StackOp κ)}
    {view : CoinsView κ} (run : Run StackOp.Permitted (.db store) ops view) :
    view.WellFormed ∧
      SameLive view.view fun txhash => some (store.cleanedReferenceAfter ops txhash) := by
  induction run with
  | nil => exact ⟨trivial, store.sameLive_reference⟩
  | snoc op _ permitted stepped ih =>
      obtain ⟨view', stepped', form, same⟩ := CoinsView.step_spec ih.1 permitted
      rw [stepped] at stepped'
      cases stepped'
      refine ⟨form, ?_⟩
      rw [CoinsStore.cleanedReferenceAfter_snoc]
      exact same.trans (op.effect_sameLive ih.2)

/-- After a permitted run, the top view matches the cleaned reference map at every hash. -/
theorem Run.getCoins_matches {store : CoinsStore κ} {ops : List (StackOp κ)}
    {view : CoinsView κ} (run : Run StackOp.Permitted (.db store) ops view) (txhash : κ) :
    matchesReference (view.getCoins txhash).1 (store.cleanedReferenceAfter ops txhash) = true := by
  rw [matchesReference_iff, CoinsView.getCoins_fst]
  exact run.wellFormed_sameLive.2 txhash

end Dogecoin.Coins
