import Dogecoin.Coins.StackInvariant

/-!
# The cache simulation against its reference map

`coins_cache_simulation_test` checks a stack of caches against a map that
applies every modification directly.  The stack does not match such a map when
an assignment leaves spent outputs at the end of `vout`: the destructor of
`CCoinsModifier` runs `Cleanup`, so the view shows the record without them,
while the map keeps them, and `operator==` compares `vout` exactly.  Against the
map that applies every assignment after `Cleanup`, every permitted run matches
at every hash, never throws, and leaves the database with the same content
once every cache has been flushed.
-/

namespace Dogecoin.Coins

open Dogecoin.Primitives

variable {κ : Type} [DecidableEq κ]

/-- When every cache is empty, the top view answers what the database stores. -/
theorem CoinsView.view_of_allFlushed :
    ∀ {view : CoinsView κ}, view.AllFlushed →
      view.view = fun txhash => view.store.lookup txhash
  | .db _, _ => rfl
  | .cache self base, ⟨emptied, flushedBelow⟩ => by
      simp only [CoinsView.view, emptied, overlay_empty, CoinsView.store]
      exact CoinsView.view_of_allFlushed flushedBelow

/-- A record whose last output is spent, assigned as written by the test's map. -/
def trailingSpent : CCoins where
  fCoinBase := false
  vout := [⟨5, []⟩, CTxOut.null]
  nHeight := 0
  nVersion := 0

/--
The stack does not follow a reference map that applies each modification
directly: after assigning `trailingSpent`, the top view reads the cleaned-up
record, which `operator==` tells apart from the assigned one.
-/
theorem cacheStack_directReference_counterexample :
    ¬ ∀ (store : CoinsStore Nat) (ops : List (StackOp Nat)) (view : CoinsView Nat),
      Run StackOp.Permitted (.db store) ops view →
        ∀ txhash, matchesReference (view.getCoins txhash).1
          (store.referenceAfter ops txhash) = true := by
  intro universal
  have run : Run StackOp.Permitted (.db ∅) [.push, .modifyCoins 0 trailingSpent] _ :=
    Run.snoc (.modifyCoins 0 trailingSpent) (Run.snoc .push (Run.nil _) trivial rfl)
      (by decide) rfl
  have matched := universal ∅ _ _ run 0
  exact absurd matched (by decide)

/--
Every permitted run of the cache stack refines the cleaned reference map: no
operation permitted after it throws a `logic_error` (in particular no
`BatchWrite` finds a misapplied `FRESH` flag), the top view matches the map at
every hash, and once every cache has been flushed so does the database.
-/
theorem cacheStack_simulates_cleanedReference {store : CoinsStore κ}
    {ops : List (StackOp κ)} {view : CoinsView κ}
    (run : Run StackOp.Permitted (.db store) ops view) :
    (∀ op, op.Permitted view → ∃ next, view.step op = some (.ok next)) ∧
      (∀ txhash, matchesReference (view.getCoins txhash).1
        (store.cleanedReferenceAfter ops txhash) = true) ∧
      (view.AllFlushed → ∀ txhash, matchesReference (view.store.lookup txhash)
        (store.cleanedReferenceAfter ops txhash) = true) := by
  obtain ⟨wellFormed, sameLive⟩ := run.wellFormed_sameLive
  refine ⟨?_, ?_, ?_⟩
  · intro op permitted
    obtain ⟨next, stepped, -⟩ := CoinsView.step_spec wellFormed permitted
    exact ⟨next, stepped⟩
  · exact run.getCoins_matches
  · intro flushed txhash
    rw [matchesReference_iff]
    have answers := congrFun (CoinsView.view_of_allFlushed flushed) txhash
    rw [← answers]
    exact sameLive txhash

/-- An unspent record with nothing to clean up. -/
def oneOutput : CCoins where
  fCoinBase := false
  vout := [⟨5, []⟩]
  nHeight := 1
  nVersion := 1

theorem cacheStack_simulates_cleanedReference_flushRun :
    Run StackOp.Permitted (.db ∅) [.push, .modifyCoins 0 oneOutput, .flush 0]
        (.cache CacheState.empty (.db ((∅ : CoinsStore Nat).insert 0 oneOutput))) ∧
      (∀ op, op.Permitted
          (.cache CacheState.empty (.db ((∅ : CoinsStore Nat).insert 0 oneOutput))) →
        ∃ next, (CoinsView.cache CacheState.empty
          (.db ((∅ : CoinsStore Nat).insert 0 oneOutput))).step op = some (.ok next)) ∧
      (∀ txhash, matchesReference ((CoinsView.cache CacheState.empty
          (.db ((∅ : CoinsStore Nat).insert 0 oneOutput))).getCoins txhash).1
        ((∅ : CoinsStore Nat).cleanedReferenceAfter
          [.push, .modifyCoins 0 oneOutput, .flush 0] txhash) = true) ∧
      ((CoinsView.cache CacheState.empty
          (.db ((∅ : CoinsStore Nat).insert 0 oneOutput))).AllFlushed →
        ∀ txhash, matchesReference ((CoinsView.cache CacheState.empty
          (.db ((∅ : CoinsStore Nat).insert 0 oneOutput))).store.lookup txhash)
          ((∅ : CoinsStore Nat).cleanedReferenceAfter
            [.push, .modifyCoins 0 oneOutput, .flush 0] txhash) = true) :=
  have run : Run StackOp.Permitted (.db ∅) [.push, .modifyCoins 0 oneOutput, .flush 0]
      (.cache CacheState.empty (.db ((∅ : CoinsStore Nat).insert 0 oneOutput))) :=
    Run.snoc (.flush 0)
      (Run.snoc (.modifyCoins 0 oneOutput) (Run.snoc .push (Run.nil _) trivial rfl)
        (by decide) rfl)
      (by decide) rfl
  ⟨run, cacheStack_simulates_cleanedReference run⟩

end Dogecoin.Coins
