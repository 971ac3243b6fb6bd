import Dogecoin.Coins.Cache

/-!
# Runs over a stack of caches

The operations that `coins_cache_simulation_test` (src/src/test/coins_tests.cpp)
and the node apply to a stack of `CCoinsViewCache`s over the coins database:
a modification of the top cache through `ModifyCoins` or `ModifyNewCoins`
followed by an assignment and the destruction of the modifier, a read through
`AccessCoins`, `Flush` or `Uncache` of a cache at any depth, and pushing or
flushing and popping the top cache.  Depth `0` is the top of the stack.

A run records every operation with the state it was applied in.  Which
operations a caller may issue is a parameter of the run: `Permitted` is the
contract of the source, under which `ModifyNewCoins` is only called for a
transaction that has nothing unspent in the view; `Callable` only asks for the
cache the operation addresses.  Two reference maps follow a run, one applying
each assignment as it is written and one applying it after `Cleanup`.
-/

namespace Dogecoin.Coins

variable {κ : Type} [DecidableEq κ]

/-- The operations of the simulation on a stack of caches. -/
inductive StackOp (κ : Type) where
  | modifyCoins (txhash : κ) (coins : CCoins)
  | modifyNewCoins (txhash : κ) (coinbase : Bool) (coins : CCoins)
  | accessCoins (txhash : κ)
  | flush (depth : Nat)
  | uncache (depth : Nat) (txhash : κ)
  | push
  | pop

namespace CacheState

/-- `ModifyCoins`, `*modifier = coins`, and the end of the modifier's scope. -/
def modifyAndAssign (self : CacheState κ) (base : CoinsView κ) (txhash : κ)
    (coins : CCoins) : CacheState κ × CoinsView κ :=
  let modified := self.modifyCoins base txhash
  (modified.2.2.destroy (modified.2.2.assign modified.1 coins), modified.2.1)

/-- `ModifyNewCoins`, `*modifier = coins`, and the end of the modifier's scope. -/
def modifyNewAndAssign (self : CacheState κ) (txhash : κ) (coinbase : Bool)
    (coins : CCoins) : Except String (CacheState κ) :=
  (self.modifyNewCoins txhash coinbase).map fun modified =>
    modified.2.destroy (modified.2.assign modified.1 coins)

end CacheState

namespace CoinsView

/-- The number of caches above the database. -/
def depth : CoinsView κ → Nat
  | .db _ => 0
  | .cache _ base => base.depth + 1

/-- The database at the bottom of the stack. -/
def store : CoinsView κ → CoinsStore κ
  | .db coins => coins
  | .cache _ base => base.store

/-- Apply an action to the cache at a depth; `none` when there is no such cache. -/
def onCache (act : CacheState κ → CoinsView κ → Except String (CoinsView κ)) :
    Nat → CoinsView κ → Option (Except String (CoinsView κ))
  | _, .db _ => none
  | 0, .cache self base => some (act self base)
  | depth + 1, .cache self base =>
      (onCache act depth base).map fun result => result.map (.cache self ·)

/-- One operation of the simulation. -/
def step (view : CoinsView κ) : StackOp κ → Option (Except String (CoinsView κ))
  | .modifyCoins txhash coins =>
      view.onCache
        (fun self base =>
          let modified := self.modifyAndAssign base txhash coins
          .ok (.cache modified.1 modified.2))
        0
  | .modifyNewCoins txhash coinbase coins =>
      view.onCache
        (fun self base =>
          (self.modifyNewAndAssign txhash coinbase coins).map (.cache · base))
        0
  | .accessCoins txhash => some (.ok (view.getCoins txhash).2)
  | .flush depth =>
      view.onCache
        (fun self base =>
          (self.flush base).map fun flushed => .cache flushed.1 flushed.2)
        depth
  | .uncache depth txhash =>
      view.onCache (fun self base => .ok (.cache (self.uncache txhash) base)) depth
  | .push => some (.ok (.cache CacheState.empty view))
  | .pop => view.onCache (fun self base => (self.flush base).map Prod.snd) 0

/-- Nothing unspent is seen for `txhash` through the view. -/
def notUnspent (view : CoinsView κ) (txhash : κ) : Bool :=
  match (view.getCoins txhash).1 with
  | some coins => coins.isPruned
  | none => true

end CoinsView

namespace StackOp

/-- The operation addresses a cache of the stack. -/
def Callable (view : CoinsView κ) : StackOp κ → Prop
  | .modifyCoins .. | .modifyNewCoins .. | .pop => 0 < view.depth
  | .flush depth | .uncache depth _ => depth < view.depth
  | .accessCoins _ | .push => True

/--
The contract of the source: callable, and `ModifyNewCoins` only for a
transaction with nothing unspent in the whole stack (BIP 30).
-/
def Permitted (view : CoinsView κ) : StackOp κ → Prop
  | .modifyNewCoins txhash coinbase coins =>
      Callable view (.modifyNewCoins txhash coinbase coins) ∧
        view.notUnspent txhash = true
  | op => Callable view op

instance decidableCallable (view : CoinsView κ) :
    (op : StackOp κ) → Decidable (op.Callable view)
  | .modifyCoins .. | .modifyNewCoins .. | .pop =>
      inferInstanceAs (Decidable (0 < view.depth))
  | .flush depth | .uncache depth _ => inferInstanceAs (Decidable (depth < view.depth))
  | .accessCoins _ | .push => inferInstanceAs (Decidable True)

instance decidablePermitted (view : CoinsView κ) :
    (op : StackOp κ) → Decidable (op.Permitted view)
  | .modifyNewCoins txhash coinbase coins =>
      inferInstanceAs (Decidable (Callable view (.modifyNewCoins txhash coinbase coins) ∧
        view.notUnspent txhash = true))
  | .modifyCoins txhash coins => decidableCallable view (.modifyCoins txhash coins)
  | .accessCoins txhash => decidableCallable view (.accessCoins txhash)
  | .flush depth => decidableCallable view (.flush depth)
  | .uncache depth txhash => decidableCallable view (.uncache depth txhash)
  | .push => decidableCallable view .push
  | .pop => decidableCallable view .pop

/-- The reference map of the test: every assignment is applied as written. -/
def applyTo : StackOp κ → (κ → CCoins) → κ → CCoins
  | .modifyCoins txhash coins, reference
  | .modifyNewCoins txhash _ coins, reference =>
      Function.update reference txhash coins
  | _, reference => reference

/-- The reference map in which every assignment is applied after `Cleanup`. -/
def applyCleanedTo : StackOp κ → (κ → CCoins) → κ → CCoins
  | .modifyCoins txhash coins, reference
  | .modifyNewCoins txhash _ coins, reference =>
      Function.update reference txhash coins.cleanup
  | _, reference => reference

end StackOp

/--
`Run allowed start ops view`: from `start`, the operations `ops`, each allowed
in the state it is applied to and none throwing, lead to `view`.
-/
inductive Run (allowed : CoinsView κ → StackOp κ → Prop) :
    CoinsView κ → List (StackOp κ) → CoinsView κ → Prop where
  | nil (start : CoinsView κ) : Run allowed start [] start
  | snoc {start middle finish : CoinsView κ} {ops : List (StackOp κ)}
      (op : StackOp κ) :
      Run allowed start ops middle → allowed middle op →
      middle.step op = some (.ok finish) →
      Run allowed start (ops ++ [op]) finish

/-- The map the database starts with, absent coins read as `CCoins()`. -/
def CoinsStore.reference (coins : CoinsStore κ) (txhash : κ) : CCoins :=
  (coins.lookup txhash).getD CCoins.empty

/-- The reference map after `ops`, every assignment applied as written. -/
def CoinsStore.referenceAfter (coins : CoinsStore κ) (ops : List (StackOp κ)) :
    κ → CCoins :=
  ops.foldl (fun reference op => op.applyTo reference) coins.reference

/-- The reference map after `ops`, every assignment applied after `Cleanup`. -/
def CoinsStore.cleanedReferenceAfter (coins : CoinsStore κ) (ops : List (StackOp κ)) :
    κ → CCoins :=
  ops.foldl (fun reference op => op.applyCleanedTo reference) coins.reference

theorem CoinsStore.cleanedReferenceAfter_snoc (coins : CoinsStore κ) (ops : List (StackOp κ))
    (op : StackOp κ) :
    coins.cleanedReferenceAfter (ops ++ [op]) = op.applyCleanedTo (coins.cleanedReferenceAfter ops) := by
  simp only [CoinsStore.cleanedReferenceAfter, List.foldl_append, List.foldl_cons, List.foldl_nil]

/-- Every cache of the stack has been flushed: their maps are empty. -/
def CoinsView.AllFlushed : CoinsView κ → Prop
  | .db _ => True
  | .cache self base => self.cacheCoins = ∅ ∧ base.AllFlushed

/--
The test's check of a view against the reference: coins read through
`AccessCoins` equal the reference, and a missing entry means it is pruned.
-/
def matchesReference (read : Option CCoins) (reference : CCoins) : Bool :=
  match read with
  | some coins => coins.same reference
  | none => reference.isPruned

end Dogecoin.Coins
