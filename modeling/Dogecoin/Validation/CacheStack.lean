import Dogecoin.Validation.UndoRoundTrip
import Dogecoin.Coins.StackInvariant

/-!
# `ConnectBlock` and `DisconnectBlock` on a stack of caches

`Connect` runs the coin updates of `ConnectBlock` and `DisconnectBlock` on the
map a view shows.  In the source that view is a `CCoinsViewCache`, and every
change the two functions make goes through a modifier of it: `ModifyCoins` for
a spent input, for the outputs `DisconnectBlock` removes and for
`ApplyTxInUndo`, and `ModifyNewCoins` for the outputs `UpdateCoins` adds.
`Assigns` says that a function's result is its argument after such
assignments, each stored after `Cleanup` as the destructor of the modifier
stores it; the cleaned reference map of `Coins.Stack` follows the same rule.

Issued on the top cache after a permitted run of the stack, those assignments
are permitted and none of them throws; the cleaned reference map of the longer
run is the map the function returns, and the top view shows it.
`ModifyNewCoins` is permitted where nothing unspent is seen under the hash,
which is the BIP 30 check of `ConnectBlock` that `Connectable` states.
-/

namespace Dogecoin.Coins

open Dogecoin.Primitives

variable {κ : Type} [DecidableEq κ]

/--
`Assigns view writes view'`: the assignments `writes` through modifiers of the
top cache, each stored after `Cleanup`, take the map `view` to `view'`, and
each `ModifyNewCoins` among them finds nothing unspent under its hash.
-/
inductive Assigns : (κ → CCoins) → List (StackOp κ) → (κ → CCoins) → Prop
  | nil (view : κ → CCoins) : Assigns view [] view
  | modifyCoins {view view' : κ → CCoins} {writes : List (StackOp κ)} (txhash : κ)
      (coins : CCoins) :
      Assigns (Function.update view txhash coins.cleanup) writes view' →
      Assigns view (.modifyCoins txhash coins :: writes) view'
  | modifyNewCoins {view view' : κ → CCoins} {writes : List (StackOp κ)} (txhash : κ)
      (coinbase : Bool) (coins : CCoins) : (view txhash).isPruned = true →
      Assigns (Function.update view txhash coins.cleanup) writes view' →
      Assigns view (.modifyNewCoins txhash coinbase coins :: writes) view'

theorem Assigns.trans {first second third : κ → CCoins} {writes writes' : List (StackOp κ)}
    (left : Assigns first writes second) (right : Assigns second writes' third) :
    Assigns first (writes ++ writes') third := by
  induction left with
  | nil => exact right
  | modifyCoins txhash coins _ ih => exact .modifyCoins txhash coins (ih right)
  | modifyNewCoins txhash coinbase coins fresh _ ih =>
      exact .modifyNewCoins txhash coinbase coins fresh (ih right)

theorem CoinsView.notUnspent_of_live_view {view : CoinsView κ} {txhash : κ}
    (absent : live (view.view txhash) = none) : view.notUnspent txhash = true := by
  unfold CoinsView.notUnspent
  rw [CoinsView.getCoins_fst]
  cases found : view.view txhash with
  | none => rfl
  | some coins =>
      rw [found] at absent
      exact isPruned_of_live_some_eq_none absent

theorem CoinsView.depth_pos_of_step_modifyCoins {view view' : CoinsView κ} {txhash : κ}
    {coins : CCoins} (stepped : view.step (.modifyCoins txhash coins) = some (.ok view')) :
    0 < view'.depth := by
  cases view with
  | db _ => cases stepped
  | cache self base =>
      cases stepped
      exact Nat.succ_pos _

theorem CoinsView.depth_pos_of_step_modifyNewCoins {view view' : CoinsView κ} {txhash : κ}
    {coinbase : Bool} {coins : CCoins}
    (stepped : view.step (.modifyNewCoins txhash coinbase coins) = some (.ok view')) :
    0 < view'.depth := by
  cases view with
  | db _ => cases stepped
  | cache self base =>
      simp only [CoinsView.step, CoinsView.onCache, Option.some.injEq] at stepped
      cases assigned : self.modifyNewAndAssign txhash coinbase coins with
      | error _ =>
          rw [assigned] at stepped
          cases stepped
      | ok self' =>
          rw [assigned] at stepped
          cases stepped
          exact Nat.succ_pos _

/-- One permitted operation extends a run from the database. -/
theorem Run.extend {store : CoinsStore κ} {ops : List (StackOp κ)} {stack : CoinsView κ}
    (run : Run StackOp.Permitted (.db store) ops stack) (op : StackOp κ)
    (permitted : op.Permitted stack) :
    ∃ stack', stack.step op = some (.ok stack') ∧
      Run StackOp.Permitted (.db store) (ops ++ [op]) stack' := by
  obtain ⟨stack', stepped, -⟩ := CoinsView.step_spec run.wellFormed_sameLive.1 permitted
  exact ⟨stack', stepped, Run.snoc op run permitted stepped⟩

/--
The run lemma of the bridge: after a permitted run whose cleaned reference map
is `view`, with a cache on top, the assignments of `Assigns view writes view'`
are permitted one after another and none throws, and the cleaned reference map
becomes `view'`.
-/
theorem Assigns.run {store : CoinsStore κ} {view view' : κ → CCoins}
    {writes : List (StackOp κ)} (assigns : Assigns view writes view') :
    ∀ {ops : List (StackOp κ)} {stack : CoinsView κ},
      Run StackOp.Permitted (.db store) ops stack → 0 < stack.depth →
        store.cleanedReferenceAfter ops = view →
        ∃ stack', Run StackOp.Permitted (.db store) (ops ++ writes) stack' ∧
          store.cleanedReferenceAfter (ops ++ writes) = view' := by
  induction assigns with
  | nil =>
      intro ops stack run _ reference
      exact ⟨stack, by rwa [List.append_nil], by rwa [List.append_nil]⟩
  | modifyCoins txhash coins _ ih =>
      intro ops stack run cached reference
      obtain ⟨stack', stepped, extended⟩ := run.extend (.modifyCoins txhash coins) cached
      have rest := ih extended (CoinsView.depth_pos_of_step_modifyCoins stepped)
        (by rw [CoinsStore.cleanedReferenceAfter_snoc, reference]; rfl)
      rwa [List.append_assoc, List.singleton_append] at rest
  | modifyNewCoins txhash coinbase coins fresh _ ih =>
      intro ops stack run cached reference
      -- the top view agrees with the reference map on what is unspent, and the map has
      -- nothing unspent under `txhash`
      have absent : stack.notUnspent txhash = true := by
        apply CoinsView.notUnspent_of_live_view
        rw [run.wellFormed_sameLive.2 txhash, reference]
        exact live_some_of_isPruned fresh
      obtain ⟨stack', stepped, extended⟩ :=
        run.extend (.modifyNewCoins txhash coinbase coins) ⟨cached, absent⟩
      have rest := ih extended (CoinsView.depth_pos_of_step_modifyNewCoins stepped)
        (by rw [CoinsStore.cleanedReferenceAfter_snoc, reference]; rfl)
      rwa [List.append_assoc, List.singleton_append] at rest

/-- `Assigns.run` from the run's own cleaned reference map, and what the top view then shows. -/
theorem Assigns.run_shows {store : CoinsStore κ} {ops : List (StackOp κ)} {stack : CoinsView κ}
    (run : Run StackOp.Permitted (.db store) ops stack) (cached : 0 < stack.depth)
    {writes : List (StackOp κ)} {view' : κ → CCoins}
    (assigns : Assigns (store.cleanedReferenceAfter ops) writes view') :
    ∃ stack', Run StackOp.Permitted (.db store) (ops ++ writes) stack' ∧
      store.cleanedReferenceAfter (ops ++ writes) = view' ∧
      ∀ txhash, matchesReference (stack'.getCoins txhash).1 (view' txhash) = true := by
  obtain ⟨stack', extended, reference⟩ := assigns.run run cached rfl
  refine ⟨stack', extended, reference, fun txhash => ?_⟩
  rw [← reference]
  exact extended.getCoins_matches txhash

end Dogecoin.Coins

namespace Dogecoin.Validation

open Dogecoin.Primitives Dogecoin.Coins

/-! ## The assignments of `Connect` -/

/-- `ModifyCoins(txid)`, a change through the modifier, and its destructor. -/
theorem assigns_modifyCoins (view : CoinsMap) (txid : UInt256) (f : CCoins → CCoins) :
    Assigns view [.modifyCoins txid (f (view txid))] (modifyCoins view txid f) :=
  .modifyCoins txid _ (.nil _)

/-- `ModifyNewCoins(txid, coinbase)` where nothing unspent is seen, a change, and its destructor. -/
theorem assigns_modifyNewCoins {view : CoinsMap} {txid : UInt256}
    (fresh : (view txid).isPruned = true) (coinbase : Bool) (f : CCoins → CCoins) :
    Assigns view [.modifyNewCoins txid coinbase (f (view txid))] (modifyCoins view txid f) :=
  .modifyNewCoins txid coinbase _ fresh (.nil _)

theorem spendInput_assigns {inputs : CoinsMap} {txin : CTxIn} {undo : CTxInUndo}
    {inputs' : CoinsMap} (spent : spendInput inputs txin = some (undo, inputs')) :
    ∃ writes, Assigns inputs writes inputs' := by
  obtain ⟨-, -, -, rfl⟩ := spendInput_eq_some spent
  exact ⟨_, assigns_modifyCoins inputs _ _⟩

theorem spendInputs_assigns :
    ∀ {vin : List CTxIn} {inputs : CoinsMap} {vprevout : List CTxInUndo} {inputs' : CoinsMap},
      spendInputs vin inputs = some (vprevout, inputs') → ∃ writes, Assigns inputs writes inputs'
  | [], inputs, _, _, spent => by
      cases spent
      exact ⟨[], .nil inputs⟩
  | _ :: _, _, _, _, spent => by
      obtain ⟨_, _, _, first, others, -⟩ := spendInputs_cons_eq_some spent
      obtain ⟨writes, assigns⟩ := spendInput_assigns first
      obtain ⟨writes', assigns'⟩ := spendInputs_assigns others
      exact ⟨writes ++ writes', assigns.trans assigns'⟩

theorem applyTxInUndo_assigns (undo : CTxInUndo) (view : CoinsMap) (out : COutPoint) :
    Assigns view [.modifyCoins out.hash (undoCoins undo out.n.toNat (view out.hash))]
      (applyTxInUndo undo view out).2 :=
  assigns_modifyCoins view out.hash _

theorem restoreInputs_assigns :
    ∀ (inputs : List (CTxIn × CTxInUndo)) (view : CoinsMap),
      ∃ writes, Assigns view writes (restoreInputs inputs view).2
  | [], view => ⟨[], .nil view⟩
  | (txin, undo) :: rest, view => by
      obtain ⟨writes, assigns⟩ := restoreInputs_assigns rest view
      exact ⟨_, assigns.trans (applyTxInUndo_assigns undo _ txin.prevout)⟩

section Hash

variable (txHash : CTransaction → UInt256)

/-- `UpdateCoins` of a transaction with nothing unspent under its hash. -/
theorem updateCoins_assigns {tx : CTransaction} {inputs : CoinsMap} {nHeight : Int}
    {txundo : CTxUndo} {inputs' : CoinsMap} (fresh : (inputs (txHash tx)).isPruned = true)
    (updated : updateCoins txHash tx inputs nHeight = some (txundo, inputs')) :
    ∃ writes, Assigns inputs writes inputs' := by
  cases coinBase : tx.isCoinBase with
  | true =>
      rw [updateCoins_of_isCoinBase txHash coinBase] at updated
      cases updated
      exact ⟨_, assigns_modifyNewCoins fresh true _⟩
  | false =>
      obtain ⟨middle, spent, rfl⟩ := updateCoins_of_not_isCoinBase txHash coinBase updated
      obtain ⟨writes, assigns⟩ := spendInputs_assigns spent
      exact ⟨_, assigns.trans (assigns_modifyNewCoins (spendInputs_isPruned spent fresh) false _)⟩

theorem connectTransactions_assigns {nHeight : Int} :
    ∀ {txs : List CTransaction} {view : CoinsMap}, Connectable txHash nHeight txs view →
      ∃ vtxundo view' writes, connectTransactions txHash nHeight txs view = some (vtxundo, view') ∧
        Assigns view writes view'
  | [], view, _ => ⟨[], view, [], rfl, .nil view⟩
  | _ :: _, _, ⟨fresh, txundo, _, updated, rest⟩ => by
      obtain ⟨writes, assigns⟩ := updateCoins_assigns txHash fresh updated
      obtain ⟨vtxundo, view', writes', connected, assigns'⟩ := connectTransactions_assigns rest
      refine ⟨txundo :: vtxundo, view', writes ++ writes', ?_, assigns.trans assigns'⟩
      simp only [connectTransactions, updated, connected, Option.bind_eq_bind, Option.bind_some,
        Option.pure_def]

theorem connectBlock_assigns {nHeight : Int} {block : List CTransaction} {view : CoinsMap}
    (connectable : Connectable txHash nHeight block view) :
    ∃ blockUndo view' writes, connectBlock txHash block view nHeight = some (blockUndo, view') ∧
      Assigns view writes view' := by
  cases block with
  | nil => exact ⟨⟨[]⟩, view, [], rfl, .nil view⟩
  | cons coinbase txs =>
      obtain ⟨fresh, _, _, updated, rest⟩ := connectable
      obtain ⟨writes, assigns⟩ := updateCoins_assigns txHash fresh updated
      obtain ⟨vtxundo, view', writes', connected, assigns'⟩ :=
        connectTransactions_assigns txHash rest
      refine ⟨⟨vtxundo⟩, view', writes ++ writes', ?_, assigns.trans assigns'⟩
      simp only [connectBlock, updated, connected, Option.bind_eq_bind, Option.bind_some,
        Option.pure_def]

theorem disconnectOutputs_assigns (tx : CTransaction) (view : CoinsMap) (nHeight : Int) :
    Assigns view [.modifyCoins (txHash tx) CCoins.empty]
      (disconnectOutputs txHash tx view nHeight).2 :=
  assigns_modifyCoins view (txHash tx) fun _ => CCoins.empty

theorem disconnectTransactions_assigns {nHeight : Int} :
    ∀ {pairs : List (CTransaction × CTxUndo)} {view : CoinsMap} {fClean : Bool} {view' : CoinsMap},
      disconnectTransactions txHash nHeight pairs view = some (fClean, view') →
        ∃ writes, Assigns view writes view'
  | [], view, _, _, disconnected => by
      cases disconnected
      exact ⟨[], .nil view⟩
  | (tx, txundo) :: rest, view, _, _, disconnected => by
      cases later : disconnectTransactions txHash nHeight rest view with
      | none => simp [disconnectTransactions, later] at disconnected
      | some result =>
          obtain ⟨_, middle⟩ := result
          simp only [disconnectTransactions, later, Option.bind_eq_bind, Option.bind_some]
            at disconnected
          split at disconnected
          · cases disconnected
          · cases disconnected
            obtain ⟨writes, assigns⟩ := disconnectTransactions_assigns later
            obtain ⟨writes', assigns'⟩ :=
              restoreInputs_assigns (tx.vin.zip txundo.vprevout)
                (disconnectOutputs txHash tx middle nHeight).2
            exact ⟨_, (assigns.trans (disconnectOutputs_assigns txHash tx middle nHeight)).trans
              assigns'⟩

theorem disconnectBlock_assigns {block : List CTransaction} {blockUndo : CBlockUndo}
    {view : CoinsMap} {nHeight : Int} {fClean : Bool} {view' : CoinsMap}
    (disconnected : disconnectBlock txHash block blockUndo view nHeight = some (fClean, view')) :
    ∃ writes, Assigns view writes view' := by
  unfold disconnectBlock at disconnected
  split at disconnected
  · cases disconnected
  · cases block with
    | nil => cases disconnected
    | cons coinbase txs =>
        cases later : disconnectTransactions txHash nHeight (txs.zip blockUndo.vtxundo) view with
        | none => simp [later] at disconnected
        | some result =>
            obtain ⟨_, middle⟩ := result
            simp only [later, Option.bind_eq_bind, Option.bind_some] at disconnected
            cases disconnected
            obtain ⟨writes, assigns⟩ := disconnectTransactions_assigns txHash later
            exact ⟨_, assigns.trans (disconnectOutputs_assigns txHash coinbase middle nHeight)⟩

/-! ## The bridge -/

/--
`ConnectBlock` on a stack of caches.  After a permitted run of the stack with a
cache on top, when every transaction of the block finds nothing unspent under
its hash and its inputs available in the run's cleaned reference map,
`ConnectBlock` on that map succeeds, its assignments through modifiers of the
top cache extend the run with every operation permitted and none throwing, the
longer run's cleaned reference map is the map `ConnectBlock` returns, and the
top view matches it at every hash.
-/
theorem connectBlock_cacheStack {store : CoinsStore UInt256} {ops : List (StackOp UInt256)}
    {stack : CoinsView UInt256} (run : Run StackOp.Permitted (.db store) ops stack)
    (cached : 0 < stack.depth) {block : List CTransaction} {nHeight : Int}
    (connectable : Connectable txHash nHeight block (store.cleanedReferenceAfter ops)) :
    ∃ blockUndo after writes stack',
      connectBlock txHash block (store.cleanedReferenceAfter ops) nHeight = some (blockUndo, after) ∧
      Assigns (store.cleanedReferenceAfter ops) writes after ∧
      Run StackOp.Permitted (.db store) (ops ++ writes) stack' ∧
      store.cleanedReferenceAfter (ops ++ writes) = after ∧
      ∀ txhash, matchesReference (stack'.getCoins txhash).1 (after txhash) = true := by
  obtain ⟨blockUndo, after, writes, connected, assigns⟩ := connectBlock_assigns txHash connectable
  obtain ⟨stack', extended, reference, shows⟩ := assigns.run_shows run cached
  exact ⟨blockUndo, after, writes, stack', connected, assigns, extended, reference, shows⟩

/--
`DisconnectBlock` on a stack of caches.  After a permitted run of the stack
with a cache on top, whenever `DisconnectBlock` on the run's cleaned reference
map returns, its assignments through modifiers of the top cache extend the run
with every operation permitted and none throwing, the longer run's cleaned
reference map is the map `DisconnectBlock` returns, and the top view matches it
at every hash.
-/
theorem disconnectBlock_cacheStack {store : CoinsStore UInt256} {ops : List (StackOp UInt256)}
    {stack : CoinsView UInt256} (run : Run StackOp.Permitted (.db store) ops stack)
    (cached : 0 < stack.depth) {block : List CTransaction} {blockUndo : CBlockUndo}
    {nHeight : Int} {fClean : Bool} {after : CoinsMap}
    (disconnected : disconnectBlock txHash block blockUndo (store.cleanedReferenceAfter ops)
      nHeight = some (fClean, after)) :
    ∃ writes stack', Assigns (store.cleanedReferenceAfter ops) writes after ∧
      Run StackOp.Permitted (.db store) (ops ++ writes) stack' ∧
      store.cleanedReferenceAfter (ops ++ writes) = after ∧
      ∀ txhash, matchesReference (stack'.getCoins txhash).1 (after txhash) = true := by
  obtain ⟨writes, assigns⟩ := disconnectBlock_assigns txHash disconnected
  obtain ⟨stack', extended, reference, shows⟩ := assigns.run_shows run cached
  exact ⟨writes, stack', assigns, extended, reference, shows⟩

end Hash

end Dogecoin.Validation
