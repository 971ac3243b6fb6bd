import Dogecoin.Validation.Connect

/-!
# Disconnecting a connected block gives the view back

`DisconnectBlock` undoes `ConnectBlock` transaction by transaction from the
last, and within a transaction input by input from the last.  Each step is
the inverse of the matching step of `UpdateCoins` on any view that agrees
with the view that step produced: the outputs of a transaction are removed
where BIP 30 left nothing unspent, and `ApplyTxInUndo` puts a spent output
back, rebuilding the metadata of the coins from the undo data when the spend
pruned them.

The undo data only carry metadata for a spend that pruned the coins, and a
height of zero means that it did not; so coins at height zero, and blocks at
height zero, do not survive the round trip.  Versions below zero come back as
`ReadVarInt` reads them, and pruned coins come back as `CCoins()`.
-/

namespace Dogecoin.Validation

open Dogecoin.Primitives Dogecoin.Coins Dogecoin.Serialize StreamDecode

/-! ## Agreement of views -/

/--
The coins after the round trip against the coins before: both pruned, or the
same but for a negative version, which `VARINT` does not keep.
-/
def Restored (restored original : CCoins) : Prop :=
  (restored.isPruned = true ∧ original.isPruned = true) ∨
    (restored.fCoinBase = original.fCoinBase ∧ restored.vout = original.vout ∧
      restored.nHeight = original.nHeight ∧
      (0 ≤ original.nVersion → restored.nVersion = original.nVersion))

/-- Every transaction's coins in `view` are restored from those in `original`. -/
def Agrees (view original : CoinsMap) : Prop :=
  ∀ txid, Restored (view txid) (original txid)

/--
The views `ConnectBlock` runs on: every record is stored, and unspent coins
have a height above zero that fits an `int`.
-/
structure StoredView (view : CoinsMap) : Prop where
  stored : ∀ txid, (view txid).Stored
  height : ∀ txid, (view txid).isPruned = false →
    0 < (view txid).nHeight ∧ (view txid).nHeight < 2 ^ 31

theorem Restored.isPruned_eq {restored original : CCoins} (agrees : Restored restored original) :
    restored.isPruned = original.isPruned := by
  rcases agrees with ⟨restoredPruned, originalPruned⟩ | ⟨-, vout, -⟩
  · rw [restoredPruned, originalPruned]
  · simp only [CCoins.isPruned, vout]

theorem Restored.of_isPruned {restored original : CCoins} (restoredPruned : restored.isPruned = true)
    (originalPruned : original.isPruned = true) : Restored restored original :=
  Or.inl ⟨restoredPruned, originalPruned⟩

theorem Restored.refl (coins : CCoins) : Restored coins coins :=
  Or.inr ⟨rfl, rfl, rfl, fun _ => rfl⟩

/-- Coins that are not pruned are restored field by field. -/
theorem Restored.fields {restored original : CCoins} (agrees : Restored restored original)
    (unspent : original.isPruned = false) :
    restored.fCoinBase = original.fCoinBase ∧ restored.vout = original.vout ∧
      restored.nHeight = original.nHeight ∧
      (0 ≤ original.nVersion → restored.nVersion = original.nVersion) := by
  rcases agrees with ⟨-, originalPruned⟩ | fields
  · rw [unspent] at originalPruned
    cases originalPruned
  · exact fields

@[simp]
theorem modifyCoins_self (view : CoinsMap) (txid : UInt256) (f : CCoins → CCoins) :
    modifyCoins view txid f txid = (f (view txid)).cleanup :=
  Function.update_self txid _ view

@[simp]
theorem modifyCoins_ne {view : CoinsMap} {txid other : UInt256} (f : CCoins → CCoins)
    (different : other ≠ txid) :
    modifyCoins view txid f other = view other :=
  Function.update_of_ne different _ view

/--
A view that agrees with `modifyCoins original txid g` away from `txid`, and is
changed at `txid` to coins restored from `original`'s, agrees with `original`.
-/
theorem Agrees.modifyCoins {view original : CoinsMap} {txid : UInt256} {g : CCoins → CCoins}
    (agrees : Agrees view (Validation.modifyCoins original txid g)) (f : CCoins → CCoins)
    (here : Restored (f (view txid)).cleanup (original txid)) :
    Agrees (Validation.modifyCoins view txid f) original := by
  intro other
  by_cases same : other = txid
  · subst same
    rw [modifyCoins_self]
    exact here
  · have kept := agrees other
    rw [modifyCoins_ne _ same] at kept ⊢
    exact kept

/-! ## Machine integers of the undo data -/

theorem toNat_ofInt_of_lt {n : Int} (nonneg : 0 ≤ n) (small : n < 2 ^ 31) :
    (UInt32.ofInt n).toNat = n.toNat := by
  rw [UInt32.ofInt, UInt32.toNat_ofNat']
  omega

/-- An `int` height stored as `unsigned int` and read back as `int` is unchanged. -/
theorem toInt_toInt32_ofInt {n : Int} (nonneg : 0 ≤ n) (small : n < 2 ^ 31) :
    (UInt32.ofInt n).toInt32.toInt = n := by
  rw [UInt32.ofInt, UInt32.toInt32_ofNat', Int32.toInt_ofNat']
  have cast : (((n % 2 ^ 32).toNat : Nat) : Int) = n := by omega
  rw [cast]
  exact Int.bmod_eq_of_le (by simp only [Int32.size]; omega) (by simp only [Int32.size]; omega)

theorem ofInt_ne_zero {n : Int} (positive : 0 < n) (small : n < 2 ^ 31) :
    UInt32.ofInt n ≠ 0 := by
  intro zero
  have value := toNat_ofInt_of_lt (by omega) small
  rw [zero, UInt32.toNat_zero] at value
  omega

theorem readBack_of_nonneg {n : Int} (nonneg : 0 ≤ n) : (readBack n : Int) = n := by
  rw [readBack, if_pos nonneg, Int.toNat_of_nonneg nonneg]

/-! ## One spend and its undo data -/

/-- A record whose `Cleanup` changes nothing is pruned exactly when it has no outputs. -/
theorem isPruned_iff_of_cleanup_eq {coins : CCoins} (cleaned : coins.cleanup = coins) :
    coins.isPruned = true ↔ coins.vout = [] := by
  rw [← CCoins.cleanup_vout_eq_nil_iff, cleaned]

theorem isPruned_eq_false_of_isAvailable {coins : CCoins} {nPos : Nat}
    (available : coins.isAvailable nPos = true) : coins.isPruned = false := by
  unfold CCoins.isAvailable at available
  cases found : coins.vout[nPos]? with
  | none => simp [found] at available
  | some out =>
      rw [found] at available
      rw [Bool.eq_false_iff]
      intro pruned
      have spent := (CCoins.isPruned_iff coins).1 pruned out (List.mem_of_getElem? found)
      simp [spent] at available

theorem isAvailable_congr {coins coins' : CCoins} (same : coins'.vout = coins.vout) (nPos : Nat) :
    coins'.isAvailable nPos = coins.isAvailable nPos := by
  simp only [CCoins.isAvailable, same]

/-- Spending an available output clears it and trims the end. -/
theorem spend_of_isAvailable {coins : CCoins} {nPos : Nat}
    (available : coins.isAvailable nPos = true) :
    (coins.spend nPos).2 =
      { coins with vout := (coins.vout.set nPos CTxOut.null).rdropWhile CTxOut.isNull } := by
  rw [CCoins.spend, if_pos available]
  rfl

/-- The spent output is no longer available. -/
theorem isAvailable_spend {coins : CCoins} {nPos : Nat} (available : coins.isAvailable nPos = true) :
    (coins.spend nPos).2.isAvailable nPos = false := by
  rw [spend_of_isAvailable available]
  cases found : ((coins.vout.set nPos CTxOut.null).rdropWhile CTxOut.isNull)[nPos]? with
  | none => simp [CCoins.isAvailable, found]
  | some out =>
      obtain ⟨inRange, element⟩ := List.getElem?_eq_some_iff.1 found
      rw [(List.rdropWhile_prefix CTxOut.isNull _).getElem inRange, List.getElem_set_self] at element
      simp [CCoins.isAvailable, found, ← element]

theorem undoOfSpend_txout (txout : CTxOut) (spent : CCoins) :
    (undoOfSpend txout spent).txout = txout := by
  unfold undoOfSpend
  split <;> rfl

section Spend

variable {coins : CCoins} (stored : coins.Stored)
  (height : 0 < coins.nHeight ∧ coins.nHeight < 2 ^ 31)
  {nPos : Nat} (inRange : nPos < coins.vout.length) (unspent : coins.vout[nPos].isNull = false)

include stored height inRange unspent in
/-- The undo data of a spend of a stored record can be stored. -/
theorem undoOfSpend_storable :
    (undoOfSpend coins.vout[nPos] (coins.spend nPos).2).Storable where
  height := by
    unfold undoOfSpend
    split
    · obtain ⟨-, heightKept, -⟩ := CCoins.spend_metadata coins nPos
      show (UInt32.ofInt (coins.spend nPos).2.nHeight).toNat < 2 ^ 31
      rw [heightKept, toNat_ofInt_of_lt (by omega) height.2]
      omega
    · exact Nat.two_pow_pos 31
  output := by
    rw [undoOfSpend_txout]
    exact stored.outputs _ (List.getElem_mem inRange)
  unspent := by
    rw [undoOfSpend_txout]
    exact unspent

include stored height inRange unspent in
/--
Undo data of a spend, as read back, put the spent output back on any coins
restored from the spent ones, cleanly, and give coins restored from the
original ones.
-/
theorem undo_spend {current : CCoins} (restored : Restored current (coins.spend nPos).2) :
    undoClean (undoOfSpend coins.vout[nPos] (coins.spend nPos).2).readBack nPos current = true ∧
      Restored (undoCoins (undoOfSpend coins.vout[nPos] (coins.spend nPos).2).readBack nPos
        current).cleanup coins := by
  have available : coins.isAvailable nPos = true := by
    simp [CCoins.isAvailable, List.getElem?_eq_getElem inRange, unspent]
  have spent := spend_of_isAvailable available
  have spentCleaned := (stored.spend nPos).cleaned
  obtain ⟨coinBase, heightKept, versionKept⟩ := CCoins.spend_metadata coins nPos
  have rebuilt := TrimRestore.set_restore CTxOut.isNull CTxOut.null stored.trimmed
    (fun y member isNull => (stored.outputs y member).eq_null_of_isNull isNull)
    CTxOut.isNull_null inRange
  by_cases pruned : (coins.spend nPos).2.vout.length = 0
  · have cleared : (coins.vout.set nPos CTxOut.null).rdropWhile CTxOut.isNull = [] := by
      rw [spent] at pruned
      exact List.eq_nil_of_length_eq_zero pruned
    have currentPruned : current.isPruned = true := by
      rw [restored.isPruned_eq, isPruned_iff_of_cleanup_eq spentCleaned]
      exact List.eq_nil_of_length_eq_zero pruned
    have marked : UInt32.ofInt coins.nHeight ≠ 0 := ofInt_ne_zero height.1 height.2
    have undoEq : (undoOfSpend coins.vout[nPos] (coins.spend nPos).2).readBack =
        ⟨coins.vout[nPos], coins.fCoinBase, UInt32.ofInt coins.nHeight,
          (readBack coins.nVersion : Int)⟩ := by
      have positive : UInt32.ofInt coins.nHeight > 0 := by
        rw [GT.gt, UInt32.lt_iff_toNat_lt, toNat_ofInt_of_lt (by omega) height.2]
        simp only [UInt32.toNat_zero]
        omega
      simp only [undoOfSpend, if_pos pruned, CTxInUndo.readBack, CTxInUndo.ofTxOut, coinBase,
        heightKept, versionKept, if_pos positive]
    have base : undoBase ⟨coins.vout[nPos], coins.fCoinBase, UInt32.ofInt coins.nHeight,
        (readBack coins.nVersion : Int)⟩ current =
        { fCoinBase := coins.fCoinBase, vout := [], nHeight := coins.nHeight,
          nVersion := (readBack coins.nVersion : Int) } := by
      rw [undoBase, if_pos marked, toInt_toInt32_ofInt (by omega) height.2]
    rw [undoEq]
    constructor
    · simp only [undoClean, if_pos marked, currentPruned, base]
      rfl
    · rw [cleared] at rebuilt
      simp only [undoCoins, base]
      rw [rebuilt]
      simp only [CCoins.cleanup, stored.trimmed]
      right
      exact ⟨rfl, rfl, rfl, fun nonneg => readBack_of_nonneg nonneg⟩
  · have spentUnpruned : (coins.spend nPos).2.isPruned = false := by
      rw [Bool.eq_false_iff, Ne, isPruned_iff_of_cleanup_eq spentCleaned]
      exact fun empty => pruned (by rw [empty]; rfl)
    obtain ⟨coinBase', vout', height', version'⟩ := restored.fields spentUnpruned
    have undoEq : (undoOfSpend coins.vout[nPos] (coins.spend nPos).2).readBack =
        ⟨coins.vout[nPos], false, 0, 0⟩ := by
      simp only [undoOfSpend, if_neg pruned, CTxInUndo.readBack, CTxInUndo.ofTxOut]
      rfl
    have base : undoBase ⟨coins.vout[nPos], false, 0, 0⟩ current = current := by
      rw [undoBase, if_neg (fun marked => marked rfl)]
    rw [undoEq]
    constructor
    · simp only [undoClean, base, if_neg (fun marked : (0 : UInt32) ≠ 0 => marked rfl),
        restored.isPruned_eq, spentUnpruned, isAvailable_congr vout',
        isAvailable_spend available]
      rfl
    · rw [spent] at vout'
      simp only [undoCoins, base, vout']
      rw [rebuilt]
      have trimmedBack : { current with vout := coins.vout }.cleanup =
          { current with vout := coins.vout } := by
        simp only [CCoins.cleanup, stored.trimmed]
      rw [trimmedBack]
      right
      refine ⟨coinBase'.trans coinBase, rfl, height'.trans heightKept, fun nonneg => ?_⟩
      rw [version' (by rw [versionKept]; exact nonneg), versionKept]

end Spend

/-! ## The inputs of a transaction -/

theorem spendInput_eq_some {inputs : CoinsMap} {txin : CTxIn} {undo : CTxInUndo}
    {inputs' : CoinsMap} (spent : spendInput inputs txin = some (undo, inputs')) :
    ∃ inRange : txin.prevout.n.toNat < (inputs txin.prevout.hash).vout.length,
      (inputs txin.prevout.hash).vout[txin.prevout.n.toNat].isNull = false ∧
      undo = undoOfSpend (inputs txin.prevout.hash).vout[txin.prevout.n.toNat]
        ((inputs txin.prevout.hash).spend txin.prevout.n.toNat).2 ∧
      inputs' = modifyCoins inputs txin.prevout.hash
        fun coins => (coins.spend txin.prevout.n.toNat).2 := by
  unfold spendInput at spent
  dsimp only at spent
  split at spent
  · cases spent
  · rename_i txout found
    obtain ⟨inRange, element⟩ := List.getElem?_eq_some_iff.1 found
    subst element
    split at spent
    · cases spent
    · rename_i unspent
      cases spent
      exact ⟨inRange, Bool.eq_false_iff.2 unspent, rfl, rfl⟩

/-- A spend keeps pruned coins pruned: the coins it changes have the output it spends. -/
theorem spendInput_isPruned {inputs : CoinsMap} {txin : CTxIn} {undo : CTxInUndo}
    {inputs' : CoinsMap} (spent : spendInput inputs txin = some (undo, inputs'))
    {txid : UInt256} (pruned : (inputs txid).isPruned = true) : (inputs' txid).isPruned = true := by
  obtain ⟨inRange, unspent, -, rfl⟩ := spendInput_eq_some spent
  by_cases same : txid = txin.prevout.hash
  · have available :
        (inputs txin.prevout.hash).isAvailable txin.prevout.n.toNat = true := by
      simp [CCoins.isAvailable, List.getElem?_eq_getElem inRange, unspent]
    rw [same, isPruned_eq_false_of_isAvailable available] at pruned
    cases pruned
  · rw [modifyCoins_ne _ same]
    exact pruned

/-- What one input of `UpdateCoins` leaves for `ApplyTxInUndo`. -/
theorem spendInput_spec {inputs : CoinsMap} (storedView : StoredView inputs) {txin : CTxIn}
    {undo : CTxInUndo} {inputs' : CoinsMap} (spent : spendInput inputs txin = some (undo, inputs')) :
    undo.Storable ∧ StoredView inputs' ∧
      (∀ txid, (inputs txid).isPruned = true → (inputs' txid).isPruned = true) ∧
      ∀ view, Agrees view inputs' →
        (applyTxInUndo undo.readBack view txin.prevout).1 = true ∧
          Agrees (applyTxInUndo undo.readBack view txin.prevout).2 inputs := by
  obtain ⟨inRange, unspent, rfl, rfl⟩ := spendInput_eq_some spent
  have stored := storedView.stored txin.prevout.hash
  have available : (inputs txin.prevout.hash).isAvailable txin.prevout.n.toNat = true := by
    simp [CCoins.isAvailable, List.getElem?_eq_getElem inRange, unspent]
  have unprunedHere := isPruned_eq_false_of_isAvailable available
  have height := storedView.height _ unprunedHere
  have spentCleaned := (stored.spend txin.prevout.n.toNat).cleaned
  refine ⟨undoOfSpend_storable stored height inRange unspent, ⟨?_, ?_⟩, ?_, ?_⟩
  · intro txid
    by_cases same : txid = txin.prevout.hash
    · subst same
      rw [modifyCoins_self, spentCleaned]
      exact stored.spend _
    · rw [modifyCoins_ne _ same]
      exact storedView.stored txid
  · intro txid unpruned
    by_cases same : txid = txin.prevout.hash
    · subst same
      obtain ⟨-, heightKept, -⟩ :=
        CCoins.spend_metadata (inputs txin.prevout.hash) txin.prevout.n.toNat
      rw [modifyCoins_self, spentCleaned, heightKept]
      exact height
    · rw [modifyCoins_ne _ same] at unpruned ⊢
      exact storedView.height txid unpruned
  · exact fun _ pruned => spendInput_isPruned spent pruned
  · intro view agrees
    have here := agrees txin.prevout.hash
    rw [modifyCoins_self, spentCleaned] at here
    obtain ⟨clean, back⟩ := undo_spend stored height inRange unspent here
    exact ⟨clean, agrees.modifyCoins _ back⟩

/-- What the input loop of `UpdateCoins` leaves for the input loop of `DisconnectBlock`. -/
structure InputsUndone (inputs : CoinsMap) (vin : List CTxIn) (vprevout : List CTxInUndo)
    (inputs' : CoinsMap) : Prop where
  length : vprevout.length = vin.length
  storable : ∀ undo ∈ vprevout, undo.Storable
  stored : StoredView inputs'
  pruned : ∀ txid, (inputs txid).isPruned = true → (inputs' txid).isPruned = true
  restores : ∀ view, Agrees view inputs' →
    (restoreInputs (vin.zip (vprevout.map CTxInUndo.readBack)) view).1 = true ∧
      Agrees (restoreInputs (vin.zip (vprevout.map CTxInUndo.readBack)) view).2 inputs

theorem spendInputs_cons_eq_some {txin : CTxIn} {vin : List CTxIn} {inputs : CoinsMap}
    {vprevout : List CTxInUndo} {inputs' : CoinsMap}
    (spent : spendInputs (txin :: vin) inputs = some (vprevout, inputs')) :
    ∃ undo middle rest, spendInput inputs txin = some (undo, middle) ∧
      spendInputs vin middle = some (rest, inputs') ∧ vprevout = undo :: rest := by
  cases first : spendInput inputs txin with
  | none => simp [spendInputs, first] at spent
  | some step =>
      obtain ⟨undo, middle⟩ := step
      cases others : spendInputs vin middle with
      | none => simp [spendInputs, first, others] at spent
      | some result =>
          obtain ⟨rest, last⟩ := result
          simp only [spendInputs, first, others, Option.bind_eq_bind, Option.bind_some,
            Option.pure_def, Option.some.injEq, Prod.mk.injEq] at spent
          obtain ⟨rfl, rfl⟩ := spent
          exact ⟨undo, middle, rest, rfl, others, rfl⟩

/-- The input loop of `UpdateCoins` keeps pruned coins pruned. -/
theorem spendInputs_isPruned :
    ∀ {vin : List CTxIn} {inputs : CoinsMap} {vprevout : List CTxInUndo} {inputs' : CoinsMap},
      spendInputs vin inputs = some (vprevout, inputs') →
        ∀ {txid : UInt256}, (inputs txid).isPruned = true → (inputs' txid).isPruned = true
  | [], _, _, _, spent => by
      cases spent
      exact id
  | _ :: _, _, _, _, spent => by
      obtain ⟨_, _, _, first, others, -⟩ := spendInputs_cons_eq_some spent
      exact fun pruned => spendInputs_isPruned others (spendInput_isPruned first pruned)

/-- The input loop of `DisconnectBlock` undoes the input loop of `UpdateCoins`. -/
theorem spendInputs_undone :
    ∀ {vin : List CTxIn} {inputs : CoinsMap} {vprevout : List CTxInUndo} {inputs' : CoinsMap},
      StoredView inputs → spendInputs vin inputs = some (vprevout, inputs') →
        InputsUndone inputs vin vprevout inputs'
  | [], inputs, vprevout, inputs', storedView, spent => by
      cases spent
      exact { length := rfl, storable := fun _ member => absurd member List.not_mem_nil,
              stored := storedView, pruned := fun _ pruned => pruned,
              restores := fun _ agrees => ⟨rfl, agrees⟩ }
  | txin :: vin, inputs, vprevout, inputs', storedView, spent => by
      obtain ⟨undo, middle, rest, first, others, rfl⟩ := spendInputs_cons_eq_some spent
      obtain ⟨storable, storedMiddle, prunedMiddle, restoresFirst⟩ :=
        spendInput_spec storedView first
      have later := spendInputs_undone storedMiddle others
      refine ⟨by rw [List.length_cons, List.length_cons, later.length], ?_, later.stored,
        fun txid pruned => later.pruned txid (prunedMiddle txid pruned), ?_⟩
      · intro other member
        rcases List.mem_cons.1 member with same | inRest
        · exact same ▸ storable
        · exact later.storable other inRest
      · intro view agrees
        obtain ⟨cleanLater, agreesMiddle⟩ := later.restores view agrees
        obtain ⟨cleanFirst, agreesFirst⟩ := restoresFirst _ agreesMiddle
        refine ⟨?_, agreesFirst⟩
        show ((restoreInputs (vin.zip (rest.map CTxInUndo.readBack)) view).1 &&
          (applyTxInUndo undo.readBack
            (restoreInputs (vin.zip (rest.map CTxInUndo.readBack)) view).2 txin.prevout).1) = true
        rw [cleanLater, cleanFirst]
        rfl

/-! ## The outputs of a transaction -/

theorem isPruned_clearUnspendable {coins : CCoins} (pruned : coins.isPruned = true) :
    coins.clearUnspendable.isPruned = true := by
  rw [CCoins.clearUnspendable, CCoins.isPruned_cleanup, CCoins.isPruned_iff]
  intro out member
  obtain ⟨original, inVout, rfl⟩ := List.mem_map.1 member
  split
  · exact CTxOut.isNull_null
  · exact (CCoins.isPruned_iff coins).1 pruned original inVout

/-- `FromTx` at a height that fits an `int` keeps a view stored. -/
theorem StoredView.modifyCoins_fromTx {inputs : CoinsMap} (storedView : StoredView inputs)
    (txid : UInt256) {tx : CTransaction}
    (amounts : ∀ txout ∈ tx.vout, moneyRange txout.nValue = true) {nHeight : Int}
    (height : 0 < nHeight ∧ nHeight < 2 ^ 31) :
    StoredView (modifyCoins inputs txid fun _ => CCoins.fromTx tx nHeight) := by
  have storedTx := CCoins.Stored.fromTx_of_moneyRange amounts nHeight
  constructor
  · intro other
    by_cases same : other = txid
    · subst same
      rw [modifyCoins_self, storedTx.cleaned]
      exact storedTx
    · rw [modifyCoins_ne _ same]
      exact storedView.stored other
  · intro other unpruned
    by_cases same : other = txid
    · subst same
      rw [modifyCoins_self, storedTx.cleaned]
      exact height
    · rw [modifyCoins_ne _ same] at unpruned ⊢
      exact storedView.height other unpruned

section Hash

variable (txHash : CTransaction → UInt256)

/--
Checking and removing the outputs of a transaction undoes adding them, on any
view that agrees with the view after they were added, when BIP 30 left nothing
unspent under the transaction's hash.
-/
theorem disconnectOutputs_spec {tx : CTransaction} {nHeight : Int}
    (amounts : ∀ txout ∈ tx.vout, moneyRange txout.nValue = true) {inputs : CoinsMap}
    (fresh : (inputs (txHash tx)).isPruned = true) {view : CoinsMap}
    (agrees : Agrees view (modifyCoins inputs (txHash tx) fun _ => CCoins.fromTx tx nHeight)) :
    (disconnectOutputs txHash tx view nHeight).1 = true ∧
      Agrees (disconnectOutputs txHash tx view nHeight).2 inputs := by
  have storedTx := CCoins.Stored.fromTx_of_moneyRange amounts nHeight
  have here := agrees (txHash tx)
  rw [modifyCoins_self, storedTx.cleaned] at here
  constructor
  · unfold disconnectOutputs
    dsimp only
    rcases here with ⟨viewPruned, txPruned⟩ | ⟨coinBase, vout, height, version⟩
    · have outsPruned := isPruned_clearUnspendable viewPruned
      rw [CCoins.same_iff]
      left
      refine ⟨?_, txPruned⟩
      split
      · exact outsPruned
      · exact outsPruned
    · rw [(storedTx.of_vout_eq vout).clearUnspendable_eq]
      generalize view (txHash tx) = current at coinBase vout height version
      cases current
      simp only at coinBase vout height version
      subst coinBase vout height
      split
      · exact CCoins.same_refl _
      · rename_i nonneg
        rw [version (Int.not_lt.1 nonneg)]
        exact CCoins.same_refl _
  · apply agrees.modifyCoins
    exact Restored.of_isPruned rfl fresh

/-- What `UpdateCoins` leaves for the loop body of `DisconnectBlock`. -/
structure TxUndone (nHeight : Int) (inputs : CoinsMap) (tx : CTransaction) (txundo : CTxUndo)
    (inputs' : CoinsMap) : Prop where
  length : tx.isCoinBase = false → txundo.vprevout.length = tx.vin.length
  storable : ∀ undo ∈ txundo.vprevout, undo.Storable
  stored : StoredView inputs'
  restores : ∀ view, Agrees view inputs' →
    (disconnectOutputs txHash tx view nHeight).1 = true ∧
      (restoreInputs (tx.vin.zip (txundo.vprevout.map CTxInUndo.readBack))
        (disconnectOutputs txHash tx view nHeight).2).1 = true ∧
      Agrees (restoreInputs (tx.vin.zip (txundo.vprevout.map CTxInUndo.readBack))
        (disconnectOutputs txHash tx view nHeight).2).2 inputs

/-- `UpdateCoins` of a coinbase only adds its outputs. -/
theorem updateCoins_of_isCoinBase {tx : CTransaction} (coinBase : tx.isCoinBase = true)
    (inputs : CoinsMap) (nHeight : Int) :
    updateCoins txHash tx inputs nHeight =
      some (⟨[]⟩, modifyCoins inputs (txHash tx) fun _ => CCoins.fromTx tx nHeight) := by
  simp only [updateCoins, coinBase, if_true, Option.pure_def]
  rfl

/-- `UpdateCoins` of any other transaction spends its inputs, then adds its outputs. -/
theorem updateCoins_of_not_isCoinBase {tx : CTransaction} (notCoinBase : tx.isCoinBase = false)
    {inputs : CoinsMap} {nHeight : Int} {txundo : CTxUndo} {inputs' : CoinsMap}
    (updated : updateCoins txHash tx inputs nHeight = some (txundo, inputs')) :
    ∃ middle, spendInputs tx.vin inputs = some (txundo.vprevout, middle) ∧
      inputs' = modifyCoins middle (txHash tx) fun _ => CCoins.fromTx tx nHeight := by
  cases spent : spendInputs tx.vin inputs with
  | none => simp [updateCoins, notCoinBase, spent] at updated
  | some result =>
      obtain ⟨vprevout, middle⟩ := result
      simp only [updateCoins, notCoinBase, Bool.false_eq_true, if_false, spent,
        Option.bind_eq_bind, Option.bind_some, Option.pure_def, Option.some.injEq,
        Prod.mk.injEq] at updated
      obtain ⟨rfl, rfl⟩ := updated
      exact ⟨middle, rfl, rfl⟩

/-- The loop body of `DisconnectBlock` undoes `UpdateCoins`. -/
theorem updateCoins_undone {tx : CTransaction} {nHeight : Int}
    (amounts : ∀ txout ∈ tx.vout, moneyRange txout.nValue = true)
    (height : 0 < nHeight ∧ nHeight < 2 ^ 31) {inputs : CoinsMap} (storedView : StoredView inputs)
    (fresh : (inputs (txHash tx)).isPruned = true) {txundo : CTxUndo} {inputs' : CoinsMap}
    (updated : updateCoins txHash tx inputs nHeight = some (txundo, inputs')) :
    TxUndone txHash nHeight inputs tx txundo inputs' := by
  cases coinBase : tx.isCoinBase with
  | true =>
      rw [updateCoins_of_isCoinBase txHash coinBase] at updated
      cases updated
      refine ⟨fun notCoinBase => absurd (coinBase.symm.trans notCoinBase) (by decide),
        fun _ member => absurd member List.not_mem_nil,
        storedView.modifyCoins_fromTx _ amounts height, fun view agrees => ?_⟩
      obtain ⟨matched, back⟩ := disconnectOutputs_spec txHash amounts fresh agrees
      simp only [List.map_nil, List.zip_nil_right, restoreInputs]
      exact ⟨matched, trivial, back⟩
  | false =>
      obtain ⟨middle, spent, rfl⟩ := updateCoins_of_not_isCoinBase txHash coinBase updated
      have undone := spendInputs_undone storedView spent
      refine ⟨fun _ => undone.length, undone.storable,
        undone.stored.modifyCoins_fromTx _ amounts height, fun view agrees => ?_⟩
      obtain ⟨matched, back⟩ :=
        disconnectOutputs_spec txHash amounts (undone.pruned _ fresh) agrees
      obtain ⟨restored, backInputs⟩ := undone.restores _ back
      exact ⟨matched, restored, backInputs⟩

/-! ## The block -/

/--
The checks of `ConnectBlock` that the round trip relies on, transaction by
transaction in block order: nothing unspent under the transaction's hash
(BIP 30), and every input available when `UpdateCoins` spends it.
-/
def Connectable (nHeight : Int) : List CTransaction → CoinsMap → Prop
  | [], _ => True
  | tx :: txs, view =>
      (view (txHash tx)).isPruned = true ∧
        ∃ txundo view', updateCoins txHash tx view nHeight = some (txundo, view') ∧
          Connectable nHeight txs view'

/-- What the loop of `ConnectBlock` after the coinbase leaves for the loop of `DisconnectBlock`. -/
structure TransactionsUndone (nHeight : Int) (view : CoinsMap) (txs : List CTransaction)
    (vtxundo : List CTxUndo) (view' : CoinsMap) : Prop where
  length : vtxundo.length = txs.length
  storable : ∀ txundo ∈ vtxundo, txundo.Storable
  stored : StoredView view'
  restores : ∀ current, Agrees current view' →
    ∃ restored, disconnectTransactions txHash nHeight (txs.zip (vtxundo.map CTxUndo.readBack))
      current = some (true, restored) ∧ Agrees restored view

/-- A transaction of a block after the coinbase, as `CheckBlock` leaves it. -/
structure Spender (tx : CTransaction) : Prop where
  notCoinBase : tx.isCoinBase = false
  inputs : tx.vin.length ≤ MAX_SIZE
  amounts : ∀ txout ∈ tx.vout, moneyRange txout.nValue = true

/-- The loop of `DisconnectBlock` undoes the loop of `ConnectBlock`, transaction by transaction. -/
theorem connectTransactions_undone {nHeight : Int} (height : 0 < nHeight ∧ nHeight < 2 ^ 31) :
    ∀ {txs : List CTransaction} {view : CoinsMap}, StoredView view → (∀ tx ∈ txs, Spender tx) →
      Connectable txHash nHeight txs view →
        ∃ vtxundo view', connectTransactions txHash nHeight txs view = some (vtxundo, view') ∧
          TransactionsUndone txHash nHeight view txs vtxundo view'
  | [], view, storedView, _, _ =>
      ⟨[], view, rfl, ⟨rfl, fun _ member => absurd member List.not_mem_nil, storedView,
        fun current agrees => ⟨current, rfl, agrees⟩⟩⟩
  | tx :: txs, view, storedView, spenders, ⟨fresh, txundo, middle, updated, rest⟩ => by
      have spender := spenders tx List.mem_cons_self
      have undone := updateCoins_undone txHash spender.amounts height storedView fresh updated
      obtain ⟨vtxundo, view', connected, later⟩ := connectTransactions_undone height undone.stored
        (fun other member => spenders other (List.mem_cons_of_mem _ member)) rest
      refine ⟨txundo :: vtxundo, view', ?_, ⟨?_, ?_, later.stored, ?_⟩⟩
      · simp only [connectTransactions, updated, connected, Option.bind_eq_bind, Option.bind_some,
          Option.pure_def]
      · rw [List.length_cons, List.length_cons, later.length]
      · intro other member
        rcases List.mem_cons.1 member with same | inRest
        · subst same
          exact ⟨by rw [undone.length spender.notCoinBase]; exact spender.inputs,
            undone.storable⟩
        · exact later.storable other inRest
      · intro current agrees
        obtain ⟨restored, disconnected, agreesMiddle⟩ := later.restores current agrees
        obtain ⟨matched, restoredInputs, back⟩ := undone.restores restored agreesMiddle
        have consistent : (txundo.vprevout.map CTxInUndo.readBack).length = tx.vin.length := by
          rw [List.length_map, undone.length spender.notCoinBase]
        refine ⟨_, ?_, back⟩
        simp only [List.map_cons, List.zip_cons_cons, disconnectTransactions, disconnected,
          Option.bind_eq_bind, Option.bind_some, CTxUndo.readBack]
        rw [if_neg (fun inconsistent => inconsistent consistent)]
        simp only [Option.pure_def, matched, restoredInputs, Bool.and_self]

end Hash

theorem Agrees.refl (view : CoinsMap) : Agrees view view :=
  fun txid => Restored.refl (view txid)

/--
Connecting a block and disconnecting it with its undo data, as stored and read
back, gives the view back.  The view holds stored records whose unspent coins
have heights in `1 ≤ nHeight < 2^31`; the block is at such a height, its first
transaction is its only coinbase, every amount of the block is in
`MoneyRange`, and the block and each transaction have at most `MAX_SIZE`
transactions and inputs; every transaction finds nothing unspent under its
hash and its inputs available.  Then `ConnectBlock` produces undo data that
`CBlockUndo` reads back, `DisconnectBlock` on them is clean, and every
transaction's coins are restored: pruned where they were pruned, and otherwise
equal, the version whenever it is not negative.
-/
theorem connectBlock_disconnectBlock_restores (keys : PubKeyCodec)
    (txHash : CTransaction → UInt256) {view : CoinsMap} (storedView : StoredView view)
    {coinbase : CTransaction} {txs : List CTransaction} (isCoinBase : coinbase.isCoinBase = true)
    (coinbaseAmounts : ∀ txout ∈ coinbase.vout, moneyRange txout.nValue = true)
    (spenders : ∀ tx ∈ txs, Spender tx) (bounded : txs.length ≤ MAX_SIZE)
    {nHeight : Int} (height : 0 < nHeight ∧ nHeight < 2 ^ 31)
    (connectable : Connectable txHash nHeight (coinbase :: txs) view) :
    ∃ blockundo connected,
      connectBlock txHash (coinbase :: txs) view nHeight = some (blockundo, connected) ∧
      Reads (CBlockUndo.unserialize keys) (blockundo.serialize keys) blockundo.readBack ∧
      ∃ disconnected,
        disconnectBlock txHash (coinbase :: txs) blockundo.readBack connected nHeight =
          some (true, disconnected) ∧
        Agrees disconnected view := by
  obtain ⟨fresh, cbundo, middle, updated, rest⟩ := connectable
  rw [updateCoins_of_isCoinBase txHash isCoinBase] at updated
  cases updated
  have storedMiddle := storedView.modifyCoins_fromTx (txHash coinbase) coinbaseAmounts height
  obtain ⟨vtxundo, connected, connectedEq, later⟩ :=
    connectTransactions_undone txHash height storedMiddle spenders rest
  refine ⟨⟨vtxundo⟩, connected, ?_, ?_, ?_⟩
  · simp only [connectBlock, updateCoins_of_isCoinBase txHash isCoinBase, connectedEq,
      Option.bind_eq_bind, Option.bind_some, Option.pure_def]
  · exact CBlockUndo.reads_serialize keys (by rw [later.length]; exact bounded) later.storable
  · obtain ⟨restored, disconnected, agreesMiddle⟩ := later.restores connected (Agrees.refl _)
    obtain ⟨matched, back⟩ := disconnectOutputs_spec txHash coinbaseAmounts fresh agreesMiddle
    have consistent :
        (CBlockUndo.readBack ⟨vtxundo⟩).vtxundo.length + 1 = (coinbase :: txs).length := by
      show (vtxundo.map CTxUndo.readBack).length + 1 = _
      rw [List.length_map, later.length, List.length_cons]
    refine ⟨_, ?_, back⟩
    rw [disconnectBlock, if_neg (fun inconsistent => inconsistent consistent)]
    simp only [CBlockUndo.readBack, disconnected, Option.bind_eq_bind, Option.bind_some,
      Option.pure_def, matched, Bool.and_self]

/-- The hashes of the blocks below: `1` for a coinbase, `2` for any other transaction. -/
def sampleHash (tx : CTransaction) : UInt256 :=
  if tx.isCoinBase then 1 else 2

/-- A coinbase paying fifty units. -/
def sampleCoinbase : CTransaction :=
  ⟨1, [⟨⟨0, UInt32.ofNat (2 ^ 32 - 1)⟩, [0, 0], 0⟩], [⟨50, []⟩], 0⟩

/-- A transaction spending the output of `sampleCoinbase` in the same block. -/
def sampleSpend : CTransaction :=
  ⟨1, [⟨⟨1, 0⟩, [], 0⟩], [⟨50, []⟩], 0⟩

theorem storedView_empty : StoredView fun _ => CCoins.empty where
  stored := fun _ => ⟨fun _ member => absurd member List.not_mem_nil, rfl⟩
  height := fun _ unpruned => absurd unpruned (by decide)

/-- A block at height two whose second transaction spends the coinbase, over the empty view. -/
theorem connectBlock_disconnectBlock_restores_spendInBlock :
    StoredView (fun _ => CCoins.empty) ∧ sampleCoinbase.isCoinBase = true ∧
      (∀ txout ∈ sampleCoinbase.vout, moneyRange txout.nValue = true) ∧
      (∀ tx ∈ [sampleSpend], Spender tx) ∧ [sampleSpend].length ≤ MAX_SIZE ∧
      ((0 : Int) < 2 ∧ (2 : Int) < 2 ^ 31) ∧
      Connectable sampleHash 2 [sampleCoinbase, sampleSpend] (fun _ => CCoins.empty) ∧
      ∃ blockundo connected,
        connectBlock sampleHash [sampleCoinbase, sampleSpend] (fun _ => CCoins.empty) 2 =
          some (blockundo, connected) ∧
        Reads (CBlockUndo.unserialize PubKeyCodec.rejectAll)
          (blockundo.serialize PubKeyCodec.rejectAll) blockundo.readBack ∧
        ∃ disconnected,
          disconnectBlock sampleHash [sampleCoinbase, sampleSpend] blockundo.readBack connected 2 =
            some (true, disconnected) ∧
          Agrees disconnected fun _ => CCoins.empty :=
  have isCoinBase : sampleCoinbase.isCoinBase = true := by decide
  have amounts : ∀ txout ∈ sampleCoinbase.vout, moneyRange txout.nValue = true := by decide
  have spenders : ∀ tx ∈ [sampleSpend], Spender tx := by
    intro tx member
    rw [List.mem_singleton] at member
    subst member
    exact ⟨by decide, by decide, by decide⟩
  have bounded : [sampleSpend].length ≤ MAX_SIZE := by decide
  have height : (0 : Int) < 2 ∧ (2 : Int) < 2 ^ 31 := by decide
  have connectable :
      Connectable sampleHash 2 [sampleCoinbase, sampleSpend] (fun _ => CCoins.empty) :=
    ⟨by decide, _, _, rfl, by decide, _, _, rfl, trivial⟩
  ⟨storedView_empty, isCoinBase, amounts, spenders, bounded, height, connectable,
    connectBlock_disconnectBlock_restores PubKeyCodec.rejectAll sampleHash storedView_empty
      isCoinBase amounts spenders bounded height connectable⟩

/-- Coins at height zero, which the undo data cannot tell from coins with other outputs left. -/
def heightZeroCoins : CCoins where
  fCoinBase := false
  vout := [⟨5, []⟩]
  nHeight := 0
  nVersion := 1

/-- A transaction spending the only output of `heightZeroCoins`, held under the hash `0`. -/
def heightZeroSpend : CTransaction :=
  ⟨1, [⟨⟨0, 0⟩, [], 0⟩], [⟨5, []⟩], 0⟩

/--
The round trip fails for coins at height zero: spending their last output
records undo data without metadata, and `ApplyTxInUndo` then finds the coins
pruned ("undo data adding output to missing transaction").
-/
theorem connectBlock_disconnectBlock_counterexample :
    ¬ ∀ (txHash : CTransaction → UInt256) (view : CoinsMap) (coinbase : CTransaction)
        (txs : List CTransaction) (nHeight : Int),
      coinbase.isCoinBase = true → (∀ tx ∈ txs, tx.isCoinBase = false) →
        Connectable txHash nHeight (coinbase :: txs) view →
          ∃ blockundo connected,
            connectBlock txHash (coinbase :: txs) view nHeight = some (blockundo, connected) ∧
            ∃ disconnected,
              disconnectBlock txHash (coinbase :: txs) blockundo.readBack connected nHeight =
                some (true, disconnected) ∧
              Agrees disconnected view := by
  intro universal
  have connectable : Connectable sampleHash 1 [sampleCoinbase, heightZeroSpend]
      (Function.update (fun _ => CCoins.empty) 0 heightZeroCoins) :=
    ⟨by decide, _, _, rfl, by decide, _, _, rfl, trivial⟩
  obtain ⟨blockundo, connected, connectedEq, disconnected, disconnectedEq, -⟩ :=
    universal sampleHash _ sampleCoinbase [heightZeroSpend] 1 (by decide) (by decide) connectable
  have unclean : ((connectBlock sampleHash [sampleCoinbase, heightZeroSpend]
      (Function.update (fun _ => CCoins.empty) 0 heightZeroCoins) 1).bind fun result =>
        disconnectBlock sampleHash [sampleCoinbase, heightZeroSpend] result.1.readBack
          result.2 1).map Prod.fst = some false := by
    decide
  rw [connectedEq, Option.bind_some, disconnectedEq] at unclean
  simp at unclean

end Dogecoin.Validation
