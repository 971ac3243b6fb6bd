import Dogecoin.Primitives.Transaction

/-!
# `CCoins`: the unspent outputs of one transaction

`CCoins` (src/src/coins.h) keeps the metadata of a transaction together with
its outputs, where a spent output is replaced by the null `CTxOut` and spent
outputs at the end of `vout` are dropped by `Cleanup`.  A record all of whose
outputs are spent is *pruned*; the cache code treats a pruned record and an
absent one alike, and the equality `operator==` of `CCoins` identifies all
pruned records.

The memory accounting of `DynamicMemoryUsage` follows `memusage.h` on a
64-bit platform, with the capacity of every vector equal to its size.
-/

namespace Dogecoin.Coins

open Dogecoin.Primitives

/-- `memusage::MallocUsage` for a 64-bit `libc`. -/
def mallocUsage (alloc : Nat) : Nat :=
  if alloc = 0 then 0 else ((alloc + 31) >>> 4) <<< 4

@[simp]
theorem mallocUsage_zero : mallocUsage 0 = 0 := by
  simp [mallocUsage]

/--
`RecursiveDynamicUsage(const CScript&)`: a `prevector<28, unsigned char>`
allocates only when it holds more than 28 bytes.
-/
def scriptDynamicUsage (script : CScript) : Nat :=
  if script.length ≤ 28 then 0 else mallocUsage script.length

/-- `sizeof(CTxOut)`: an `int64_t` and a packed 32-byte `prevector`. -/
def sizeofCTxOut : Nat := 40

/-- `CCoins`: whether the transaction is a coinbase, its outputs, height and version. -/
structure CCoins where
  fCoinBase : Bool
  vout : List CTxOut
  nHeight : Int
  nVersion : Int
deriving DecidableEq, Repr

namespace CCoins

/-- The empty constructor `CCoins()`, which is also the result of `CCoins::Clear`. -/
def empty : CCoins where
  fCoinBase := false
  vout := []
  nHeight := 0
  nVersion := 0

/-- `CCoins::IsPruned`: every output is spent. -/
def isPruned (coins : CCoins) : Bool :=
  coins.vout.all CTxOut.isNull

/-- `CCoins::Cleanup`: pop spent outputs from the end of `vout`. -/
def cleanup (coins : CCoins) : CCoins :=
  { coins with vout := coins.vout.rdropWhile CTxOut.isNull }

/-- `CCoins::IsAvailable`: the output at `nPos` exists and is unspent. -/
def isAvailable (coins : CCoins) (nPos : Nat) : Bool :=
  match coins.vout[nPos]? with
  | some out => !out.isNull
  | none => false

/--
`CCoins::Spend`: mark the output at `nPos` spent and clean up; the flag says
whether there was an unspent output to spend.
-/
def spend (coins : CCoins) (nPos : Nat) : Bool × CCoins :=
  if coins.isAvailable nPos then
    (true, cleanup { coins with vout := coins.vout.set nPos CTxOut.null })
  else
    (false, coins)

/--
`operator==` of `CCoins`: two pruned records are always equal, other records
are compared field by field.
-/
def same (left right : CCoins) : Bool :=
  (left.isPruned && right.isPruned) ||
    (left.fCoinBase == right.fCoinBase && left.nHeight == right.nHeight &&
      left.nVersion == right.nVersion && left.vout == right.vout)

/-- `CCoins::DynamicMemoryUsage`: the `vout` buffer and every long script. -/
def dynamicMemoryUsage (coins : CCoins) : Nat :=
  mallocUsage (coins.vout.length * sizeofCTxOut) +
    (coins.vout.map fun out => scriptDynamicUsage out.scriptPubKey).sum

/-- `CCoins::ClearUnspendable`: null every output that can never be spent, then clean up. -/
def clearUnspendable (coins : CCoins) : CCoins :=
  cleanup { coins with
    vout := coins.vout.map fun txout =>
      if txout.scriptPubKey.isUnspendable then CTxOut.null else txout }

/-- `CCoins::FromTx`: the outputs of a transaction included at a height. -/
def fromTx (tx : CTransaction) (nHeightIn : Int) : CCoins :=
  clearUnspendable
    { fCoinBase := tx.isCoinBase
      vout := tx.vout
      nHeight := nHeightIn
      nVersion := tx.nVersion.toInt }

@[simp]
theorem isPruned_empty : empty.isPruned = true := by
  rfl

@[simp]
theorem dynamicMemoryUsage_empty : empty.dynamicMemoryUsage = 0 := by
  simp [dynamicMemoryUsage, empty]

theorem isPruned_iff (coins : CCoins) :
    coins.isPruned = true ↔ ∀ out ∈ coins.vout, out.isNull = true := by
  simp [isPruned]

/-- A record is pruned exactly when `Cleanup` empties its outputs. -/
theorem cleanup_vout_eq_nil_iff (coins : CCoins) :
    coins.cleanup.vout = [] ↔ coins.isPruned = true := by
  simp [cleanup, isPruned, List.rdropWhile_eq_nil_iff]

@[simp]
theorem isPruned_cleanup (coins : CCoins) :
    coins.cleanup.isPruned = coins.isPruned := by
  by_cases pruned : coins.isPruned = true
  · have emptied : coins.cleanup.vout = [] :=
      (cleanup_vout_eq_nil_iff coins).2 pruned
    rw [pruned]
    simp [isPruned, emptied]
  · have kept : coins.cleanup.vout ≠ [] := by
      rwa [Ne, cleanup_vout_eq_nil_iff]
    have lastUnspent : ¬(coins.cleanup.vout.getLast kept).isNull = true :=
      List.rdropWhile_last_not CTxOut.isNull coins.vout kept
    have unspent : coins.cleanup.isPruned = false := by
      rw [Bool.eq_false_iff]
      intro allSpent
      exact lastUnspent
        ((isPruned_iff _).1 allSpent _ (List.getLast_mem kept))
    rw [unspent, Bool.eq_false_iff.2 pruned]

@[simp]
theorem cleanup_cleanup (coins : CCoins) :
    coins.cleanup.cleanup = coins.cleanup := by
  simp [cleanup, List.rdropWhile_idempotent]

/-- A cleaned-up pruned record holds no memory. -/
theorem dynamicMemoryUsage_cleanup_of_isPruned {coins : CCoins}
    (pruned : coins.isPruned = true) :
    coins.cleanup.dynamicMemoryUsage = 0 := by
  have emptied := (cleanup_vout_eq_nil_iff coins).2 pruned
  simp [dynamicMemoryUsage, emptied]

/-- The source equality is identification of pruned records. -/
theorem same_iff (left right : CCoins) :
    left.same right = true ↔
      (left.isPruned = true ∧ right.isPruned = true) ∨ left = right := by
  cases left
  cases right
  simp only [same, Bool.or_eq_true, Bool.and_eq_true, beq_iff_eq, mk.injEq]
  constructor
  · rintro (pruned | ⟨⟨⟨coinBase, height⟩, version⟩, outs⟩)
    · exact Or.inl pruned
    · exact Or.inr ⟨coinBase, outs, height, version⟩
  · rintro (pruned | ⟨coinBase, outs, height, version⟩)
    · exact Or.inl pruned
    · exact Or.inr ⟨⟨⟨coinBase, height⟩, version⟩, outs⟩

theorem same_refl (coins : CCoins) : coins.same coins = true :=
  (same_iff coins coins).2 (Or.inr rfl)

end CCoins

end Dogecoin.Coins
