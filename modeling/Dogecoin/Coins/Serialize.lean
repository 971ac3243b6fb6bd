import Mathlib.Data.Nat.Bitwise
import Dogecoin.Coins.Coins
import Dogecoin.Coins.Compressor
import Dogecoin.Validation.CheckTransaction

/-!
# The stored form of `CCoins`

A model of `CCoins::Serialize`, `CCoins::Unserialize` and `CalcMaskSize`
(src/src/coins.h, src/src/coins.cpp).  A record is stored as its version, a
header code, a bitmask of the unspent outputs after the first two, the
unspent outputs compressed, and its height.  The header code holds the
coinbase flag, whether each of the first two outputs is unspent, and the number
of non-zero bytes of the bitmask, less one when neither of the first two
outputs is unspent; the bitmask ends with its last non-zero byte.  The reader
knows the number of non-zero bytes but not the length of the bitmask: it reads
bytes until it has seen that many non-zero ones, which is exactly the bitmask
because the bitmask ends with a non-zero byte.

Every record that `CCoins::FromTx` makes from a transaction that passes
`CheckTransaction`, and every record that `Spend` makes from one, is `Stored`:
its spent outputs are the null output, its other outputs have amounts in
`MoneyRange` and spendable scripts, and its last output is unspent.  Such a
record, when not pruned, is read back from its bytes whatever follows them,
with its version unchanged when the version is not negative.
-/

namespace Dogecoin.Coins

open Dogecoin.Primitives Dogecoin.Serialize Dogecoin.Validation StreamDecode

namespace CCoins

/-! ## The format -/

/-- The byte whose bit `i` is `bit i`, for `i < 8`: the loop `chAvail |= (1 << i)`. -/
def packByte (bit : Nat → Bool) : Nat :=
  (List.range 8).foldl (fun chAvail i => if bit i then chAvail ||| 1 <<< i else chAvail) 0

/-- The eight bits of a bitmask byte, lowest first: `(chAvail & (1 << p)) != 0`. -/
def unpackByte (chAvail : Nat) : List Bool :=
  (List.range 8).map fun p => (chAvail &&& 1 <<< p) != 0

/-- `chAvail` of bitmask byte `b` in `Serialize`: bit `i` for the output `2+b*8+i`. -/
def maskByte (coins : CCoins) (b : Nat) : Nat :=
  packByte fun i => coins.isAvailable (2 + b * 8 + i)

/-- `fZero` of bitmask byte `b` in `CalcMaskSize`: none of its outputs is unspent. -/
def maskByteZero (coins : CCoins) (b : Nat) : Bool :=
  (List.range 8).all fun i => !coins.isAvailable (2 + b * 8 + i)

/-- The number of bytes the loop of `CalcMaskSize` visits: the `b` with `2+b*8 < vout.size()`. -/
def maskBytes (coins : CCoins) : Nat :=
  (coins.vout.length - 2 + 7) / 8

/-- One iteration of the loop of `CalcMaskSize` on `(nLastUsedByte, nNonzeroBytes)`. -/
def maskSizeStep (coins : CCoins) (sizes : Nat × Nat) (b : Nat) : Nat × Nat :=
  if !coins.maskByteZero b then (b + 1, sizes.2 + 1) else sizes

/-- `CCoins::CalcMaskSize`: the length of the bitmask and its number of non-zero bytes. -/
def calcMaskSize (coins : CCoins) : Nat × Nat :=
  (List.range coins.maskBytes).foldl coins.maskSizeStep (0, 0)

/-- The header code `nCode` of `Serialize`. -/
def headerCode (coins : CCoins) (nMaskCode : Nat) : Nat :=
  8 * (nMaskCode - if coins.isAvailable 0 || coins.isAvailable 1 then 0 else 1) +
    (if coins.fCoinBase then 1 else 0) + (if coins.isAvailable 0 then 2 else 0) +
    (if coins.isAvailable 1 then 4 else 0)

/--
`CCoins::Serialize`; `none` where its `assert(fFirst || fSecond || nMaskCode)`
fails, which is on a pruned record.
-/
def serialize (keys : PubKeyCodec) (coins : CCoins) : Option (List UInt8) :=
  if coins.isAvailable 0 || coins.isAvailable 1 || coins.calcMaskSize.2 != 0 then
    some (writeVarInt coins.nVersion ++ writeVarInt (coins.headerCode coins.calcMaskSize.2) ++
      (List.range coins.calcMaskSize.1).map (fun b => UInt8.ofNat (coins.maskByte b)) ++
      coins.vout.flatMap (fun txout =>
        if !txout.isNull then CTxOutCompressor.serialize keys txout else []) ++
      writeVarInt coins.nHeight)
  else none

/-- The loop of `Unserialize` over the bitmask: bytes until `nMaskCode` non-zero ones. -/
def readMask (nMaskCode : Nat) (vAvail : List Bool) : Decoder UInt8 (List Bool) := fun input =>
  match nMaskCode, input with
  | 0, input => some (vAvail, input)
  | _ + 1, [] => none
  | nMaskCode + 1, chAvail :: rest =>
      readMask (if chAvail != 0 then nMaskCode else nMaskCode + 1)
        (vAvail ++ unpackByte chAvail.toNat) rest

/-- `CCoins::Unserialize`, which ends with `Cleanup`. -/
def unserialize (keys : PubKeyCodec) : Decoder UInt8 CCoins := do
  let nVersion ← readVarInt
  let nCode ← readVarInt
  let vAvail ← readMask (nCode / 8 + if (nCode &&& 6) != 0 then 0 else 1)
    [(nCode &&& 2) != 0, (nCode &&& 4) != 0]
  let vout ← vAvail.mapM fun avail =>
    if avail then CTxOutCompressor.unserialize keys else pure CTxOut.null
  let nHeight ← readVarInt
  pure (cleanup
    { fCoinBase := (nCode &&& 1) != 0, vout := vout, nHeight := nHeight, nVersion := nVersion })

/-! ## Stored records -/

/-- An output as a stored record keeps it: the null output, or an unspent output. -/
def StoredOutput (txout : CTxOut) : Prop :=
  txout = CTxOut.null ∨
    (moneyRange txout.nValue = true ∧ txout.scriptPubKey.isUnspendable = false)

/-- A record as `FromTx` and `Spend` leave it. -/
structure Stored (coins : CCoins) : Prop where
  outputs : ∀ txout ∈ coins.vout, StoredOutput txout
  cleaned : coins.cleanup = coins

theorem Stored.of_cleanup {coins : CCoins} (outputs : ∀ txout ∈ coins.vout, StoredOutput txout) :
    coins.cleanup.Stored where
  outputs := fun txout member =>
    outputs txout ((List.rdropWhile_prefix CTxOut.isNull coins.vout).subset member)
  cleaned := cleanup_cleanup coins

/-- `FromTx` of a transaction whose amounts are in `MoneyRange` makes a stored record. -/
theorem Stored.fromTx_of_moneyRange {tx : CTransaction}
    (amounts : ∀ txout ∈ tx.vout, moneyRange txout.nValue = true) (nHeightIn : Int) :
    (fromTx tx nHeightIn).Stored := by
  apply Stored.of_cleanup
  intro txout member
  obtain ⟨original, inTx, rfl⟩ := List.mem_map.1 member
  by_cases unspendable : original.scriptPubKey.isUnspendable = true
  · left
    simp [unspendable]
  · right
    simp only [unspendable, Bool.false_eq_true, if_false]
    exact ⟨amounts original inTx, trivial⟩

/-- `FromTx` of a transaction that passes `CheckTransaction` makes a stored record. -/
theorem Stored.fromTx {tx : CTransaction} {fCheckDuplicateInputs : Bool}
    (checked : checkTransaction tx fCheckDuplicateInputs = .ok ()) (nHeightIn : Int) :
    (fromTx tx nHeightIn).Stored :=
  Stored.fromTx_of_moneyRange (checkTransaction_moneyRange checked) nHeightIn

/-- A spent output of a stored record is the null output itself. -/
theorem StoredOutput.eq_null_of_isNull {txout : CTxOut} (stored : StoredOutput txout)
    (spent : txout.isNull = true) : txout = CTxOut.null := by
  rcases stored with isNull | ⟨inRange, -⟩
  · exact isNull
  · simp only [CTxOut.isNull, beq_iff_eq] at spent
    simp [moneyRange, spent] at inRange

/-- A stored record has no spent output at the end. -/
theorem Stored.trimmed {coins : CCoins} (stored : coins.Stored) :
    coins.vout.rdropWhile CTxOut.isNull = coins.vout :=
  congrArg CCoins.vout stored.cleaned

/-- Being stored depends on the outputs alone. -/
theorem Stored.of_vout_eq {coins coins' : CCoins} (stored : coins.Stored)
    (same : coins'.vout = coins.vout) : coins'.Stored where
  outputs := fun txout member => stored.outputs txout (same ▸ member)
  cleaned := by
    have trimmed := stored.trimmed
    rw [← same] at trimmed
    simp only [cleanup, trimmed]

/-- `ClearUnspendable` leaves a stored record as it is. -/
theorem Stored.clearUnspendable_eq {coins : CCoins} (stored : coins.Stored) :
    coins.clearUnspendable = coins := by
  have kept : coins.vout.map (fun txout =>
      if txout.scriptPubKey.isUnspendable then CTxOut.null else txout) = coins.vout := by
    rw [List.map_congr_left, List.map_id]
    intro txout member
    rcases stored.outputs txout member with isNull | ⟨-, spendable⟩
    · subst isNull
      rfl
    · rw [spendable, if_neg Bool.false_ne_true]
      rfl
  rw [clearUnspendable, kept]
  exact stored.cleaned

/-- `Spend` keeps a record stored. -/
theorem Stored.spend {coins : CCoins} (stored : coins.Stored) (nPos : Nat) :
    (coins.spend nPos).2.Stored := by
  unfold CCoins.spend
  split
  · apply Stored.of_cleanup
    intro txout member
    rcases List.mem_or_eq_of_mem_set member with old | spent
    · exact stored.outputs txout old
    · exact Or.inl spent
  · exact stored

/-- `Spend` changes only the outputs. -/
theorem spend_metadata (coins : CCoins) (nPos : Nat) :
    (coins.spend nPos).2.fCoinBase = coins.fCoinBase ∧
      (coins.spend nPos).2.nHeight = coins.nHeight ∧
      (coins.spend nPos).2.nVersion = coins.nVersion := by
  unfold spend
  split
  · exact ⟨rfl, rfl, rfl⟩
  · exact ⟨rfl, rfl, rfl⟩

/-- A sequence of `Spend` calls keeps a record stored and changes only its outputs. -/
theorem Stored.spends {coins : CCoins} (stored : coins.Stored) (spends : List Nat) :
    (spends.foldl (fun coins nPos => (coins.spend nPos).2) coins).Stored ∧
      (spends.foldl (fun coins nPos => (coins.spend nPos).2) coins).fCoinBase =
        coins.fCoinBase ∧
      (spends.foldl (fun coins nPos => (coins.spend nPos).2) coins).nHeight = coins.nHeight ∧
      (spends.foldl (fun coins nPos => (coins.spend nPos).2) coins).nVersion =
        coins.nVersion := by
  have step : ∀ (state : CCoins) (nPos : Nat), nPos ∈ spends →
      state.Stored ∧ state.fCoinBase = coins.fCoinBase ∧ state.nHeight = coins.nHeight ∧
        state.nVersion = coins.nVersion →
      (state.spend nPos).2.Stored ∧ (state.spend nPos).2.fCoinBase = coins.fCoinBase ∧
        (state.spend nPos).2.nHeight = coins.nHeight ∧
        (state.spend nPos).2.nVersion = coins.nVersion := by
    rintro state nPos - ⟨kept, coinBase, height, version⟩
    obtain ⟨coinBase', height', version'⟩ := spend_metadata state nPos
    exact ⟨kept.spend nPos, coinBase'.trans coinBase, height'.trans height,
      version'.trans version⟩
  exact KeyedFold.foldl_invariant
    (fun spent : CCoins => spent.Stored ∧ spent.fCoinBase = coins.fCoinBase ∧
      spent.nHeight = coins.nHeight ∧ spent.nVersion = coins.nVersion)
    step ⟨stored, rfl, rfl, rfl⟩

/-- An unspent output of a stored record is read back from its compressed form. -/
theorem reads_storedOutput (keys : PubKeyCodec) {txout : CTxOut} (stored : StoredOutput txout)
    (unspent : txout.isNull = false) :
    Reads (CTxOutCompressor.unserialize keys) (CTxOutCompressor.serialize keys txout) txout := by
  rcases stored with isNull | ⟨inRange, spendable⟩
  · rw [isNull, CTxOut.isNull_null] at unspent
    cases unspent
  · simp only [moneyRange, Bool.and_eq_true, decide_eq_true_eq] at inRange
    obtain ⟨nonneg, bounded⟩ := inRange
    simp only [CScript.isUnspendable, Bool.or_eq_false_iff, decide_eq_false_iff_not,
      not_lt] at spendable
    exact reads_txOutCompressor keys nonneg (lt_of_le_of_lt bounded (by decide)) spendable.2

/-! ## Bitmask bytes -/

/-- Bit `p` after the first `n` passes of the loop of `packByte`: the bit of output `p`, for `p < n`. -/
theorem testBit_packLoop (bit : Nat → Bool) (p : Nat) : ∀ n,
    ((List.range n).foldl (fun chAvail i => if bit i then chAvail ||| 1 <<< i else chAvail) 0).testBit p =
      (decide (p < n) && bit p)
  | 0 => by simp
  | n + 1 => by
    rw [List.range_succ, List.foldl_append, List.foldl_cons, List.foldl_nil]
    by_cases same : p = n
    · subst same
      have prior := testBit_packLoop bit p p
      rw [decide_eq_false (Nat.lt_irrefl p), Bool.false_and] at prior
      rw [decide_eq_true (Nat.lt_succ_self p), Bool.true_and]
      split
      · rename_i set
        rw [Nat.testBit_or, prior, Nat.one_shiftLeft, Nat.testBit_two_pow, decide_eq_true rfl, set]
        rfl
      · rename_i clear
        rw [prior]
        simpa using clear
    · have below : decide (p < n + 1) = decide (p < n) := by
        rw [Bool.eq_iff_iff, decide_eq_true_iff, decide_eq_true_iff]
        omega
      rw [below]
      split
      · rw [Nat.testBit_or, testBit_packLoop bit p n, Nat.one_shiftLeft, Nat.testBit_two_pow,
          decide_eq_false (Ne.symm same), Bool.or_false]
      · exact testBit_packLoop bit p n

theorem packByte_spec (bit : Nat → Bool) :
    packByte bit < 256 ∧ unpackByte (packByte bit) = (List.range 8).map bit ∧
      (packByte bit = 0 ↔ (List.range 8).all fun i => !bit i) := by
  have bits : ∀ p, (packByte bit).testBit p = (decide (p < 8) && bit p) := fun p => testBit_packLoop bit p 8
  refine ⟨?_, ?_, ?_⟩
  · exact Nat.lt_pow_two_of_testBit (packByte bit) (n := 8) fun i high => by
      rw [bits, decide_eq_false (by omega), Bool.false_and]
  · apply List.map_congr_left
    intro p member
    rw [List.mem_range] at member
    rw [Nat.one_shiftLeft, Nat.and_two_pow, bits, decide_eq_true member, Bool.true_and]
    cases bit p <;> simp
  · rw [List.all_eq_true]
    constructor
    · intro zero p member
      have clear := bits p
      rw [zero, Nat.zero_testBit, decide_eq_true (List.mem_range.mp member), Bool.true_and] at clear
      rw [← clear]
      rfl
    · intro none
      apply Nat.eq_of_testBit_eq
      intro p
      rw [bits, Nat.zero_testBit]
      by_cases inside : p < 8
      · have clear := none p (List.mem_range.mpr inside)
        rw [Bool.not_eq_true'] at clear
        rw [decide_eq_true inside, Bool.true_and, clear]
      · rw [decide_eq_false inside, Bool.false_and]

theorem maskByte_eq_zero_iff (coins : CCoins) (b : Nat) :
    coins.maskByte b = 0 ↔ coins.maskByteZero b = true :=
  (packByte_spec _).2.2

/-- A byte of the bitmask, as written, is non-zero exactly when one of its outputs is unspent. -/
theorem maskByte_byte_ne_zero_iff (coins : CCoins) (b : Nat) :
    (UInt8.ofNat (coins.maskByte b) != 0) = !coins.maskByteZero b := by
  have small := (packByte_spec fun i => coins.isAvailable (2 + b * 8 + i)).1
  have zero := maskByte_eq_zero_iff coins b
  have written : (UInt8.ofNat (coins.maskByte b)).toNat = coins.maskByte b :=
    UInt8.toNat_ofNat_of_lt' small
  cases vacant : coins.maskByteZero b with
  | true =>
      have cleared : UInt8.ofNat (coins.maskByte b) = 0 := by
        rw [zero.2 vacant]
        rfl
      simp [cleared]
  | false =>
      have kept : UInt8.ofNat (coins.maskByte b) ≠ 0 := by
        intro cleared
        have isZero : coins.maskByte b = 0 := by
          rw [← written, cleared]
          rfl
        rw [zero.1 isZero] at vacant
        cases vacant
      simp [kept]

theorem unpackByte_maskByte (coins : CCoins) (b : Nat) :
    unpackByte (UInt8.ofNat (coins.maskByte b)).toNat =
      (List.range 8).map fun i => coins.isAvailable (2 + b * 8 + i) := by
  obtain ⟨small, unpacked, -⟩ := packByte_spec fun i => coins.isAvailable (2 + b * 8 + i)
  rw [maskByte, UInt8.toNat_ofNat_of_lt' small]
  exact unpacked

/-! ## The loop of `CalcMaskSize` -/

/--
The loop invariant of `CalcMaskSize` after the first `n` bytes: `nLastUsedByte`
is one past the last non-zero byte, and `nNonzeroBytes` counts the non-zero
bytes before it.
-/
theorem calcMaskSize_loop (coins : CCoins) (n : Nat) :
    ((List.range n).foldl coins.maskSizeStep (0, 0)).1 ≤ n ∧
      (∀ b, ((List.range n).foldl coins.maskSizeStep (0, 0)).1 ≤ b → b < n →
        coins.maskByteZero b = true) ∧
      (((List.range n).foldl coins.maskSizeStep (0, 0)).1 = 0 ∨
        coins.maskByteZero (((List.range n).foldl coins.maskSizeStep (0, 0)).1 - 1) = false) ∧
      ((List.range n).foldl coins.maskSizeStep (0, 0)).2 =
        ((List.range ((List.range n).foldl coins.maskSizeStep (0, 0)).1).filter
          fun b => !coins.maskByteZero b).length := by
  induction n with
  | zero => exact ⟨le_refl 0, fun _ _ below => absurd below (Nat.not_lt_zero _), Or.inl rfl, rfl⟩
  | succ n ih =>
      obtain ⟨bounded, vacant, lastUsed, counted⟩ := ih
      rw [@List.range_succ n, List.foldl_append, List.foldl_cons, List.foldl_nil]
      generalize (List.range n).foldl coins.maskSizeStep (0, 0) = sizes at bounded vacant lastUsed counted
      cases zero : coins.maskByteZero n with
      | false =>
          have between : (List.range n).filter (fun b => !coins.maskByteZero b) =
              (List.range sizes.1).filter fun b => !coins.maskByteZero b := by
            rw [← Nat.add_sub_cancel' bounded, List.range_add, List.filter_append]
            have empty : (List.map (sizes.1 + ·) (List.range (n - sizes.1))).filter
                (fun b => !coins.maskByteZero b) = [] := by
              rw [List.filter_eq_nil_iff]
              intro b member
              obtain ⟨offset, inRange, rfl⟩ := List.mem_map.1 member
              rw [List.mem_range] at inRange
              simp [vacant (sizes.1 + offset) (by omega) (by omega)]
            rw [empty, List.append_nil]
          simp only [maskSizeStep, zero, Bool.not_false, if_true]
          refine ⟨le_refl _, fun b above below => absurd below (by omega), Or.inr zero, ?_⟩
          rw [@List.range_succ n, List.filter_append, List.length_append, between, ← counted]
          simp [zero]
      | true =>
          simp only [maskSizeStep, zero, Bool.not_true, Bool.false_eq_true, if_false]
          refine ⟨by omega, ?_, lastUsed, counted⟩
          intro b above below
          by_cases last : b = n
          · rw [last, zero]
          · exact vacant b above (by omega)

/-- Every unspent output lies within the first two outputs or the bitmask. -/
theorem lt_of_isAvailable {coins : CCoins} {j : Nat} (available : coins.isAvailable j = true) :
    j < 2 + coins.calcMaskSize.1 * 8 := by
  by_cases early : j < 2
  · omega
  have inRange : j < coins.vout.length := by
    unfold isAvailable at available
    cases found : coins.vout[j]? with
    | none => simp [found] at available
    | some txout => exact (List.getElem?_eq_some_iff.1 found).1
  obtain ⟨-, vacant, -, -⟩ := calcMaskSize_loop coins coins.maskBytes
  have used : coins.maskByteZero ((j - 2) / 8) = false := by
    rw [maskByteZero, List.all_eq_false]
    refine ⟨(j - 2) % 8, List.mem_range.2 (Nat.mod_lt _ (by decide)), ?_⟩
    rw [show 2 + (j - 2) / 8 * 8 + (j - 2) % 8 = j by omega, available]
    decide
  by_contra outside
  have vacantGroup := vacant ((j - 2) / 8) (by unfold calcMaskSize at outside; omega)
    (by unfold maskBytes; omega)
  rw [used] at vacantGroup
  cases vacantGroup

/-! ## Reading the bitmask -/

/-- `readMask` reads a bitmask that ends with a non-zero byte, given its count of them. -/
theorem reads_readMask :
    ∀ (bytes : List UInt8) (vAvail : List Bool),
      (∀ last, bytes.getLast? = some last → last ≠ 0) →
        Reads (readMask (bytes.filter (· != 0)).length vAvail) bytes
          (vAvail ++ bytes.flatMap fun chAvail => unpackByte chAvail.toNat)
  | [], vAvail, _ => by
      intro rest
      simp [readMask, StateT.run]
  | chAvail :: bytes, vAvail, endsNonzero => by
      have later : ∀ last, bytes.getLast? = some last → last ≠ 0 := by
        intro last found
        apply endsNonzero last
        cases bytes with
        | nil => cases found
        | cons next others => simpa [List.getLast?_cons_cons] using found
      have step := reads_readMask bytes (vAvail ++ unpackByte chAvail.toNat) later
      intro rest
      by_cases zero : chAvail = 0
      · subst zero
        have pending : (bytes.filter (· != 0)).length ≠ 0 := by
          cases bytes with
          | nil => exact absurd (endsNonzero 0 rfl) (by decide)
          | cons next others =>
              obtain ⟨last, found⟩ : ∃ last, (next :: others).getLast? = some last :=
                ⟨_, List.getLast?_eq_some_getLast (List.cons_ne_nil next others)⟩
              have kept := later last found
              rw [Ne, List.length_eq_zero_iff, List.filter_eq_nil_iff]
              intro allZero
              apply kept
              simpa using allZero last (List.mem_of_getLast? found)
        obtain ⟨count, counted⟩ : ∃ count, (bytes.filter (· != 0)).length = count + 1 :=
          ⟨_, (Nat.succ_pred_eq_of_ne_zero pending).symm⟩
        have filtered : (((0 : UInt8) :: bytes).filter (· != 0)).length = count + 1 := by
          simp [counted]
        rw [filtered, List.flatMap_cons, ← List.append_assoc, List.cons_append]
        simp only [StateT.run, readMask, bne_self_eq_false, Bool.false_eq_true, if_false]
        rw [← counted]
        exact step rest
      · have filtered : ((chAvail :: bytes).filter (· != 0)).length =
            (bytes.filter (· != 0)).length + 1 := by
          simp [zero]
        rw [filtered, List.flatMap_cons, ← List.append_assoc, List.cons_append]
        simp only [StateT.run, readMask, bne_iff_ne, ne_eq, zero, not_false_eq_true, if_true]
        exact step rest

/-! ## Index lists -/

theorem range_blocks (f : Nat → Bool) :
    ∀ n, (List.range n).flatMap (fun b => (List.range 8).map fun i => f (b * 8 + i)) =
      (List.range (n * 8)).map f
  | 0 => rfl
  | n + 1 => by
      rw [@List.range_succ n, List.flatMap_append, range_blocks f n, List.flatMap_singleton,
        Nat.succ_mul, List.range_add, List.map_append, List.map_map]
      rfl

theorem map_isAvailable (coins : CCoins) {count : Nat} (covers : coins.vout.length ≤ count) :
    (List.range count).map coins.isAvailable =
      (coins.vout ++ List.replicate (count - coins.vout.length) CTxOut.null).map
        fun txout => !txout.isNull := by
  apply List.ext_getElem (by simp; omega)
  intro i inRange _
  simp only [List.getElem_map, List.getElem_range, isAvailable]
  by_cases early : i < coins.vout.length
  · rw [List.getElem_append_left early, List.getElem?_eq_getElem early]
  · rw [List.getElem_append_right (by omega), List.getElem_replicate,
      List.getElem?_eq_none (by omega)]
    simp

theorem rdropWhile_append_replicate {α : Type} (p : α → Bool) (l : List α) {x : α}
    (dropped : p x = true) :
    ∀ count, (l ++ List.replicate count x).rdropWhile p = l.rdropWhile p
  | 0 => by rw [List.replicate_zero, List.append_nil]
  | count + 1 => by
      rw [List.replicate_succ', ← List.append_assoc, List.rdropWhile_concat_pos _ _ _ dropped,
        rdropWhile_append_replicate p l dropped count]

/-! ## The header code -/

theorem mul_eight_add_and (q c k : Nat) (mask : k < 8) :
    (8 * q + c) &&& k = c &&& k := by
  have within : k = 7 &&& k := by
    interval_cases k <;> rfl
  have low : ∀ x, x &&& 7 = x % 8 := fun x => Nat.and_two_pow_sub_one_eq_mod x 3
  rw [within, ← Nat.and_assoc, ← Nat.and_assoc, low, low]
  congr 1
  omega

/-- What `Unserialize` reads from the header code. -/
theorem headerCode_spec (coins : CCoins) {nMaskCode : Nat}
    (asserted : coins.isAvailable 0 || coins.isAvailable 1 || nMaskCode != 0) :
    ((coins.headerCode nMaskCode &&& 1) != 0) = coins.fCoinBase ∧
      ((coins.headerCode nMaskCode &&& 2) != 0) = coins.isAvailable 0 ∧
      ((coins.headerCode nMaskCode &&& 4) != 0) = coins.isAvailable 1 ∧
      coins.headerCode nMaskCode / 8 +
          (if (coins.headerCode nMaskCode &&& 6) != 0 then 0 else 1) = nMaskCode := by
  unfold headerCode
  generalize coins.fCoinBase = coinBase
  generalize coins.isAvailable 0 = first at asserted ⊢
  generalize coins.isAvailable 1 = second at asserted ⊢
  have flags : ∀ coinBase first second : Bool,
      ((((if coinBase then 1 else 0) + (if first then 2 else 0) +
        (if second then 4 else 0)) &&& 1) != 0) = coinBase ∧
      ((((if coinBase then 1 else 0) + (if first then 2 else 0) +
        (if second then 4 else 0)) &&& 2) != 0) = first ∧
      ((((if coinBase then 1 else 0) + (if first then 2 else 0) +
        (if second then 4 else 0)) &&& 4) != 0) = second ∧
      ((((if coinBase then 1 else 0) + (if first then 2 else 0) +
        (if second then 4 else 0)) &&& 6) != 0) = (first || second) := by
    decide
  obtain ⟨coinBaseBit, firstBit, secondBit, eitherBit⟩ := flags coinBase first second
  simp only [Nat.add_assoc] at coinBaseBit firstBit secondBit eitherBit ⊢
  rw [mul_eight_add_and _ _ _ (by decide), mul_eight_add_and _ _ _ (by decide),
    mul_eight_add_and _ _ _ (by decide), mul_eight_add_and _ _ _ (by decide),
    coinBaseBit, firstBit, secondBit, eitherBit]
  refine ⟨rfl, rfl, rfl, ?_⟩
  cases coinBase <;> cases first <;> cases second <;> simp at asserted ⊢ <;> omega

/-! ## The round trip -/

/-- A stored record that is not pruned has its last output unspent. -/
theorem Stored.last_available {coins : CCoins} (stored : coins.Stored)
    (unspent : coins.isPruned = false) :
    coins.vout ≠ [] ∧ coins.isAvailable (coins.vout.length - 1) = true := by
  have nonempty : coins.vout ≠ [] := by
    intro empty
    simp [isPruned, empty] at unspent
  refine ⟨nonempty, ?_⟩
  have lastKept := List.rdropWhile_eq_self_iff.1
    (congrArg CCoins.vout stored.cleaned) nonempty
  unfold isAvailable
  rw [List.getElem?_eq_getElem (by simpa [List.length_pos_iff] using nonempty)]
  simpa [List.getLast_eq_getElem] using lastKept

/-- A record with an unspent output passes the `assert` of `Serialize`. -/
theorem asserted_of_unspent {coins : CCoins} (unspent : coins.isPruned = false) :
    (coins.isAvailable 0 || coins.isAvailable 1 || coins.calcMaskSize.2 != 0) = true := by
  obtain ⟨j, available⟩ : ∃ j, coins.isAvailable j = true := by
    rw [isPruned, List.all_eq_false] at unspent
    obtain ⟨txout, member, unspentHere⟩ := unspent
    obtain ⟨j, inRange, found⟩ := List.getElem_of_mem member
    refine ⟨j, ?_⟩
    rw [isAvailable, List.getElem?_eq_getElem inRange, found]
    simpa using unspentHere
  by_cases early : j < 2
  · interval_cases j <;> simp [available]
  have covered := lt_of_isAvailable available
  obtain ⟨-, -, -, counted⟩ := calcMaskSize_loop coins coins.maskBytes
  have used : coins.maskByteZero ((j - 2) / 8) = false := by
    rw [maskByteZero, List.all_eq_false]
    refine ⟨(j - 2) % 8, List.mem_range.2 (Nat.mod_lt _ (by decide)), ?_⟩
    rw [show 2 + (j - 2) / 8 * 8 + (j - 2) % 8 = j by omega, available]
    decide
  have member : (j - 2) / 8 ∈ (List.range coins.calcMaskSize.1).filter
      fun b => !coins.maskByteZero b := by
    rw [List.mem_filter, List.mem_range]
    exact ⟨by omega, by simp [used]⟩
  have positive : coins.calcMaskSize.2 ≠ 0 := by
    unfold calcMaskSize at member ⊢
    rw [counted]
    exact List.length_pos_of_mem member |>.ne'
  simp [positive]

/-- The bitmask as written ends with a non-zero byte and has `nMaskCode` of them. -/
theorem mask_bytes_spec (coins : CCoins) :
    (∀ last, ((List.range coins.calcMaskSize.1).map
        fun b => UInt8.ofNat (coins.maskByte b)).getLast? = some last → last ≠ 0) ∧
      (((List.range coins.calcMaskSize.1).map
        fun b => UInt8.ofNat (coins.maskByte b)).filter (· != 0)).length =
          coins.calcMaskSize.2 := by
  obtain ⟨-, -, lastUsed, counted⟩ := calcMaskSize_loop coins coins.maskBytes
  unfold calcMaskSize
  generalize (List.range coins.maskBytes).foldl coins.maskSizeStep (0, 0) = sizes at lastUsed counted ⊢
  constructor
  · intro last found
    rw [List.getLast?_eq_getElem?, List.length_map, List.length_range] at found
    by_cases empty : sizes.1 = 0
    · rw [empty] at found
      cases found
    · rw [List.getElem?_map, List.getElem?_range (by omega)] at found
      cases found
      have written := maskByte_byte_ne_zero_iff coins (sizes.1 - 1)
      rw [lastUsed.resolve_left empty] at written
      simpa using written
  · rw [counted, List.filter_map, List.length_map]
    congr 2
    funext b
    exact maskByte_byte_ne_zero_iff coins b

/--
The round trip of the stored form: a stored record that is not pruned is
written, and read back from its bytes whatever follows them, with the version
`ReadVarInt` makes of its bytes.
-/
theorem reads_serialize (keys : PubKeyCodec) {coins : CCoins} (stored : coins.Stored)
    (unspent : coins.isPruned = false) (height : 0 ≤ coins.nHeight) :
    ∃ bytes, coins.serialize keys = some bytes ∧
      Reads (unserialize keys) bytes { coins with nVersion := readBack coins.nVersion } := by
  have asserted := asserted_of_unspent unspent
  refine ⟨_, by rw [serialize, if_pos asserted], ?_⟩
  obtain ⟨coinBaseBit, firstBit, secondBit, maskCode⟩ :=
    headerCode_spec coins asserted
  obtain ⟨endsNonzero, counted⟩ := mask_bytes_spec coins
  obtain ⟨-, lastAvailable⟩ := stored.last_available unspent
  have covers : coins.vout.length ≤ 2 + coins.calcMaskSize.1 * 8 := by
    have := lt_of_isAvailable lastAvailable
    omega
  set padding := 2 + coins.calcMaskSize.1 * 8 - coins.vout.length
  have vAvail : [(coins.headerCode coins.calcMaskSize.2 &&& 2) != 0,
        (coins.headerCode coins.calcMaskSize.2 &&& 4) != 0] ++
      ((List.range coins.calcMaskSize.1).map fun b => UInt8.ofNat (coins.maskByte b)).flatMap
        (fun chAvail => unpackByte chAvail.toNat) =
      (coins.vout ++ List.replicate padding CTxOut.null).map fun txout => !txout.isNull := by
    rw [firstBit, secondBit, List.flatMap_map]
    simp only [unpackByte_maskByte]
    rw [← map_isAvailable coins covers, List.range_add, List.map_append]
    congr 1
    have blocks := range_blocks (fun j => coins.isAvailable (2 + j)) coins.calcMaskSize.1
    simp only [Nat.add_assoc] at blocks ⊢
    rw [blocks, List.map_map]
    rfl
  have outputs : ∀ txout ∈ coins.vout ++ List.replicate padding CTxOut.null,
      Reads (if !txout.isNull then CTxOutCompressor.unserialize keys else pure CTxOut.null)
        (if !txout.isNull then CTxOutCompressor.serialize keys txout else [])
        (if !txout.isNull then txout else CTxOut.null) := by
    intro txout member
    cases spent : txout.isNull with
    | true => exact reads_pure CTxOut.null
    | false =>
        have stored' : StoredOutput txout := by
          rcases List.mem_append.1 member with inVout | inPadding
          · exact stored.outputs txout inVout
          · exact Or.inl (List.eq_of_mem_replicate inPadding)
        exact reads_storedOutput keys stored' spent
  have restored : (coins.vout ++ List.replicate padding CTxOut.null).map
      (fun txout => if !txout.isNull then txout else CTxOut.null) =
      coins.vout ++ List.replicate padding CTxOut.null := by
    rw [List.map_congr_left]
    · exact List.map_id _
    intro txout member
    cases spent : txout.isNull with
    | false => rfl
    | true =>
        rcases List.mem_append.1 member with inVout | inPadding
        · rcases stored.outputs txout inVout with isNull | ⟨inRange, -⟩
          · exact isNull.symm
          · simp [CTxOut.isNull, moneyRange, MAX_MONEY] at spent inRange
            omega
        · exact (List.eq_of_mem_replicate inPadding).symm
  have written : (coins.vout ++ List.replicate padding CTxOut.null).flatMap
      (fun txout => if !txout.isNull then CTxOutCompressor.serialize keys txout else []) =
      coins.vout.flatMap fun txout =>
        if !txout.isNull then CTxOutCompressor.serialize keys txout else [] := by
    rw [List.flatMap_append]
    simp
  have cleaned : cleanup
      { fCoinBase := coins.fCoinBase
        vout := coins.vout ++ List.replicate padding CTxOut.null
        nHeight := ((coins.nHeight.toNat : Nat) : Int)
        nVersion := ((readBack coins.nVersion : Nat) : Int) } =
      { coins with nVersion := readBack coins.nVersion } := by
    rw [cleanup]
    simp only [rdropWhile_append_replicate CTxOut.isNull coins.vout CTxOut.isNull_null,
      Int.toNat_of_nonneg height]
    have tidy := congrArg CCoins.vout stored.cleaned
    simp only [cleanup] at tidy
    rw [tidy]
  simp only [List.append_assoc]
  apply Reads.bind (reads_writeVarInt_readBack coins.nVersion)
  apply Reads.bind (reads_writeVarInt (by omega : (0 : Int) ≤ (coins.headerCode _ : Int)))
  have mask := reads_readMask _ [(coins.headerCode coins.calcMaskSize.2 &&& 2) != 0,
    (coins.headerCode coins.calcMaskSize.2 &&& 4) != 0] endsNonzero
  rw [counted] at mask
  rw [Int.toNat_natCast, maskCode]
  apply Reads.bind mask
  rw [vAvail, List.mapM_map]
  rw [← written]
  apply Reads.bind (Reads.mapM outputs)
  rw [restored, ← List.append_nil (writeVarInt coins.nHeight)]
  apply Reads.bind (reads_writeVarInt height)
  rw [coinBaseBit, cleaned]
  exact reads_pure _

end CCoins

/-! ## Records made from transactions -/

/--
For every transaction that passes `CheckTransaction`, every height and every
sequence of `Spend` calls that leaves the record unpruned, the record is
written and read back from its bytes whatever follows them: with the same
coinbase flag, height and outputs, and with the same version when the version of
the transaction is not negative.
-/
theorem ccoins_serialize_roundTrip (keys : PubKeyCodec) {tx : CTransaction}
    {fCheckDuplicateInputs : Bool}
    (checked : checkTransaction tx fCheckDuplicateInputs = .ok ()) {nHeight : Int}
    (height : 0 ≤ nHeight) (spends : List Nat)
    (unspent : (spends.foldl (fun coins nPos => (coins.spend nPos).2)
      (CCoins.fromTx tx nHeight)).isPruned = false) :
    ∃ bytes read,
      (spends.foldl (fun coins nPos => (coins.spend nPos).2)
        (CCoins.fromTx tx nHeight)).serialize keys = some bytes ∧
      Reads (CCoins.unserialize keys) bytes read ∧
      read.fCoinBase = (CCoins.fromTx tx nHeight).fCoinBase ∧
      read.nHeight = nHeight ∧
      read.vout = (spends.foldl (fun coins nPos => (coins.spend nPos).2)
        (CCoins.fromTx tx nHeight)).vout ∧
      (0 ≤ tx.nVersion.toInt → read.nVersion = tx.nVersion.toInt) := by
  obtain ⟨stored, coinBase, heightKept, versionKept⟩ :=
    (CCoins.Stored.fromTx checked nHeight).spends spends
  have fromTxHeight : (CCoins.fromTx tx nHeight).nHeight = nHeight := rfl
  have fromTxVersion : (CCoins.fromTx tx nHeight).nVersion = tx.nVersion.toInt := rfl
  obtain ⟨bytes, written, reads⟩ :=
    CCoins.reads_serialize keys stored unspent (by rw [heightKept, fromTxHeight]; exact height)
  refine ⟨bytes, _, written, reads, coinBase, heightKept.trans fromTxHeight, rfl, ?_⟩
  intro nonneg
  simp only [readBack, versionKept, fromTxVersion, if_pos nonneg, Int.toNat_of_nonneg nonneg]

/-- A transaction with one input and four outputs, of five to eight units. -/
def fourOutputs : CTransaction :=
  ⟨1, [⟨⟨0, 0⟩, [], 0⟩], [⟨5, []⟩, ⟨6, []⟩, ⟨7, []⟩, ⟨8, []⟩], 0⟩

/-- The coins of `fourOutputs` at height zero with the third output spent: the mask byte after the
header code clears the bit of the third output and sets that of the fourth. -/
theorem ccoins_serialize_roundTrip_spentThird :
    checkTransaction fourOutputs false = .ok () ∧ (0 : Int) ≤ 0 ∧
      ([2].foldl (fun coins nPos => (coins.spend nPos).2) (CCoins.fromTx fourOutputs 0)).isPruned = false ∧
      ∃ bytes read,
        ([2].foldl (fun coins nPos => (coins.spend nPos).2) (CCoins.fromTx fourOutputs 0)).serialize
            PubKeyCodec.rejectAll = some bytes ∧
        Reads (CCoins.unserialize PubKeyCodec.rejectAll) bytes read ∧
        read.fCoinBase = (CCoins.fromTx fourOutputs 0).fCoinBase ∧
        read.nHeight = 0 ∧
        read.vout = ([2].foldl (fun coins nPos => (coins.spend nPos).2) (CCoins.fromTx fourOutputs 0)).vout ∧
        (0 ≤ fourOutputs.nVersion.toInt → read.nVersion = fourOutputs.nVersion.toInt) :=
  have checked : checkTransaction fourOutputs false = .ok () := rfl
  have unspent : ([2].foldl (fun coins nPos => (coins.spend nPos).2)
      (CCoins.fromTx fourOutputs 0)).isPruned = false := by decide
  ⟨checked, le_refl 0, unspent,
    ccoins_serialize_roundTrip PubKeyCodec.rejectAll checked (le_refl 0) [2] unspent⟩

end Dogecoin.Coins
