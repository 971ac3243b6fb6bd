import Mathlib.Algebra.Order.Round
import Mathlib.Data.Rat.Floor
import Mathlib.Data.List.GetD

/-!
# The rolling bloom filter (bloom.cpp)

`CRollingBloomFilter` remembers the keys of its last two or three
generations of `nEntriesPerGeneration` insertions each.  Each position of
the filter carries a 2-bit label, split over a pair of 64-bit words: `0` is
unset, and `1`, `2`, `3` is the generation that last set it.  Starting a
generation reuses the label of the one three before it and first wipes every
position that still carries that label; an insertion then labels the
positions of its key with the current generation.

`label_wipe` and `insertHashes_spec` say what the wipe and an insertion do
to every label.  `Remembers` is the invariant over whole runs: every position of
a key from one of the last three generations carries the label of a
generation no older than the key's, and so no wipe reaches it.  From a fresh
filter with at least one entry per generation and a table that is not empty,
`contains` therefore reports every key of the last three generations, in
particular the last `nElements` keys (`insertAll_remembers`,
`contains_of_remembers`).

The constructor takes `nEntriesPerGeneration = (nElements + 1) / 2` in 32
bits, which is `0` for `nElements = UINT_MAX`: then no entries and no bits are
wanted, the table is empty, and the first `insert` takes a position modulo
`data.size() = 0` (`new_max_elements`).

The floating-point part of the constructor is exact here: its two logarithms
of `fpRate` are the parameters `hashRatio`, `log(fpRate) / log(0.5)`, and
`logFill`, `log(1.0 - exp(log(fpRate) / nHashFuncs))`.  `MurmurHash3` is a
parameter, and `nTweak` is what `reset` draws from `GetRand`.
-/

namespace Dogecoin.Net

/-- `CRollingBloomFilter`. -/
structure CRollingBloomFilter where
  nEntriesPerGeneration : Nat
  nEntriesThisGeneration : Nat
  nGeneration : Nat
  data : List (BitVec 64)
  nTweak : UInt32
  nHashFuncs : Nat
deriving Repr, DecidableEq

/-- `reset`, with `nTweak` for what `GetRand` returns. -/
def CRollingBloomFilter.reset (filter : CRollingBloomFilter) (nTweak : UInt32) : CRollingBloomFilter :=
  { filter with nTweak, nEntriesThisGeneration := 0, nGeneration := 1,
                data := List.replicate filter.data.length 0 }

/--
`CRollingBloomFilter(nElements, fpRate)`, with `hashRatio` for
`log(fpRate) / log(0.5)` and `logFill` for
`log(1.0 - exp(logFpRate / nHashFuncs))`.
-/
def CRollingBloomFilter.new (nElements : UInt32) (hashRatio logFill : ℚ) (nTweak : UInt32) :
    CRollingBloomFilter :=
  -- The optimal number of hash functions is log(fpRate) / log(0.5), but
  -- restrict it to the range 1-50
  let nHashFuncs := max 1 (min (round hashRatio) 50)
  -- In this rolling bloom filter, we'll store between 2 and 3 generations of nElements / 2 entries
  let nEntriesPerGeneration := ((nElements + 1) / 2).toNat
  let nMaxElements : Nat := nEntriesPerGeneration * 3 % 2 ^ 32
  let nFilterBits : UInt32 := UInt32.ofNat ⌈-(nHashFuncs * nMaxElements : ℚ) / logFill⌉₊
  -- For each data element we need to store 2 bits
  let filter : CRollingBloomFilter :=
    { nEntriesPerGeneration, nEntriesThisGeneration := 0, nGeneration := 1,
      data := List.replicate (((nFilterBits + 63) / 64) <<< 1).toNat 0, nTweak := 0,
      nHashFuncs := nHashFuncs.toNat }
  filter.reset nTweak

section Operations

variable (MurmurHash3 : UInt32 → List UInt8 → UInt32)

/-- `RollingBloomHash`. -/
def rollingBloomHash (nHashNum : Nat) (nTweak : UInt32) (vDataToHash : List UInt8) : UInt32 :=
  MurmurHash3 (UInt32.ofNat nHashNum * 0xFBA4C795 + nTweak) vDataToHash

/-- The bit `h & 0x3F` and the position `(h >> 6) % data.size()` that the hash `h` picks. -/
def hashSlot (size : Nat) (h : UInt32) : Nat × Nat :=
  ((h &&& 0x3F).toNat, (h >>> 6).toNat % size)

/-- `data[i] = (data[i] & ~(((uint64_t)1) << bit)) | ((uint64_t)value) << bit`. -/
def setBit (data : List (BitVec 64)) (i bit value : Nat) : List (BitVec 64) :=
  data.set i ((data.getD i 0 &&& ~~~(1#64 <<< bit)) ||| (BitVec.ofNat 64 value <<< bit))

/-- One pair of words in the wipe of `insert`. -/
def wipePair (nGenerationMask1 nGenerationMask2 p1 p2 : BitVec 64) : BitVec 64 × BitVec 64 :=
  let mask := (p1 ^^^ nGenerationMask1) ||| (p2 ^^^ nGenerationMask2)
  (p1 &&& mask, p2 &&& mask)

/-- The loop `for (uint32_t p = 0; p < data.size(); p += 2)` of the wipe. -/
def wipe (nGenerationMask1 nGenerationMask2 : BitVec 64) : List (BitVec 64) → List (BitVec 64)
  | p1 :: p2 :: data =>
      let pair := wipePair nGenerationMask1 nGenerationMask2 p1 p2
      pair.1 :: pair.2 :: wipe nGenerationMask1 nGenerationMask2 data
  | data => data

/-- The start of a new generation in `insert`, when the current one is full. -/
def CRollingBloomFilter.nextGeneration (filter : CRollingBloomFilter) : CRollingBloomFilter :=
  let nGeneration := if filter.nGeneration + 1 = 4 then 1 else filter.nGeneration + 1
  let nGenerationMask1 := -BitVec.ofNat 64 (nGeneration &&& 1)
  let nGenerationMask2 := -BitVec.ofNat 64 (nGeneration >>> 1)
  -- Wipe old entries that used this generation number
  { filter with nEntriesThisGeneration := 0, nGeneration,
                data := wipe nGenerationMask1 nGenerationMask2 filter.data }

/--
The loop `for (int n = 0; n < nHashFuncs; n++)` of `insert` over the hash
numbers `ns`; `none` where `% data.size()` divides by zero.
-/
def insertHashes (filter : CRollingBloomFilter) (vKey : List UInt8) :
    List Nat → List (BitVec 64) → Option (List (BitVec 64))
  | [], data => some data
  | n :: ns, data =>
      if data.length = 0 then none
      else
        let slot := hashSlot data.length (rollingBloomHash MurmurHash3 n filter.nTweak vKey)
        -- The lowest bit of pos is ignored, and set to zero for the first bit, and to one for the second
        let data := setBit data (slot.2 / 2 * 2) slot.1 (filter.nGeneration &&& 1)
        let data := setBit data (slot.2 / 2 * 2 + 1) slot.1 (filter.nGeneration >>> 1)
        insertHashes filter vKey ns data

/-- `insert(vKey)`; `none` where it takes a position modulo `data.size() = 0`. -/
def CRollingBloomFilter.insert (filter : CRollingBloomFilter) (vKey : List UInt8) :
    Option CRollingBloomFilter :=
  let filter := if filter.nEntriesThisGeneration = filter.nEntriesPerGeneration then filter.nextGeneration
    else filter
  let filter := { filter with nEntriesThisGeneration := filter.nEntriesThisGeneration + 1 }
  (insertHashes MurmurHash3 filter vKey (List.range filter.nHashFuncs) filter.data).map
    fun data => { filter with data }

/-- The loop of `contains` over the hash numbers `ns`, which returns false at the first unset position. -/
def containsHashes (filter : CRollingBloomFilter) (vKey : List UInt8) : List Nat → Option Bool
  | [] => some true
  | n :: ns =>
      if filter.data.length = 0 then none
      else
        let slot := hashSlot filter.data.length (rollingBloomHash MurmurHash3 n filter.nTweak vKey)
        -- If the relevant bit is not set in either data[pos & ~1] or data[pos | 1], the filter
        -- does not contain vKey
        if ((filter.data.getD (slot.2 / 2 * 2) 0 ||| filter.data.getD (slot.2 / 2 * 2 + 1) 0) >>> slot.1)
            &&& 1#64 = 0#64 then some false
        else containsHashes filter vKey ns

/-- `contains(vKey)`; `none` where it takes a position modulo `data.size() = 0`. -/
def CRollingBloomFilter.contains (filter : CRollingBloomFilter) (vKey : List UInt8) : Option Bool :=
  containsHashes MurmurHash3 filter vKey (List.range filter.nHashFuncs)

/-- The keys inserted one after another. -/
def CRollingBloomFilter.insertAll : CRollingBloomFilter → List (List UInt8) → Option CRollingBloomFilter
  | filter, [] => some filter
  | filter, vKey :: keys => (filter.insert MurmurHash3 vKey).bind fun filter => filter.insertAll keys

end Operations

/-! ### Labels -/

/-- The label `lo + 2 * hi` of a position whose two bits are `lo` and `hi`. -/
def cellLabel (lo hi : Bool) : Nat := lo.toNat + 2 * hi.toNat

/-- The label of the position `cell = (q, b)`: bit `b` of the words `q * 2` and `q * 2 + 1`. -/
def label (data : List (BitVec 64)) (cell : Nat × Nat) : Nat :=
  cellLabel ((data.getD (cell.1 * 2) 0).getLsbD cell.2) ((data.getD (cell.1 * 2 + 1) 0).getLsbD cell.2)

theorem cellLabel_eq_zero {lo hi : Bool} : cellLabel lo hi = 0 ↔ lo = false ∧ hi = false := by
  cases lo <;> cases hi <;> decide

/-- The two bits `gen & 1` and `gen >> 1` that `insert` writes spell the label `gen`. -/
theorem cellLabel_bits {gen : Nat} (small : gen < 4) :
    cellLabel (decide (gen &&& 1 = 1)) (decide (gen >>> 1 = 1)) = gen := by
  obtain rfl | rfl | rfl | rfl : gen = 0 ∨ gen = 1 ∨ gen = 2 ∨ gen = 3 := by omega
  all_goals decide

/-- At one position, `p & mask` clears both bits exactly where they spell `gen`. -/
theorem cellLabel_wipe {gen : Nat} (small : gen < 4) (lo hi : Bool) :
    cellLabel (lo && ((lo ^^ decide (gen &&& 1 = 1)) || (hi ^^ decide (gen >>> 1 = 1))))
        (hi && ((lo ^^ decide (gen &&& 1 = 1)) || (hi ^^ decide (gen >>> 1 = 1)))) =
      if cellLabel lo hi = gen then 0 else cellLabel lo hi := by
  obtain rfl | rfl | rfl | rfl : gen = 0 ∨ gen = 1 ∨ gen = 2 ∨ gen = 3 := by omega
  all_goals cases lo <;> cases hi <;> decide

theorem and_one_lt_two (gen : Nat) : gen &&& 1 < 2 := by
  rw [Nat.and_one_is_mod]
  exact Nat.mod_lt gen (by decide)

theorem shiftRight_one_lt_two {gen : Nat} (small : gen < 4) : gen >>> 1 < 2 := by
  rw [Nat.shiftRight_eq_div_pow]
  omega

/-- `-(uint64_t)x` for a bit `x` is all zeros or all ones. -/
theorem mask_bit {x : Nat} (small : x < 2) {i : Nat} (hi : i < 64) :
    (-BitVec.ofNat 64 x).getLsbD i = decide (x = 1) := by
  obtain rfl | rfl : x = 0 ∨ x = 1 := by omega
  · simp
  · rw [show BitVec.ofNat 64 1 = 1#64 from rfl, BitVec.neg_one_eq_allOnes, BitVec.getLsbD_allOnes]
    simp [hi]

/-- `wipePair` with the masks of `gen` clears the positions labelled `gen` and keeps the rest. -/
theorem wipePair_label {gen : Nat} (small : gen < 4) (p1 p2 : BitVec 64) (b : Nat) :
    cellLabel ((wipePair (-BitVec.ofNat 64 (gen &&& 1)) (-BitVec.ofNat 64 (gen >>> 1)) p1 p2).1.getLsbD b)
        ((wipePair (-BitVec.ofNat 64 (gen &&& 1)) (-BitVec.ofNat 64 (gen >>> 1)) p1 p2).2.getLsbD b) =
      if cellLabel (p1.getLsbD b) (p2.getLsbD b) = gen then 0 else cellLabel (p1.getLsbD b) (p2.getLsbD b) := by
  by_cases inside : b < 64
  · simp only [wipePair, BitVec.getLsbD_and, BitVec.getLsbD_or, BitVec.getLsbD_xor,
      mask_bit (and_one_lt_two gen) inside, mask_bit (shiftRight_one_lt_two small) inside]
    exact cellLabel_wipe small _ _
  · have beyond : 64 ≤ b := by omega
    simp [BitVec.getLsbD_of_ge _ _ beyond, cellLabel]

theorem wipe_length (m1 m2 : BitVec 64) (data : List (BitVec 64)) :
    (wipe m1 m2 data).length = data.length := by
  fun_induction wipe m1 m2 data with
  | case1 p1 p2 data pair ih => simp [ih]
  | case2 data => rfl

/-- On a table of pairs, the wipe replaces the pair `q` by its `wipePair`. -/
theorem wipe_getD (m1 m2 : BitVec 64) (data : List (BitVec 64)) (even : data.length % 2 = 0)
    (q : Nat) :
    (wipe m1 m2 data).getD (q * 2) 0 = (wipePair m1 m2 (data.getD (q * 2) 0) (data.getD (q * 2 + 1) 0)).1 ∧
      (wipe m1 m2 data).getD (q * 2 + 1) 0 =
        (wipePair m1 m2 (data.getD (q * 2) 0) (data.getD (q * 2 + 1) 0)).2 := by
  induction data using wipe.induct m1 m2 generalizing q with
  | case1 p1 p2 data ih =>
    cases q with
    | zero => simp [wipe]
    | succ q =>
      have even' : data.length % 2 = 0 := by simp at even; omega
      have step : (q + 1) * 2 = q * 2 + 1 + 1 := by omega
      simpa [wipe, step] using ih even' q
  | case2 data notPair =>
    have empty : data = [] := by
      match data, notPair, even with
      | [], _, _ => rfl
      | [_], _, even => simp at even
      | _ :: _ :: _, notPair, _ => exact absurd rfl (notPair _ _ _)
    subst empty
    simp [wipe, wipePair]

/-- The wipe for generation `gen` clears the positions labelled `gen` and keeps every other label. -/
theorem label_wipe {gen : Nat} (small : gen < 4) (data : List (BitVec 64)) (even : data.length % 2 = 0)
    (cell : Nat × Nat) :
    label (wipe (-BitVec.ofNat 64 (gen &&& 1)) (-BitVec.ofNat 64 (gen >>> 1)) data) cell =
      if label data cell = gen then 0 else label data cell := by
  obtain ⟨first, second⟩ := wipe_getD (-BitVec.ofNat 64 (gen &&& 1)) (-BitVec.ofNat 64 (gen >>> 1)) data even cell.1
  rw [label, first, second]
  exact wipePair_label small _ _ cell.2

/-- `data.set i v` read at `j`. -/
theorem getD_set_eq (data : List (BitVec 64)) (i j : Nat) (v : BitVec 64) :
    (data.set i v).getD j 0 = if i = j ∧ i < data.length then v else data.getD j 0 := by
  by_cases same : i = j
  · subst same
    by_cases inside : i < data.length
    · simp [inside]
    · simp [inside]
  · simp [same, List.getD_eq_getElem?_getD, List.getElem?_set_ne same]
/-- `(w & ~(1 << bit)) | (value << bit)` for a bit `value` changes bit `bit` of `w` to `value` and no other. -/
theorem getLsbD_setWord (w : BitVec 64) {bit value : Nat} (hbit : bit < 64) (small : value < 2) (i : Nat) :
    ((w &&& ~~~(1#64 <<< bit)) ||| (BitVec.ofNat 64 value <<< bit)).getLsbD i =
      if i = bit then decide (value = 1) else w.getLsbD i := by
  obtain rfl | rfl : value = 0 ∨ value = 1 := by omega
  all_goals
    rcases Nat.lt_trichotomy i bit with below | rfl | above
    · have different : i ≠ bit := by omega
      simp [different, below, Nat.lt_trans below hbit]
    · simp [hbit]
    · have different : i ≠ bit := by omega
      have shifted : i - bit ≠ 0 := by omega
      by_cases inside : i < 64
      · simp [different, inside, shifted, Nat.not_lt.mpr (Nat.le_of_lt above)]
      · simp [BitVec.getLsbD_of_ge _ _ (Nat.le_of_not_lt inside), different]
/-- The two writes of one hash in `insert` give the position `(pos / 2, bit)` the label `gen` and
keep every other label. -/
theorem label_setPair (data : List (BitVec 64)) {pos bit gen : Nat} (inside : pos / 2 * 2 + 1 < data.length)
    (hbit : bit < 64) (small : gen < 4) (cell : Nat × Nat) :
    label (setBit (setBit data (pos / 2 * 2) bit (gen &&& 1)) (pos / 2 * 2 + 1) bit (gen >>> 1)) cell =
      if cell = (pos / 2, bit) then gen else label data cell := by
  obtain ⟨q, b⟩ := cell
  generalize pos / 2 = p at inside ⊢
  by_cases same : q = p
  · subst same
    have first : q * 2 < data.length := by omega
    have other : q * 2 + 1 ≠ q * 2 := by omega
    simp only [label, setBit, getD_set_eq, List.length_set, other, Ne.symm other, first, inside, and_self,
      if_true, if_false, false_and]
    rw [getLsbD_setWord _ hbit (and_one_lt_two gen), getLsbD_setWord _ hbit (shiftRight_one_lt_two small)]
    by_cases at_bit : b = bit
    · subst at_bit
      rw [if_pos rfl, if_pos rfl, if_pos rfl]
      exact cellLabel_bits small
    · simp [at_bit]
  · have low : p * 2 ≠ q * 2 := by omega
    have cross : p * 2 ≠ q * 2 + 1 := by omega
    have cross' : p * 2 + 1 ≠ q * 2 := by omega
    simp [label, setBit, low, cross, cross', same]

/-- `!((x >> bit) & 1)`: the test of `contains` reads bit `bit` of `x`. -/
theorem zero_of_shift (x : BitVec 64) {bit : Nat} :
    (x >>> bit) &&& 1#64 = 0#64 ↔ x.getLsbD bit = false := by
  constructor
  · intro zero
    have := congrArg (fun v => v.getLsbD 0) zero
    simpa using this
  · intro unset
    apply BitVec.eq_of_getLsbD_eq
    intro i hi
    rcases Nat.eq_zero_or_pos i with rfl | positive
    · simp [unset]
    · simp [Nat.pos_iff_ne_zero.mp positive]
section Specs

variable (MurmurHash3 : UInt32 → List UInt8 → UInt32)

/-- The position `(pos / 2, bit)` that hash number `n` of `vKey` picks in a table of `size` words. -/
def keyCell (size : Nat) (nTweak : UInt32) (vKey : List UInt8) (n : Nat) : Nat × Nat :=
  ((hashSlot size (rollingBloomHash MurmurHash3 n nTweak vKey)).2 / 2,
    (hashSlot size (rollingBloomHash MurmurHash3 n nTweak vKey)).1)

/-- The positions of `vKey` in `filter`, one for each of its hash functions. -/
def CRollingBloomFilter.cells (filter : CRollingBloomFilter) (vKey : List UInt8) : List (Nat × Nat) :=
  (List.range filter.nHashFuncs).map (keyCell MurmurHash3 filter.data.length filter.nTweak vKey)

theorem hashSlot_bit_lt (size : Nat) (h : UInt32) : (hashSlot size h).1 < 64 := by
  have masked : (h &&& 0x3F).toNat ≤ 63 := by
    rw [UInt32.toNat_and]
    exact Nat.and_le_right
  simp only [hashSlot]
  omega

/-- The word pair of a position that `hashSlot` picks lies inside a nonempty table of pairs. -/
theorem hashSlot_pair_lt {size : Nat} (nonempty : 0 < size) (even : size % 2 = 0) (h : UInt32) :
    (hashSlot size h).2 / 2 * 2 + 1 < size := by
  have below : (hashSlot size h).2 < size := Nat.mod_lt _ nonempty
  omega

/--
`insertHashes` over the hash numbers `ns` labels the positions of `vKey` with the filter's
generation and keeps every other label, on a nonempty table of pairs.
-/
theorem insertHashes_spec (filter : CRollingBloomFilter) (vKey : List UInt8) (small : filter.nGeneration < 4)
    (ns : List Nat) (data : List (BitVec 64)) (nonempty : 0 < data.length) (even : data.length % 2 = 0) :
    ∃ data', insertHashes MurmurHash3 filter vKey ns data = some data' ∧ data'.length = data.length ∧
      ∀ cell, label data' cell =
        if cell ∈ ns.map (keyCell MurmurHash3 data.length filter.nTweak vKey) then filter.nGeneration
        else label data cell := by
  induction ns generalizing data with
  | nil => exact ⟨data, rfl, rfl, fun cell => by simp⟩
  | cons n ns ih =>
    generalize slotEq : hashSlot data.length (rollingBloomHash MurmurHash3 n filter.nTweak vKey) = slot
    have inside : slot.2 / 2 * 2 + 1 < data.length := slotEq ▸ hashSlot_pair_lt nonempty even _
    have bit : slot.1 < 64 := slotEq ▸ hashSlot_bit_lt _ _
    have length : (setBit (setBit data (slot.2 / 2 * 2) slot.1 (filter.nGeneration &&& 1))
        (slot.2 / 2 * 2 + 1) slot.1 (filter.nGeneration >>> 1)).length = data.length := by
      simp [setBit]
    obtain ⟨data', run, length', labels⟩ := ih _ (length ▸ nonempty) (length ▸ even)
    refine ⟨data', ?_, length'.trans length, fun cell => ?_⟩
    · simp only [insertHashes, if_neg (Nat.pos_iff_ne_zero.mp nonempty), slotEq]
      exact run
    · have picked : keyCell MurmurHash3 data.length filter.nTweak vKey n = (slot.2 / 2, slot.1) := by
        simp [keyCell, slotEq]
      rw [labels cell, length, label_setPair data inside bit small cell]
      simp only [List.map_cons, List.mem_cons, picked]
      by_cases first : cell = (slot.2 / 2, slot.1) <;> simp [first]

/-- `containsHashes` over the hash numbers `ns` answers whether every position of `vKey` carries a label. -/
theorem containsHashes_spec (filter : CRollingBloomFilter) (vKey : List UInt8)
    (nonempty : 0 < filter.data.length) (ns : List Nat) :
    containsHashes MurmurHash3 filter vKey ns =
      some ((ns.map (keyCell MurmurHash3 filter.data.length filter.nTweak vKey)).all
        fun cell => label filter.data cell != 0) := by
  induction ns with
  | nil => rfl
  | cons n ns ih =>
    simp only [containsHashes, if_neg (Nat.pos_iff_ne_zero.mp nonempty), List.map_cons, List.all_cons, keyCell]
    generalize hashSlot filter.data.length (rollingBloomHash MurmurHash3 n filter.nTweak vKey) = slot
    have unset : ((filter.data.getD (slot.2 / 2 * 2) 0 ||| filter.data.getD (slot.2 / 2 * 2 + 1) 0) >>> slot.1)
        &&& 1#64 = 0#64 ↔ label filter.data (slot.2 / 2, slot.1) = 0 := by
      rw [zero_of_shift, BitVec.getLsbD_or, Bool.or_eq_false_iff, label, cellLabel_eq_zero]
    by_cases zero : label filter.data (slot.2 / 2, slot.1) = 0
    · rw [if_pos (unset.mpr zero)]
      simp [zero]
    · rw [if_neg (mt unset.mp zero), ih]
      simp [zero]

@[simp]
theorem nextGeneration_data_length (filter : CRollingBloomFilter) :
    filter.nextGeneration.data.length = filter.data.length :=
  wipe_length _ _ _

@[simp]
theorem nextGeneration_nTweak (filter : CRollingBloomFilter) : filter.nextGeneration.nTweak = filter.nTweak := rfl

@[simp]
theorem nextGeneration_nHashFuncs (filter : CRollingBloomFilter) :
    filter.nextGeneration.nHashFuncs = filter.nHashFuncs := rfl

@[simp]
theorem nextGeneration_nEntriesPerGeneration (filter : CRollingBloomFilter) :
    filter.nextGeneration.nEntriesPerGeneration = filter.nEntriesPerGeneration := rfl

@[simp]
theorem nextGeneration_nEntriesThisGeneration (filter : CRollingBloomFilter) :
    filter.nextGeneration.nEntriesThisGeneration = 0 := rfl

theorem nextGeneration_nGeneration (filter : CRollingBloomFilter) :
    filter.nextGeneration.nGeneration = if filter.nGeneration + 1 = 4 then 1 else filter.nGeneration + 1 := rfl

/-- The wipe of a new generation clears the positions labelled with it and keeps every other label. -/
theorem label_nextGeneration (filter : CRollingBloomFilter) (even : filter.data.length % 2 = 0)
    (small : filter.nGeneration < 4) (cell : Nat × Nat) :
    label filter.nextGeneration.data cell =
      if label filter.data cell = filter.nextGeneration.nGeneration then 0 else label filter.data cell := by
  have cycled : filter.nextGeneration.nGeneration < 4 := by
    rw [nextGeneration_nGeneration]
    split <;> omega
  exact label_wipe cycled filter.data even cell

/--
`insert` from the filter `switched` that its first block leaves (a new generation where the
current one is full): it labels the positions of `vKey` with the generation and keeps every other
label.
-/
theorem insert_spec (filter switched : CRollingBloomFilter) (vKey : List UInt8)
    (start : switched =
      if filter.nEntriesThisGeneration = filter.nEntriesPerGeneration then filter.nextGeneration else filter)
    (nonempty : 0 < switched.data.length) (even : switched.data.length % 2 = 0)
    (small : switched.nGeneration < 4) :
    ∃ data, filter.insert MurmurHash3 vKey =
        some { switched with nEntriesThisGeneration := switched.nEntriesThisGeneration + 1, data } ∧
      data.length = switched.data.length ∧
      ∀ cell, label data cell =
        if cell ∈ switched.cells MurmurHash3 vKey then switched.nGeneration else label switched.data cell := by
  obtain ⟨data, run, length, labels⟩ := insertHashes_spec MurmurHash3
    { switched with nEntriesThisGeneration := switched.nEntriesThisGeneration + 1 } vKey small
    (List.range switched.nHashFuncs) switched.data nonempty even
  refine ⟨data, ?_, length, labels⟩
  subst start
  simp only [CRollingBloomFilter.insert, run, Option.map_some]

end Specs

/-! ### The invariant over runs -/

/--
Every position of a key of the last three generations carries the label of a generation no
older than the key's.  Key `i` belongs to generation `i / nEntries`, generation `g` writes the
label `g % 3 + 1`, and `G` is the current generation.
-/
def Labelled (cellsOf : List UInt8 → List (Nat × Nat)) (nEntries : Nat) (data : List (BitVec 64))
    (keys : List (List UInt8)) (G : Nat) : Prop :=
  ∀ i (h : i < keys.length), G ≤ i / nEntries + 2 →
    ∀ cell ∈ cellsOf keys[i], ∃ g, i / nEntries ≤ g ∧ g ≤ G ∧ label data cell = g % 3 + 1

section Labelled

variable {cellsOf : List UInt8 → List (Nat × Nat)} {nEntries : Nat} {data data' : List (BitVec 64)}
  {keys : List (List UInt8)} {G : Nat}

/-- Starting generation `G + 1` wipes the label of generation `G - 2`, which no key of the three
generations from `G - 1` on carries. -/
theorem labelled_wipe (labelled : Labelled cellsOf nEntries data keys G)
    (wiped : ∀ cell, label data' cell = if label data cell = (G + 1) % 3 + 1 then 0 else label data cell) :
    Labelled cellsOf nEntries data' keys (G + 1) := by
  intro i h live cell mem
  obtain ⟨g, older, newer, carried⟩ := labelled i h (by omega) cell mem
  have kept : g % 3 + 1 ≠ (G + 1) % 3 + 1 := by omega
  refine ⟨g, older, by omega, ?_⟩
  rw [wiped, carried, if_neg kept]

/-- Inserting a key of the current generation `G` labels its positions with `G` and keeps the others. -/
theorem labelled_write (labelled : Labelled cellsOf nEntries data keys G)
    (current : keys.length / nEntries = G) (vKey : List UInt8)
    (written : ∀ cell, label data' cell = if cell ∈ cellsOf vKey then G % 3 + 1 else label data cell) :
    Labelled cellsOf nEntries data' (keys ++ [vKey]) G := by
  intro i h live cell mem
  have upTo : i ≤ keys.length := by
    rw [List.length_append, List.length_singleton] at h
    omega
  rw [written]
  by_cases fresh : cell ∈ cellsOf vKey
  · have older : i / nEntries ≤ G := current ▸ Nat.div_le_div_right upTo
    exact ⟨G, older, Nat.le_refl G, if_pos fresh⟩
  · rw [if_neg fresh]
    have old : i < keys.length := by
      rcases Nat.lt_or_ge i keys.length with old | late
      · exact old
      · have last : i = keys.length := by omega
        subst last
        simp only [List.getElem_concat_length] at mem
        exact absurd mem fresh
    rw [List.getElem_append_left old] at mem
    exact labelled i old live cell mem

end Labelled

section Run

variable (MurmurHash3 : UInt32 → List UInt8 → UInt32)

/--
The invariant of a filter after the keys `keys`, in generation `G`: the table is a nonempty list
of pairs, the keys fill `G` whole generations and the current one, and their positions are
`Labelled`.
-/
structure Remembers (filter : CRollingBloomFilter) (keys : List (List UInt8)) (G : Nat) : Prop where
  nonempty : 0 < filter.data.length
  even : filter.data.length % 2 = 0
  perGeneration : 0 < filter.nEntriesPerGeneration
  counted : keys.length = filter.nEntriesPerGeneration * G + filter.nEntriesThisGeneration
  bounded : filter.nEntriesThisGeneration ≤ filter.nEntriesPerGeneration
  started : keys = [] ∨ 0 < filter.nEntriesThisGeneration
  generation : filter.nGeneration = G % 3 + 1
  labelled : Labelled (filter.cells MurmurHash3) filter.nEntriesPerGeneration filter.data keys G

/-- The positions of a key depend only on the table's size, the tweak and the number of hashes. -/
theorem cells_congr {filter filter' : CRollingBloomFilter} (length : filter'.data.length = filter.data.length)
    (tweak : filter'.nTweak = filter.nTweak) (funcs : filter'.nHashFuncs = filter.nHashFuncs) :
    filter'.cells MurmurHash3 = filter.cells MurmurHash3 := by
  funext vKey
  simp [CRollingBloomFilter.cells, length, tweak, funcs]

/-- An insertion keeps the invariant in generation `G'` once the first block of `insert` has left
`switched` with room for the key in generation `G'`. -/
theorem remembers_insert_of_start {filter switched : CRollingBloomFilter} {keys : List (List UInt8)} {G' : Nat}
    (start : switched =
      if filter.nEntriesThisGeneration = filter.nEntriesPerGeneration then filter.nextGeneration else filter)
    (nonempty : 0 < switched.data.length) (even : switched.data.length % 2 = 0)
    (perGeneration : 0 < switched.nEntriesPerGeneration)
    (counted : keys.length = switched.nEntriesPerGeneration * G' + switched.nEntriesThisGeneration)
    (room : switched.nEntriesThisGeneration < switched.nEntriesPerGeneration)
    (generation : switched.nGeneration = G' % 3 + 1)
    (labelled : Labelled (switched.cells MurmurHash3) switched.nEntriesPerGeneration switched.data keys G')
    (vKey : List UInt8) :
    ∃ filter', filter.insert MurmurHash3 vKey = some filter' ∧ Remembers MurmurHash3 filter' (keys ++ [vKey]) G' := by
  obtain ⟨data, inserted, length, written⟩ :=
    insert_spec MurmurHash3 filter switched vKey start nonempty even (by omega)
  refine ⟨_, inserted, ?_⟩
  have same : ({ switched with nEntriesThisGeneration := switched.nEntriesThisGeneration + 1, data } :
      CRollingBloomFilter).cells MurmurHash3 = switched.cells MurmurHash3 := cells_congr MurmurHash3 length rfl rfl
  have current : keys.length / switched.nEntriesPerGeneration = G' := by
    rw [counted, Nat.mul_add_div perGeneration, Nat.div_eq_of_lt room, Nat.add_zero]
  exact {
    nonempty := length ▸ nonempty
    even := length ▸ even
    perGeneration := perGeneration
    counted := by
      rw [List.length_append, List.length_singleton, counted]
      rfl
    bounded := room
    started := Or.inr (Nat.succ_pos _)
    generation := generation
    labelled := by
      rw [same]
      exact labelled_write labelled current vKey fun cell => by rw [written, generation] }

/-- One insertion keeps the invariant, in the same generation or the next. -/
theorem insert_remembers {filter : CRollingBloomFilter} {keys : List (List UInt8)} {G : Nat}
    (holds : Remembers MurmurHash3 filter keys G) (vKey : List UInt8) :
    ∃ filter' G', filter.insert MurmurHash3 vKey = some filter' ∧ Remembers MurmurHash3 filter' (keys ++ [vKey]) G' := by
  have small : filter.nGeneration < 4 := by
    rw [holds.generation]
    omega
  by_cases full : filter.nEntriesThisGeneration = filter.nEntriesPerGeneration
  · have cycled : filter.nextGeneration.nGeneration = (G + 1) % 3 + 1 := by
      rw [nextGeneration_nGeneration, holds.generation]
      split <;> omega
    have wiped : Labelled (filter.nextGeneration.cells MurmurHash3) filter.nEntriesPerGeneration
        filter.nextGeneration.data keys (G + 1) := by
      rw [cells_congr MurmurHash3 (nextGeneration_data_length filter) rfl rfl]
      exact labelled_wipe holds.labelled fun cell => by
        rw [label_nextGeneration filter holds.even small cell, cycled]
    have counted : keys.length = filter.nEntriesPerGeneration * (G + 1) + 0 := by
      rw [holds.counted, full, Nat.mul_succ, Nat.add_zero]
    obtain ⟨filter', inserted, holds'⟩ := remembers_insert_of_start MurmurHash3 (if_pos full).symm
      (by simpa using holds.nonempty) (by simpa using holds.even) holds.perGeneration counted
      holds.perGeneration cycled wiped vKey
    exact ⟨filter', G + 1, inserted, holds'⟩
  · have room : filter.nEntriesThisGeneration < filter.nEntriesPerGeneration :=
      Nat.lt_of_le_of_ne holds.bounded full
    obtain ⟨filter', inserted, holds'⟩ := remembers_insert_of_start MurmurHash3 (if_neg full).symm holds.nonempty
      holds.even holds.perGeneration holds.counted room holds.generation holds.labelled vKey
    exact ⟨filter', G, inserted, holds'⟩

/-- The run lemma: inserting any further keys keeps the invariant. -/
theorem insertAll_remembers {filter : CRollingBloomFilter} {keys : List (List UInt8)} {G : Nat}
    (holds : Remembers MurmurHash3 filter keys G) (more : List (List UInt8)) :
    ∃ filter' G', filter.insertAll MurmurHash3 more = some filter' ∧ Remembers MurmurHash3 filter' (keys ++ more) G' := by
  induction more generalizing filter keys G with
  | nil => exact ⟨filter, G, rfl, by simpa using holds⟩
  | cons vKey more ih =>
    obtain ⟨next, G', inserted, holds'⟩ := insert_remembers MurmurHash3 holds vKey
    obtain ⟨filter', G'', run, holds''⟩ := ih holds'
    refine ⟨filter', G'', ?_, by simpa using holds''⟩
    simp [CRollingBloomFilter.insertAll, inserted, run]

/-- Under the invariant, `contains` reports every key of the last three generations. -/
theorem contains_of_remembers {filter : CRollingBloomFilter} {keys : List (List UInt8)} {G : Nat}
    (holds : Remembers MurmurHash3 filter keys G) {i : Nat} (h : i < keys.length)
    (live : G ≤ i / filter.nEntriesPerGeneration + 2) :
    filter.contains MurmurHash3 keys[i] = some true := by
  rw [CRollingBloomFilter.contains, containsHashes_spec MurmurHash3 filter keys[i] holds.nonempty,
    Option.some.injEq, List.all_eq_true]
  intro cell mem
  obtain ⟨g, -, -, carried⟩ := holds.labelled i h live cell mem
  simp [carried]

/-- `insert` keeps the number of entries per generation. -/
theorem insert_nEntriesPerGeneration {filter filter' : CRollingBloomFilter} {vKey : List UInt8}
    (inserted : filter.insert MurmurHash3 vKey = some filter') :
    filter'.nEntriesPerGeneration = filter.nEntriesPerGeneration := by
  simp only [CRollingBloomFilter.insert, Option.map_eq_some_iff] at inserted
  obtain ⟨data, -, rfl⟩ := inserted
  split <;> rfl

theorem insertAll_nEntriesPerGeneration {filter filter' : CRollingBloomFilter} {keys : List (List UInt8)}
    (run : filter.insertAll MurmurHash3 keys = some filter') :
    filter'.nEntriesPerGeneration = filter.nEntriesPerGeneration := by
  induction keys generalizing filter with
  | nil =>
    simp only [CRollingBloomFilter.insertAll, Option.some.injEq] at run
    rw [run]
  | cons vKey keys ih =>
    simp only [CRollingBloomFilter.insertAll, Option.bind_eq_some_iff] at run
    obtain ⟨next, inserted, rest⟩ := run
    rw [ih rest, insert_nEntriesPerGeneration MurmurHash3 inserted]

/--
`insert` on any nonempty table of pairs: after its first block, it labels the positions of `vKey`
with the generation and keeps every other label.
-/
theorem insert_labels (filter : CRollingBloomFilter) (vKey : List UInt8) (nonempty : 0 < filter.data.length)
    (even : filter.data.length % 2 = 0) (small : filter.nGeneration < 4) :
    ∃ filter', filter.insert MurmurHash3 vKey = some filter' ∧ filter'.data.length = filter.data.length ∧
      ∀ cell, label filter'.data cell =
        if cell ∈ filter.cells MurmurHash3 vKey then filter'.nGeneration
        else label (if filter.nEntriesThisGeneration = filter.nEntriesPerGeneration then filter.nextGeneration
          else filter).data cell := by
  have start : ∀ switched : CRollingBloomFilter,
      switched = (if filter.nEntriesThisGeneration = filter.nEntriesPerGeneration then filter.nextGeneration
        else filter) →
      switched.data.length = filter.data.length ∧ switched.nGeneration < 4 ∧
        switched.cells MurmurHash3 = filter.cells MurmurHash3 := by
    intro switched chosen
    split at chosen <;> subst chosen
    · refine ⟨nextGeneration_data_length filter, ?_, cells_congr MurmurHash3 (nextGeneration_data_length filter) rfl rfl⟩
      rw [nextGeneration_nGeneration]
      split <;> omega
    · exact ⟨rfl, small, rfl⟩
  obtain ⟨length, cycled, same⟩ := start _ rfl
  obtain ⟨data, inserted, length', written⟩ :=
    insert_spec MurmurHash3 filter _ vKey rfl (length ▸ nonempty) (length ▸ even) cycled
  refine ⟨_, inserted, length'.trans length, fun cell => ?_⟩
  rw [written, same]

end Run


/-! ### The constructor -/

theorem new_nHashFuncs_pos (nElements : UInt32) (hashRatio logFill : ℚ) (nTweak : UInt32) :
    0 < (CRollingBloomFilter.new nElements hashRatio logFill nTweak).nHashFuncs := by
  show 0 < (max 1 (min (round hashRatio) 50)).toNat
  have atLeastOne : 1 ≤ max 1 (min (round hashRatio) 50) := le_max_left _ _
  omega

/-- `data.resize(((nFilterBits + 63) / 64) << 1)` makes a table of pairs. -/
theorem new_data_even (nElements : UInt32) (hashRatio logFill : ℚ) (nTweak : UInt32) :
    (CRollingBloomFilter.new nElements hashRatio logFill nTweak).data.length % 2 = 0 := by
  simp only [CRollingBloomFilter.new, CRollingBloomFilter.reset, List.length_replicate]
  generalize (_ : UInt32) / 64 = words
  rw [UInt32.toNat_shiftLeft]
  simp
  omega

/-- Below `UINT_MAX`, `(nElements + 1) / 2` does not wrap. -/
theorem new_nEntriesPerGeneration (nElements : UInt32) (hashRatio logFill : ℚ) (nTweak : UInt32)
    (below : nElements.toNat < 4294967295) :
    (CRollingBloomFilter.new nElements hashRatio logFill nTweak).nEntriesPerGeneration = (nElements.toNat + 1) / 2 := by
  show ((nElements + 1) / 2).toNat = _
  rw [UInt32.toNat_div, UInt32.toNat_add]
  simp
  omega

/-- A fresh filter with at least one entry per generation and a nonempty table starts the invariant. -/
theorem new_remembers (MurmurHash3 : UInt32 → List UInt8 → UInt32) {nElements : UInt32} {hashRatio logFill : ℚ}
    {nTweak : UInt32}
    (perGeneration : 0 < (CRollingBloomFilter.new nElements hashRatio logFill nTweak).nEntriesPerGeneration)
    (nonempty : 0 < (CRollingBloomFilter.new nElements hashRatio logFill nTweak).data.length) :
    Remembers MurmurHash3 (CRollingBloomFilter.new nElements hashRatio logFill nTweak) [] 0 where
  nonempty := nonempty
  even := new_data_even nElements hashRatio logFill nTweak
  perGeneration := perGeneration
  counted := rfl
  bounded := Nat.zero_le _
  started := Or.inl rfl
  generation := rfl
  labelled := fun i h => absurd h (Nat.not_lt_zero i)

/--
The recent keys, the last `n ≤ 2 * E` of the `m` keys or those of the last three generations of
`E` keys, are live in the generation `G` of the invariant.
-/
theorem recent_live {E G c m i n : Nat} (perGeneration : 0 < E) (counted : m = E * G + c) (bounded : c ≤ E)
    (started : m = 0 ∨ 0 < c) (h : i < m) (wide : n ≤ 2 * E)
    (recent : m ≤ i + n ∨ (m - 1) / E ≤ i / E + 2) :
    G ≤ i / E + 2 := by
  rcases recent with lastN | lastGenerations
  · rw [← Nat.add_mul_div_right i 2 perGeneration, Nat.le_div_iff_mul_le perGeneration]
    calc G * E = E * G := Nat.mul_comm G E
      _ ≤ m := by omega
      _ ≤ i + 2 * E := by omega
  · have positive : 0 < c := started.resolve_left (by omega)
    have current : (m - 1) / E = G := by
      rw [show m - 1 = E * G + (c - 1) by omega, Nat.mul_add_div perGeneration, Nat.div_eq_of_lt (by omega),
        Nat.add_zero]
    omega

/-! ### Recent keys are found -/

/--
On a filter built with `1 ≤ nElements < 1431655765`, so that the `int` product
`nEntriesPerGeneration * 3` does not overflow, and with logarithms for which the size in bits
fits the `uint32_t` it is cast to and the table is not empty, `contains` reports every one of
the last `nElements` keys inserted and every key of the current generation or the two before it; the wipe of a new generation clears only the positions labelled with it, and each
insertion labels the positions of its key with the current generation and keeps the others.
-/
theorem rollingBloom_recentKeys (MurmurHash3 : UInt32 → List UInt8 → UInt32) :
    (∀ (nElements : UInt32) (hashRatio logFill : ℚ) (nTweak : UInt32) (keys : List (List UInt8)),
      1 ≤ nElements.toNat → nElements.toNat < 1431655765 →
      ⌈-((max 1 (min (round hashRatio) 50) : ℤ) * ((nElements.toNat + 1) / 2 * 3 : ℕ) : ℚ) / logFill⌉₊ < 2 ^ 32 →
      0 < (CRollingBloomFilter.new nElements hashRatio logFill nTweak).data.length →
      ∃ filter, (CRollingBloomFilter.new nElements hashRatio logFill nTweak).insertAll MurmurHash3 keys = some filter ∧
        ∀ i (h : i < keys.length),
          (keys.length ≤ i + nElements.toNat ∨
            (keys.length - 1) / ((nElements.toNat + 1) / 2) ≤ i / ((nElements.toNat + 1) / 2) + 2) →
          filter.contains MurmurHash3 keys[i] = some true) ∧
    (∀ (filter : CRollingBloomFilter) (cell : Nat × Nat), filter.data.length % 2 = 0 → filter.nGeneration < 4 →
      label filter.nextGeneration.data cell =
        if label filter.data cell = filter.nextGeneration.nGeneration then 0 else label filter.data cell) ∧
    (∀ (filter : CRollingBloomFilter) (vKey : List UInt8), 0 < filter.data.length →
      filter.data.length % 2 = 0 → filter.nGeneration < 4 →
      ∃ filter', filter.insert MurmurHash3 vKey = some filter' ∧
        ∀ cell, label filter'.data cell =
          if cell ∈ filter.cells MurmurHash3 vKey then filter'.nGeneration
          else label (if filter.nEntriesThisGeneration = filter.nEntriesPerGeneration then filter.nextGeneration
            else filter).data cell) := by
  refine ⟨fun nElements hashRatio logFill nTweak keys atLeastOne below _ nonempty => ?_,
    fun filter cell even small => label_nextGeneration filter even small cell,
    fun filter vKey nonempty even small => ?_⟩
  · have perGeneration := new_nEntriesPerGeneration nElements hashRatio logFill nTweak (by omega)
    obtain ⟨filter, G, run, holds⟩ :=
      insertAll_remembers MurmurHash3 (new_remembers MurmurHash3 (by omega) nonempty) keys
    rw [List.nil_append] at holds
    have entries : filter.nEntriesPerGeneration = (nElements.toNat + 1) / 2 := by
      rw [insertAll_nEntriesPerGeneration MurmurHash3 run, perGeneration]
    refine ⟨filter, run, fun i h recent => contains_of_remembers MurmurHash3 holds h ?_⟩
    have started : keys.length = 0 ∨ 0 < filter.nEntriesThisGeneration :=
      holds.started.imp List.length_eq_zero_iff.mpr id
    rw [entries]
    exact recent_live (entries ▸ holds.perGeneration) (entries ▸ holds.counted) (entries ▸ holds.bounded)
      started h (by omega) recent
  · obtain ⟨filter', inserted, -, written⟩ := insert_labels MurmurHash3 filter vKey nonempty even small
    exact ⟨filter', inserted, written⟩

theorem rollingBloom_recentKeys_tenElements :
    ∃ filter, (CRollingBloomFilter.new 10 3 (-1/2) 7).insertAll (fun seed key => seed * 31 + key.length.toUInt32)
        [[1], [2, 3]] = some filter ∧
      ∀ i (h : i < [[1], [2, 3]].length),
        ([[1], [2, 3]].length ≤ i + 10 ∨ ([[1], [2, 3]].length - 1) / ((10 + 1) / 2) ≤ i / ((10 + 1) / 2) + 2) →
        filter.contains (fun seed key => seed * 31 + key.length.toUInt32) ([[1], [2, 3]] : List (List UInt8))[i] =
          some true :=
  (rollingBloom_recentKeys fun seed key => seed * 31 + key.length.toUInt32).1 10 3 (-1/2) 7 [[1], [2, 3]]
    (by decide) (by decide) (by simp [UInt32.toNat_ofNat]; norm_num)
    (by simp [CRollingBloomFilter.new, CRollingBloomFilter.reset, UInt32.toNat_ofNat]; norm_num [Nat.shiftLeft_eq])

/--
For `nElements = UINT_MAX`, `(nElements + 1) / 2` wraps to 0: no entries and no bits are wanted,
the table is empty, and the first `insert` takes a position modulo `data.size() = 0`.
-/
theorem new_uint_max_insert (MurmurHash3 : UInt32 → List UInt8 → UInt32) (hashRatio logFill : ℚ)
    (nTweak : UInt32) (vKey : List UInt8) :
    (CRollingBloomFilter.new 4294967295 hashRatio logFill nTweak).data = [] ∧
      (CRollingBloomFilter.new 4294967295 hashRatio logFill nTweak).insert MurmurHash3 vKey = none := by
  have empty : (CRollingBloomFilter.new 4294967295 hashRatio logFill nTweak).data = [] := by
    simp [CRollingBloomFilter.new, CRollingBloomFilter.reset]
  have full : (CRollingBloomFilter.new 4294967295 hashRatio logFill nTweak).nEntriesThisGeneration =
      (CRollingBloomFilter.new 4294967295 hashRatio logFill nTweak).nEntriesPerGeneration := by
    show 0 = ((4294967295 + 1) / 2 : UInt32).toNat
    decide
  refine ⟨empty, ?_⟩
  obtain ⟨k, funcs⟩ := Nat.exists_eq_succ_of_ne_zero
    (Nat.pos_iff_ne_zero.mp (new_nHashFuncs_pos 4294967295 hashRatio logFill nTweak))
  simp only [CRollingBloomFilter.insert, if_pos full, nextGeneration_nHashFuncs, funcs, List.range_succ_eq_map]
  simp [insertHashes, CRollingBloomFilter.nextGeneration, empty, wipe]

/-- `CRollingBloomFilter(UINT_MAX, 0.000001)`, the rate of `recentRejects`, with its two logarithms
`19.93` and `-0.6955` rounded, fails on its first `insert`. -/
theorem new_max_elements :
    (CRollingBloomFilter.new 4294967295 (1993 / 100) (-6955 / 10000) 0).data = [] ∧
      (CRollingBloomFilter.new 4294967295 (1993 / 100) (-6955 / 10000) 0).insert
        (fun nHashNum _ => nHashNum) [] = none :=
  new_uint_max_insert _ _ _ _ _

end Dogecoin.Net
