import Dogecoin.Primitives.Transaction
import Dogecoin.Serialize.VarInt
import Mathlib.Tactic.IntervalCases
import Mathlib.Tactic.Ring

/-!
# The compressed outputs of the coins database

A model of `src/src/compressor.h` and `src/src/compressor.cpp`.  An output is
stored as its compressed amount, as a `VARINT`, and its compressed script.
The amount loses its trailing decimal zeros, at most nine of them, which it
keeps as an exponent.  A script of one of the three standard forms, pay to a
key hash, to a script hash, or to a public key, is stored as a one-byte tag
below `nSpecialScripts` and its 20 or 32 payload bytes; any other script as its
length plus `nSpecialScripts`, as a `VARINT`, and its bytes.

An uncompressed public key is stored by its x coordinate and the parity of its
y coordinate, and reading it back asks secp256k1 to recover y.  The two
secp256k1 calls are the fields of a `PubKeyCodec`, together with the fact of
the curve that makes them inverse.

Amounts are natural numbers here; `compressAmount_lt_of_le_max` shows that for
every amount in `MoneyRange` the 64-bit arithmetic of `CompressAmount` does not
overflow.
-/

namespace Dogecoin.Coins

open Dogecoin.Primitives Dogecoin.Serialize StreamDecode

/-! ## Amounts -/

/-- The loop of `CompressAmount`: divide by ten while the last digit is zero, at most nine times. -/
def stripTens (n e : Nat) : Nat × Nat :=
  if n % 10 = 0 ∧ e < 9 then stripTens (n / 10) (e + 1) else (n, e)
termination_by 9 - e

/-- `CTxOutCompressor::CompressAmount`. -/
def compressAmount (n : Nat) : Nat :=
  if n = 0 then 0
  else
    let stripped := stripTens n 0
    if stripped.2 < 9 then
      let d := stripped.1 % 10
      1 + (stripped.1 / 10 * 9 + d - 1) * 10 + stripped.2
    else
      1 + (stripped.1 - 1) * 10 + 9

/-- The loop of `DecompressAmount`: multiply by ten `e` times. -/
def timesTens : Nat → Nat → Nat
  | n, 0 => n
  | n, e + 1 => timesTens (n * 10) e

/-- `CTxOutCompressor::DecompressAmount`. -/
def decompressAmount (x : Nat) : Nat :=
  if x = 0 then 0
  else
    let x := x - 1
    let e := x % 10
    let x := x / 10
    if e < 9 then
      let d := x % 9 + 1
      timesTens (x / 9 * 10 + d) e
    else
      timesTens (x + 1) e

theorem timesTens_eq (n e : Nat) : timesTens n e = n * 10 ^ e := by
  induction e generalizing n with
  | zero => simp [timesTens]
  | succ e ih =>
      rw [timesTens, ih, Nat.pow_succ]
      ring

/--
What the loop of `CompressAmount` leaves: the amount is the rest times ten to
the exponent, at most nine, and the rest does not end in zero unless nine
zeros were removed.  So the `assert(d >= 1 && d <= 9)` of the source holds.
-/
theorem stripTens_spec (n e : Nat) (bounded : e ≤ 9) :
    n * 10 ^ e = (stripTens n e).1 * 10 ^ (stripTens n e).2 ∧
      (stripTens n e).2 ≤ 9 ∧ (stripTens n e).1 ≤ n ∧
      ((stripTens n e).2 < 9 → (stripTens n e).1 % 10 ≠ 0) := by
  induction n, e using stripTens.induct with
  | case1 n e strip =>
      rw [stripTens, if_pos strip]
      obtain ⟨scaled, capped, smaller, digit⟩ :=
        ‹e + 1 ≤ 9 → _› (by omega)
      refine ⟨?_, capped, by omega, digit⟩
      rw [← scaled, Nat.pow_succ]
      have tens : n = n / 10 * 10 := by omega
      calc n * 10 ^ e = n / 10 * 10 * 10 ^ e := by rw [← tens]
        _ = n / 10 * (10 ^ e * 10) := by ring
  | case2 n e keep =>
      rw [stripTens, if_neg keep]
      refine ⟨rfl, bounded, le_refl n, ?_⟩
      intro below
      omega

/-- Compressed amounts decompress to the amount. -/
theorem decompressAmount_compressAmount (n : Nat) :
    decompressAmount (compressAmount n) = n := by
  unfold compressAmount
  split
  · rename_i zero
    simp [decompressAmount, zero]
  · rename_i positive
    obtain ⟨scaled, capped, -, digit⟩ := stripTens_spec n 0 (Nat.zero_le 9)
    rw [Nat.pow_zero, Nat.mul_one] at scaled
    set m := (stripTens n 0).1 with hm
    set e := (stripTens n 0).2 with he
    have nonzero : m ≠ 0 := by
      intro isZero
      rw [isZero, Nat.zero_mul] at scaled
      exact positive scaled
    dsimp only
    split
    · rename_i below
      have last := digit below
      have exponent : (1 + (m / 10 * 9 + m % 10 - 1) * 10 + e - 1) % 10 = e := by omega
      have quotient : (1 + (m / 10 * 9 + m % 10 - 1) * 10 + e - 1) / 10 =
          m / 10 * 9 + (m % 10 - 1) := by omega
      unfold decompressAmount
      rw [if_neg (by omega)]
      dsimp only
      rw [exponent, if_pos below, quotient, timesTens_eq]
      have digits : (m / 10 * 9 + (m % 10 - 1)) / 9 * 10 + ((m / 10 * 9 + (m % 10 - 1)) % 9 + 1) =
          m := by omega
      rw [digits, scaled]
    · rename_i nine
      have nineZeros : e = 9 := by omega
      have exponent : (1 + (m - 1) * 10 + 9 - 1) % 10 = 9 := by omega
      have quotient : (1 + (m - 1) * 10 + 9 - 1) / 10 = m - 1 := by omega
      unfold decompressAmount
      rw [if_neg (by omega)]
      dsimp only
      rw [exponent, if_neg (by omega), quotient, timesTens_eq, Nat.sub_add_cancel
        (Nat.pos_of_ne_zero nonzero), scaled, nineZeros]

/-- Every amount up to `MAX_MONEY` compresses to a value of 64 bits. -/
theorem compressAmount_lt_of_le_max {n : Nat} (bounded : (n : Int) ≤ MAX_MONEY) :
    compressAmount n < 2 ^ 64 := by
  have small : n ≤ 10 ^ 18 := by
    simp only [MAX_MONEY] at bounded
    omega
  unfold compressAmount
  split
  · exact Nat.two_pow_pos 64
  · obtain ⟨-, -, smaller, -⟩ := stripTens_spec n 0 (Nat.zero_le 9)
    dsimp only
    split <;> omega

/-! ## Public keys -/

/--
The secp256k1 operations the script compressor calls: `CPubKey::IsFullyValid`
on a 65-byte key and `CPubKey::Decompress` on a 33-byte one.  The field
`decompress_compressed` is the fact of the curve that a fully valid point is
recovered from its x coordinate and the parity of its y coordinate.
-/
structure PubKeyCodec where
  isFullyValid : List UInt8 → Bool
  decompress : List UInt8 → Option (List UInt8)
  decompress_compressed : ∀ key : List UInt8, key.length = 65 → key[0]? = some 0x04 →
    isFullyValid key = true →
      decompress ((0x02 ||| (key.getD 64 0 &&& 0x01)) :: (key.drop 1).take 32) = some key

/-- The codec that takes no 65-byte key as fully valid, and so never compresses one. -/
def PubKeyCodec.rejectAll : PubKeyCodec where
  isFullyValid := fun _ => false
  decompress := fun _ => none
  decompress_compressed := fun _ _ _ valid => absurd valid Bool.false_ne_true

/-! ## Scripts -/

/-- `nSpecialScripts`: the tags below it mark a compressed script. -/
def nSpecialScripts : Nat := 6

/-- `CScriptCompressor::IsToKeyID`: the key hash of a pay-to-key-hash script. -/
def isToKeyID (script : CScript) : Option (List UInt8) :=
  if script.length = 25 ∧ script[0]? = some OP_DUP ∧ script[1]? = some OP_HASH160 ∧
      script[2]? = some 20 ∧ script[23]? = some OP_EQUALVERIFY ∧
      script[24]? = some OP_CHECKSIG then
    some ((script.drop 3).take 20)
  else none

/-- `CScriptCompressor::IsToScriptID`: the script hash of a pay-to-script-hash script. -/
def isToScriptID (script : CScript) : Option (List UInt8) :=
  if script.length = 23 ∧ script[0]? = some OP_HASH160 ∧ script[1]? = some 20 ∧
      script[22]? = some OP_EQUAL then
    some ((script.drop 2).take 20)
  else none

/--
`CScriptCompressor::IsToPubKey`: the key of a pay-to-public-key script, a
compressed one as it is, an uncompressed one only when it is fully valid.
-/
def isToPubKey (keys : PubKeyCodec) (script : CScript) : Option (List UInt8) :=
  if script.length = 35 ∧ script[0]? = some 33 ∧ script[34]? = some OP_CHECKSIG ∧
      (script[1]? = some 0x02 ∨ script[1]? = some 0x03) then
    some ((script.drop 1).take 33)
  else if script.length = 67 ∧ script[0]? = some 65 ∧ script[66]? = some OP_CHECKSIG ∧
      script[1]? = some 0x04 then
    if keys.isFullyValid ((script.drop 1).take 65) then some ((script.drop 1).take 65)
    else none
  else none

/-- `CScriptCompressor::Compress`: the tag and payload of a standard script. -/
def compress (keys : PubKeyCodec) (script : CScript) : Option (List UInt8) :=
  match isToKeyID script with
  | some keyID => some (0x00 :: keyID)
  | none =>
      match isToScriptID script with
      | some scriptID => some (0x01 :: scriptID)
      | none =>
          match isToPubKey keys script with
          | some pubkey =>
              if pubkey[0]? = some 0x02 ∨ pubkey[0]? = some 0x03 then
                some (pubkey.getD 0 0 :: (pubkey.drop 1).take 32)
              else if pubkey[0]? = some 0x04 then
                some ((0x04 ||| (pubkey.getD 64 0 &&& 0x01)) :: (pubkey.drop 1).take 32)
              else none
          | none => none

/-- `CScriptCompressor::GetSpecialSize`: the payload length of a tag. -/
def getSpecialSize (nSize : Nat) : Nat :=
  if nSize = 0 ∨ nSize = 1 then 20
  else if nSize = 2 ∨ nSize = 3 ∨ nSize = 4 ∨ nSize = 5 then 32
  else 0

/--
`CScriptCompressor::Decompress`: the script of a tag and its payload, `none`
where the source returns `false`.
-/
def decompressScript (keys : PubKeyCodec) (nSize : Nat) (input : List UInt8) :
    Option CScript :=
  if nSize = 0 then
    some ([OP_DUP, OP_HASH160, 20] ++ input.take 20 ++ [OP_EQUALVERIFY, OP_CHECKSIG])
  else if nSize = 1 then
    some ([OP_HASH160, 20] ++ input.take 20 ++ [OP_EQUAL])
  else if nSize = 2 ∨ nSize = 3 then
    some ([33, UInt8.ofNat nSize] ++ input.take 32 ++ [OP_CHECKSIG])
  else if nSize = 4 ∨ nSize = 5 then
    (keys.decompress (UInt8.ofNat (nSize - 2) :: input.take 32)).map fun pubkey =>
      [65] ++ pubkey ++ [OP_CHECKSIG]
  else none

/-- `CScriptCompressor::Serialize`. -/
def CScriptCompressor.serialize (keys : PubKeyCodec) (script : CScript) : List UInt8 :=
  match compress keys script with
  | some compr => compr
  | none => writeVarInt (script.length + nSpecialScripts) ++ script

/--
`CScriptCompressor::Unserialize`, into the empty script of `CTxOut()`: a tag
is decompressed (a failed decompression leaves the script empty), an overly
long script is skipped and replaced by `OP_RETURN`, any other is read as it is.
-/
def CScriptCompressor.unserialize (keys : PubKeyCodec) : Decoder UInt8 CScript := do
  let nSize ← readVarInt
  if nSize < nSpecialScripts then
    let vch ← take (getSpecialSize nSize)
    pure ((decompressScript keys nSize vch).getD [])
  else if nSize - nSpecialScripts > MAX_SCRIPT_SIZE then
    let _ ← take (nSize - nSpecialScripts)
    pure [OP_RETURN]
  else
    take (nSize - nSpecialScripts)

/-! ## Outputs -/

/-- `CTxOutCompressor` writing: the amount, as `uint64_t`, compressed, then the script. -/
def CTxOutCompressor.serialize (keys : PubKeyCodec) (txout : CTxOut) : List UInt8 :=
  writeVarInt (compressAmount (txout.nValue % 2 ^ 64).toNat) ++
    CScriptCompressor.serialize keys txout.scriptPubKey

/-- `CTxOutCompressor` reading into `CTxOut()`. -/
def CTxOutCompressor.unserialize (keys : PubKeyCodec) : Decoder UInt8 CTxOut := do
  let nVal ← readVarInt
  let script ← CScriptCompressor.unserialize keys
  pure ⟨decompressAmount nVal, script⟩

/-! ## Round trips -/

/--
A list is a given prefix, `count` of its own elements after it, and a given
suffix, when it has that length and those ends.
-/
theorem frame_eq {α : Type} {l pre suf : List α} {count : Nat}
    (length : l.length = pre.length + count + suf.length)
    (front : ∀ i < pre.length, l[i]? = pre[i]?)
    (back : ∀ i < suf.length, l[pre.length + count + i]? = suf[i]?) :
    pre ++ (l.drop pre.length).take count ++ suf = l := by
  have middleLength : ((l.drop pre.length).take count).length = count := by
    simp only [List.length_take, List.length_drop]
    omega
  apply List.ext_getElem?
  intro i
  by_cases early : i < pre.length
  · rw [List.append_assoc, List.getElem?_append_left early, front i early]
  by_cases middle : i < pre.length + count
  · rw [List.getElem?_append_left (by simp only [List.length_append, middleLength]; omega),
      List.getElem?_append_right (by omega), List.getElem?_take_of_lt (by omega),
      List.getElem?_drop]
    congr 1
    omega
  rw [List.getElem?_append_right (by simp only [List.length_append, middleLength]; omega)]
  simp only [List.length_append, middleLength]
  by_cases late : i - (pre.length + count) < suf.length
  · rw [← back _ late]
    congr 1
    omega
  · rw [List.getElem?_eq_none (by omega), List.getElem?_eq_none (by omega)]

theorem getSpecialSize_of_key {nSize : Nat}
    (tag : nSize = 2 ∨ nSize = 3 ∨ nSize = 4 ∨ nSize = 5) : getSpecialSize nSize = 32 := by
  rw [getSpecialSize, if_neg (by omega), if_pos tag]

/-- What a compressed script is made of: a tag, a payload of its size, and a way back. -/
structure Compressed (keys : PubKeyCodec) (script : CScript) (compr : List UInt8) : Prop where
  shape : ∃ code body, compr = code :: body ∧ code.toNat < nSpecialScripts ∧
    body.length = getSpecialSize code.toNat ∧
    decompressScript keys code.toNat body = some script

theorem compress_keyID {keys : PubKeyCodec} {script : CScript} {keyID : List UInt8}
    (found : isToKeyID script = some keyID) : Compressed keys script (0x00 :: keyID) := by
  unfold isToKeyID at found
  split at found
  · rename_i form
    obtain ⟨length, op0, op1, op2, op23, op24⟩ := form
    cases found
    refine ⟨⟨0x00, _, rfl, by decide, by simp [getSpecialSize, length], ?_⟩⟩
    rw [UInt8.toNat_zero, decompressScript, if_pos rfl, List.take_take, Nat.min_self]
    congr 1
    apply frame_eq (by simp [length])
    · intro i small
      simp only [List.length_cons, List.length_nil] at small
      interval_cases i <;> simp_all
    · intro i small
      simp only [List.length_cons, List.length_nil] at small
      interval_cases i <;> simp_all
  · cases found

theorem compress_scriptID {keys : PubKeyCodec} {script : CScript} {scriptID : List UInt8}
    (found : isToScriptID script = some scriptID) :
    Compressed keys script (0x01 :: scriptID) := by
  unfold isToScriptID at found
  split at found
  · rename_i form
    obtain ⟨length, op0, op1, op22⟩ := form
    cases found
    refine ⟨⟨0x01, _, rfl, by decide, by simp [getSpecialSize, length], ?_⟩⟩
    rw [show (0x01 : UInt8).toNat = 1 from rfl, decompressScript, if_neg (by decide),
      if_pos rfl, List.take_take, Nat.min_self]
    congr 1
    apply frame_eq (by simp [length])
    · intro i small
      simp only [List.length_cons, List.length_nil] at small
      interval_cases i <;> simp_all
    · intro i small
      simp only [List.length_cons, List.length_nil] at small
      interval_cases i
      simp_all
  · cases found

/-- The tag bytes `0x04 | (y & 1)` of an uncompressed key and what decompression makes of them. -/
theorem uncompressedTag_spec (y : UInt8) :
    (0x04 ||| (y &&& 0x01)).toNat < nSpecialScripts ∧
      ((0x04 ||| (y &&& 0x01)).toNat = 4 ∨ (0x04 ||| (y &&& 0x01)).toNat = 5) ∧
      UInt8.ofNat ((0x04 ||| (y &&& 0x01)).toNat - 2) = 0x02 ||| (y &&& 0x01) := by
  have parity : (y &&& 0x01).toNat = 0 ∨ (y &&& 0x01).toNat = 1 := by
    rw [UInt8.toNat_and, show (0x01 : UInt8).toNat = 1 from rfl, Nat.and_one_is_mod]
    omega
  rcases parity with even | odd
  · rw [show y &&& 0x01 = 0 from UInt8.toNat_inj.mp even]
    decide
  · rw [show y &&& 0x01 = 1 from UInt8.toNat_inj.mp odd]
    decide

theorem compress_pubKey {keys : PubKeyCodec} {script : CScript} {pubkey : List UInt8}
    (found : isToPubKey keys script = some pubkey) :
    ∀ compr, (if pubkey[0]? = some 0x02 ∨ pubkey[0]? = some 0x03 then
        some (pubkey.getD 0 0 :: (pubkey.drop 1).take 32)
      else if pubkey[0]? = some 0x04 then
        some ((0x04 ||| (pubkey.getD 64 0 &&& 0x01)) :: (pubkey.drop 1).take 32)
      else none) = some compr → Compressed keys script compr := by
  intro compr chosen
  unfold isToPubKey at found
  split at found
  · rename_i form
    obtain ⟨length, op0, op34, parity⟩ := form
    cases found
    have lead : ((script.drop 1).take 33)[0]? = script[1]? := by
      simp
    rw [lead, if_pos parity] at chosen
    cases chosen
    have code : ((script.drop 1).take 33).getD 0 0 = script.getD 1 0 := by
      simp [List.getD_eq_getElem?_getD]
    have tag : (script.getD 1 0).toNat = 2 ∨ (script.getD 1 0).toNat = 3 := by
      rcases parity with two | three
      · left
        simp [List.getD_eq_getElem?_getD, two]
      · right
        simp [List.getD_eq_getElem?_getD, three]
    have body : (((script.drop 1).take 33).drop 1).take 32 = (script.drop 2).take 32 := by
      rw [List.drop_take, List.take_take]
      simp
    rw [code, body]
    refine ⟨⟨_, _, rfl, by simp only [nSpecialScripts]; omega, ?_, ?_⟩⟩
    · rw [getSpecialSize_of_key (by omega)]
      simp [length]
    · rw [decompressScript, if_neg (by omega), if_neg (by omega), if_pos tag,
        List.take_take, Nat.min_self, UInt8.ofNat_toNat]
      congr 1
      apply frame_eq (by simp [length])
      · intro i small
        simp only [List.length_cons, List.length_nil] at small
        interval_cases i
        · simpa using op0
        · simp [List.getD_eq_getElem?_getD, List.getElem?_eq_getElem (by omega : 1 < script.length)]
      · intro i small
        simp only [List.length_cons, List.length_nil] at small
        interval_cases i
        simpa using op34
  · rename_i notCompressed
    split at found
    · rename_i form
      obtain ⟨length, op0, op66, lead⟩ := form
      split at found
      · rename_i valid
        cases found
        have key0 : ((script.drop 1).take 65)[0]? = some 0x04 := by
          simp [lead]
        rw [key0, if_neg (by simp), if_pos rfl] at chosen
        cases chosen
        obtain ⟨small, tag, shifted⟩ := uncompressedTag_spec (((script.drop 1).take 65).getD 64 0)
        refine ⟨⟨_, _, rfl, small, ?_, ?_⟩⟩
        · rw [getSpecialSize_of_key (by omega)]
          simp [length]
        · rw [decompressScript, if_neg (by omega), if_neg (by omega), if_neg (by omega),
            if_pos tag, List.take_take, Nat.min_self, shifted,
            keys.decompress_compressed _ (by simp [length]) key0 valid]
          simp only [Option.map_some, Option.some.injEq]
          apply frame_eq (by simp [length])
          · intro i small
            simp only [List.length_cons, List.length_nil] at small
            interval_cases i
            simpa using op0
          · intro i small
            simp only [List.length_cons, List.length_nil] at small
            interval_cases i
            simpa using op66
      · cases found
    · cases found

theorem compress_spec {keys : PubKeyCodec} {script : CScript} {compr : List UInt8}
    (compressed : compress keys script = some compr) : Compressed keys script compr := by
  unfold compress at compressed
  split at compressed
  · rename_i keyID found
    cases compressed
    exact compress_keyID found
  · split at compressed
    · rename_i scriptID found
      cases compressed
      exact compress_scriptID found
    · split at compressed
      · rename_i pubkey found
        exact compress_pubKey found compr compressed
      · cases compressed

/-- `CScriptCompressor` reads back every script of at most `MAX_SCRIPT_SIZE` bytes. -/
theorem reads_scriptCompressor (keys : PubKeyCodec) {script : CScript}
    (fits : script.length ≤ MAX_SCRIPT_SIZE) :
    Reads (CScriptCompressor.unserialize keys) (CScriptCompressor.serialize keys script)
      script := by
  unfold CScriptCompressor.serialize
  split
  · rename_i compr compressed
    obtain ⟨code, body, rfl, small, length, back⟩ := (compress_spec compressed).shape
    have single : writeVarInt code.toNat = [code] := by
      rw [writeVarInt_of_lt (by omega) (by simp only [nSpecialScripts] at small; omega)]
      simp
    apply Reads.of_eq _ (show [code] ++ (body ++ []) = code :: body by simp)
    rw [← single]
    apply Reads.bind (reads_writeVarInt (by omega))
    rw [Int.toNat_natCast, if_pos small, ← length]
    apply Reads.bind (reads_take body)
    rw [back, Option.getD_some]
    exact reads_pure script
  · apply Reads.bind (reads_writeVarInt (by omega))
    have size : ((script.length : Int) + (nSpecialScripts : Int)).toNat =
        script.length + nSpecialScripts := by omega
    have large : ¬ (script.length + nSpecialScripts < nSpecialScripts) := by omega
    have within : ¬ (script.length + nSpecialScripts - nSpecialScripts > MAX_SCRIPT_SIZE) := by
      omega
    rw [size, if_neg large, if_neg within, Nat.add_sub_cancel]
    exact reads_take script

/--
`CTxOutCompressor` reads back every output with an amount of 64 bits at least
zero and a script of at most `MAX_SCRIPT_SIZE` bytes.
-/
theorem reads_txOutCompressor (keys : PubKeyCodec) {txout : CTxOut}
    (nonneg : 0 ≤ txout.nValue) (bounded : txout.nValue < 2 ^ 64)
    (fits : txout.scriptPubKey.length ≤ MAX_SCRIPT_SIZE) :
    Reads (CTxOutCompressor.unserialize keys) (CTxOutCompressor.serialize keys txout)
      txout := by
  unfold CTxOutCompressor.serialize CTxOutCompressor.unserialize
  rw [← List.append_nil (CScriptCompressor.serialize keys txout.scriptPubKey)]
  apply Reads.bind (reads_writeVarInt (by omega))
  apply Reads.bind (reads_scriptCompressor keys fits)
  have amount : ((decompressAmount
      ((compressAmount (txout.nValue % 2 ^ 64).toNat : Nat) : Int).toNat : Nat) : Int) =
      txout.nValue := by
    rw [Int.toNat_natCast, decompressAmount_compressAmount, Int.emod_eq_of_lt nonneg bounded,
      Int.toNat_of_nonneg nonneg]
  rw [amount]
  exact reads_pure txout

/--
`CTxOutCompressor` restores every output in `MoneyRange` whose script has at
most `MAX_SCRIPT_SIZE` bytes; the amount code of such an output stays within
64 bits and decompresses to the amount; and each special script form is
stored as a tag and a payload that decompress to the script byte for byte.
-/
theorem txOutCompressor_roundTrip (keys : PubKeyCodec) :
    (∀ txout : CTxOut, moneyRange txout.nValue = true →
      txout.scriptPubKey.length ≤ MAX_SCRIPT_SIZE →
      Reads (CTxOutCompressor.unserialize keys) (CTxOutCompressor.serialize keys txout) txout) ∧
    (∀ n : Nat, moneyRange n = true →
      compressAmount n < 2 ^ 64 ∧ decompressAmount (compressAmount n) = n) ∧
    ∀ script compr, compress keys script = some compr →
      ∃ code body, compr = code :: body ∧ code.toNat < nSpecialScripts ∧
        decompressScript keys code.toNat body = some script := by
  refine ⟨fun txout inRange fits => ?_, fun n inRange => ?_, fun script compr compressed => ?_⟩
  · have bounds := inRange
    simp only [moneyRange, Bool.and_eq_true, decide_eq_true_eq] at bounds
    exact reads_txOutCompressor keys bounds.1 (by unfold MAX_MONEY at bounds; omega) fits
  · have bounds := inRange
    simp only [moneyRange, Bool.and_eq_true, decide_eq_true_eq] at bounds
    exact ⟨compressAmount_lt_of_le_max bounds.2, decompressAmount_compressAmount n⟩
  · obtain ⟨code, body, shape, tag, -, restored⟩ := (compress_spec compressed).shape
    exact ⟨code, body, shape, tag, restored⟩

/-- A pay-to-key-hash output of 100 coins. -/
def payToKeyHashOut : CTxOut where
  nValue := 100 * 100000000
  scriptPubKey := [OP_DUP, OP_HASH160, 20] ++ List.replicate 20 0xab ++ [OP_EQUALVERIFY, OP_CHECKSIG]

theorem txOutCompressor_roundTrip_payToKeyHash :
    moneyRange payToKeyHashOut.nValue = true ∧
      payToKeyHashOut.scriptPubKey.length ≤ MAX_SCRIPT_SIZE ∧
      Reads (CTxOutCompressor.unserialize PubKeyCodec.rejectAll)
        (CTxOutCompressor.serialize PubKeyCodec.rejectAll payToKeyHashOut) payToKeyHashOut :=
  ⟨by decide, by decide,
    (txOutCompressor_roundTrip PubKeyCodec.rejectAll).1 payToKeyHashOut (by decide) (by decide)⟩

end Dogecoin.Coins
