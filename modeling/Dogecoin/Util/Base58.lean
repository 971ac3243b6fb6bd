import Dogecoin.Lib.BaseConversion
import Dogecoin.Lib.ExceptSpec
import Dogecoin.Serialize.Transaction
import Dogecoin.Util.StrEncodings

/-!
# Base58 and Base58Check

`EncodeBase58` (base58.cpp) writes a byte vector as one `'1'` for each
leading zero byte, followed by the base-58 digits of the rest read as a
big-endian number.  `DecodeBase58` reads such a string back, allowing
whitespace around it.  Both convert in place in a buffer sized by
`log(256) / log(58)` or its inverse, rounded up to `138 / 100` and
`733 / 1000`, with an `assert(carry == 0)` after every digit.
`EncodeBase58Check` appends four bytes of the hash of the vector, and
`DecodeBase58Check` checks and removes them.

The conversions are `BaseConversion.pushDigits`, and the buffers are large
enough: the assertion never fails, and decoding an encoding gives the vector
back (`base58_roundTrip`).  The decoder walks `str.c_str()` and so stops at
the first NUL of the string.  What it accepts is an encoding surrounded by
whitespace up to that NUL, and whatever follows the NUL is ignored
(`decodeBase58_accepts`, `decodeBase58_embedded_nul`).

Characters are bytes, and `isspace` is that of the "C" locale.  The buffers
`b256` and `b58` are kept least significant digit first, in the order the
carry loops walk them.
-/

namespace Dogecoin.Util

open BaseConversion ExceptSpec Dogecoin.Primitives

/-- `pszBase58`: all alphanumeric characters except for "0", "I", "O" and "l". -/
def pszBase58 : List UInt8 :=
  "123456789ABCDEFGHJKLMNPQRSTUVWXYZabcdefghijkmnopqrstuvwxyz".toList.map Char.toUInt8

/-- How `DecodeBase58` ends without a result. -/
inductive DecodeFault
  /-- `return false` -/
  | invalid
  /-- `assert(carry == 0)` fails -/
  | carry
deriving DecidableEq, Repr

/--
The `while (*psz && !isspace(*psz))` loop of `DecodeBase58` over the
characters from `psz` on, with `b256` least significant byte first: the
buffer, the watermark `length`, and the characters the loop stopped at.
-/
def decodeLoop (b256 : List Nat) (length : Nat) :
    List UInt8 → Except DecodeFault (List Nat × Nat × List UInt8)
  | [] => .ok (b256, length, [])
  | c :: psz =>
      if isspace c then .ok (b256, length, c :: psz)
      else
        -- Decode base58 character
        match pszBase58.idxOf? c with
        | none => .error .invalid
        | some ch =>
            -- Apply "b256 = b256 * 58 + ch"
            let pass := mulAdd 256 58 b256 ch 0 length
            if pass.2.1 = 0 then decodeLoop pass.1 pass.2.2 psz else .error .carry

/-- `DecodeBase58`: the bytes that `str` stands for, or why it returned false or aborted. -/
def decodeBase58 (str : List UInt8) : Except DecodeFault (List UInt8) := do
  -- Skip leading spaces
  let psz := (cStr str).dropWhile isspace
  -- Skip and count leading '1's
  let zeroes := (psz.takeWhile (· == 49)).length
  let psz := psz.dropWhile (· == 49)
  -- Allocate enough space in big-endian base256 representation
  let size := psz.length * 733 / 1000 + 1
  let decoded ← decodeLoop (List.replicate size 0) 0 psz
  -- Skip trailing spaces
  if !(decoded.2.2.dropWhile isspace).isEmpty then throw .invalid
  -- Skip leading zeroes in b256
  let digits := (decoded.1.reverse.drop (size - decoded.2.1)).dropWhile (· == 0)
  pure (List.replicate zeroes 0 ++ digits.map UInt8.ofNat)

/-- `EncodeBase58`: the string for `vch`, `none` where `assert(carry == 0)` fails. -/
def encodeBase58 (vch : List UInt8) : Option (List UInt8) := do
  -- Skip & count leading zeroes
  let zeroes := (vch.takeWhile (· == 0)).length
  let pbegin := vch.dropWhile (· == 0)
  -- Allocate enough space in big-endian base58 representation
  let size := pbegin.length * 138 / 100 + 1
  -- Process the bytes: "b58 = b58 * 256 + ch" for each
  let encoded ← pushDigits 58 256 (List.replicate size 0) 0 (pbegin.map UInt8.toNat)
  -- Skip leading zeroes in base58 result
  let digits := (encoded.1.reverse.drop (size - encoded.2)).dropWhile (· == 0)
  -- Translate the result into a string
  pure (List.replicate zeroes 49 ++ digits.map fun digit => pszBase58.getD digit 0)

/-- The four checksum bytes: the first bytes of `Hash` in memory. -/
def checksum (Hash : List UInt8 → UInt256) (vch : List UInt8) : List UInt8 :=
  (writeUInt256 (Hash vch)).take 4

/-- `EncodeBase58Check`, with `Hash` for the double SHA-256 of a byte range. -/
def encodeBase58Check (Hash : List UInt8 → UInt256) (vchIn : List UInt8) : Option (List UInt8) :=
  -- add 4-byte hash check to the end
  encodeBase58 (vchIn ++ checksum Hash vchIn)

/-- `DecodeBase58Check`. -/
def decodeBase58Check (Hash : List UInt8 → UInt256) (str : List UInt8) :
    Except DecodeFault (List UInt8) := do
  let vchRet ← decodeBase58 str
  if vchRet.length < 4 then throw .invalid
  -- re-calculate the checksum, insure it matches the included 4-byte checksum
  if checksum Hash (vchRet.take (vchRet.length - 4)) ≠ vchRet.drop (vchRet.length - 4) then
    throw .invalid
  pure (vchRet.take (vchRet.length - 4))

/-! ## The alphabet -/

/-- The alphabet as the bytes of its characters. -/
theorem pszBase58_eq : pszBase58 = [49, 50, 51, 52, 53, 54, 55, 56, 57, 65, 66, 67, 68, 69, 70, 71, 72, 74, 75,
    76, 77, 78, 80, 81, 82, 83, 84, 85, 86, 87, 88, 89, 90, 97, 98, 99, 100, 101, 102, 103, 104, 105, 106, 107,
    109, 110, 111, 112, 113, 114, 115, 116, 117, 118, 119, 120, 121, 122] := by
  rfl

theorem pszBase58_length : pszBase58.length = 58 := by
  rw [pszBase58_eq]
  rfl

/-- Each digit's character is found back as that digit by `strchr`. -/
theorem idxOf?_getD : ∀ d < 58, pszBase58.idxOf? (pszBase58.getD d 0) = some d := by
  rw [pszBase58_eq]
  decide

/-- A digit's character is not a NUL nor a space, and it is `'1'` for the digit zero only. -/
theorem getD_char : ∀ d < 58, pszBase58.getD d 0 ≠ 0 ∧ isspace (pszBase58.getD d 0) = false ∧
    (pszBase58.getD d 0 = 49 ↔ d = 0) := by
  rw [pszBase58_eq]
  decide

/-- What `strchr` finds is the character of a digit. -/
theorem eq_getD_of_idxOf? {c : UInt8} {ch : Nat} (found : pszBase58.idxOf? c = some ch) :
    ch < 58 ∧ c = pszBase58.getD ch 0 := by
  obtain ⟨inside, at_ch, -⟩ := List.idxOf?_eq_some_iff.mp found
  refine ⟨pszBase58_length ▸ inside, ?_⟩
  rw [List.getD_eq_getElem?_getD, List.getElem?_eq_getElem inside, Option.getD_some, at_ch]

/-! ## Numbers and their digits -/

/-- Digits that do not start with a zero, most significant first, are the digits of their number. -/
theorem digits_ofDigits_reverse {b : Nat} (hb : 1 < b) {digits : List Nat}
    (small : ∀ d ∈ digits, d < b) (top : ∀ d ∈ digits.head?, d ≠ 0) :
    Nat.digits b (Nat.ofDigits b digits.reverse) = digits.reverse := by
  apply Nat.digits_ofDigits b hb
  · exact fun d member => small d (List.mem_reverse.mp member)
  · intro nonempty
    rw [List.getLast_reverse]
    exact top _ (List.head?_eq_some_head _)

/-- The number that bytes stand for, most significant first. -/
def bytesValue (bytes : List UInt8) : Nat :=
  Nat.ofDigits 256 (bytes.map UInt8.toNat).reverse

theorem bytesValue_lt (bytes : List UInt8) : bytesValue bytes < 256 ^ bytes.length := by
  have below := @Nat.ofDigits_lt_base_pow_length 256 (bytes.map UInt8.toNat).reverse
    (by decide) (by simpa using fun (a : UInt8) _ => a.toNat_lt)
  rw [bytesValue]
  simpa using below

/-- Bytes that do not start with a zero are the digits of their number. -/
theorem digits_bytesValue {bytes : List UInt8} (head : ∀ b ∈ bytes.head?, b ≠ 0) :
    Nat.digits 256 (bytesValue bytes) = (bytes.map UInt8.toNat).reverse := by
  apply Nat.digits_ofDigits 256 (by decide)
  · simpa using fun (a : UInt8) _ => a.toNat_lt
  · intro nonempty
    rw [List.getLast_reverse, List.head_map]
    intro zero
    apply head _ (List.head?_eq_some_head _)
    exact UInt8.toNat_inj.mp (by rw [zero]; rfl)

/-- The digits of a number, most significant first, as bytes. -/
theorem bytesValue_digits (value : Nat) :
    ((Nat.digits 256 value).reverse.map UInt8.ofNat).map UInt8.toNat = (Nat.digits 256 value).reverse ∧
      bytesValue ((Nat.digits 256 value).reverse.map UInt8.ofNat) = value ∧
      ∀ b ∈ ((Nat.digits 256 value).reverse.map UInt8.ofNat).head?, b ≠ 0 := by
  have small : ∀ d ∈ Nat.digits 256 value, d < 256 := fun d member => Nat.digits_lt_base (by decide) member
  have bytes : ((Nat.digits 256 value).reverse.map UInt8.ofNat).map UInt8.toNat =
      (Nat.digits 256 value).reverse := by
    rw [List.map_map]
    refine (List.map_congr_left fun d member => ?_).trans (List.map_id _)
    exact UInt8.toNat_ofNat_of_lt' (small d (List.mem_reverse.mp member))
  refine ⟨bytes, by rw [bytesValue, bytes, List.reverse_reverse, Nat.ofDigits_digits], ?_⟩
  intro b member zero
  rcases Nat.eq_zero_or_pos value with rfl | positive
  · simp at member
  · have nonempty : Nat.digits 256 value ≠ [] := Nat.digits_ne_nil_iff_ne_zero.mpr positive.ne'
    have top := Nat.getLast_digit_ne_zero 256 positive.ne'
    have top_small := small _ (List.getLast_mem nonempty)
    rw [List.head?_map, List.head?_reverse, List.getLast?_eq_some_getLast nonempty, Option.map_some,
      Option.mem_some_iff] at member
    apply top
    have read := congrArg UInt8.toNat (member.trans zero)
    rwa [UInt8.toNat_ofNat_of_lt' top_small] at read

/-- Leading copies of `a`, and after them something else. -/
theorem takeWhile_replicate_append {a : UInt8} (n : Nat) {rest : List UInt8}
    (other : ∀ b ∈ rest.head?, b ≠ a) :
    (List.replicate n a ++ rest).takeWhile (· == a) = List.replicate n a ∧
      (List.replicate n a ++ rest).dropWhile (· == a) = rest := by
  induction n with
  | zero =>
      cases rest with
      | nil => exact ⟨rfl, rfl⟩
      | cons b rest =>
          have different : (b == a) = false := by simpa using other b rfl
          simp [different]
  | succ n more =>
      simp [List.replicate_succ, more.1, more.2]

/-! ## Encoding -/

/--
What `EncodeBase58` makes of zero bytes followed by bytes that do not start
with a zero: a `'1'` for each zero, and the base-58 digits of the number that
the rest stands for.  The buffer of `138 / 100` digits a byte holds them, so
the assertion does not fail.
-/
theorem encodeBase58_eq (zeroes : Nat) {rest : List UInt8} (head : ∀ b ∈ rest.head?, b ≠ 0) :
    encodeBase58 (List.replicate zeroes 0 ++ rest) =
      some (List.replicate zeroes 49 ++
        (Nat.digits 58 (bytesValue rest)).reverse.map (pszBase58.getD · 0)) := by
  obtain ⟨lead, after⟩ := takeWhile_replicate_append zeroes head
  have value : (rest.map UInt8.toNat).foldl (fun v x => 256 * v + x) 0 = bytesValue rest := by
    rw [foldl_horner, Nat.zero_mul, Nat.zero_add, bytesValue]
  have fits : (rest.map UInt8.toNat).foldl (fun v x => 256 * v + x) 0 <
      58 ^ (rest.length * 138 / 100 + 1) := by
    rw [value]
    calc bytesValue rest < 256 ^ rest.length := bytesValue_lt rest
      _ < 58 ^ (rest.length * 138 / 100 + 1) :=
        pow_lt_pow_div_succ (by decide) (by decide) (by decide) rest.length
  obtain ⟨b58, length, pushed, holds⟩ :=
    pushDigits_holds (by decide) (by decide) _ _ _ _ (holds_replicate_zero (by decide) _) fits
  have digits := holds.extract (by decide)
  rw [value] at digits
  unfold encodeBase58
  rw [lead, after, List.length_replicate]
  simp only [pushed, digits, Option.bind_eq_bind, Option.bind_some, Option.pure_def]

/-! ## Decoding -/

/-- The decoding loop over the characters of base-58 digits, up to a space or the end. -/
theorem decodeLoop_digits {rest : List UInt8} (stops : ∀ c ∈ rest.head?, isspace c = true) :
    ∀ (digits b256 : List Nat) (length : Nat), (∀ d ∈ digits, d < 58) →
      decodeLoop b256 length (digits.map (pszBase58.getD · 0) ++ rest) =
        match pushDigits 256 58 b256 length digits with
        | some pushed => .ok (pushed.1, pushed.2, rest)
        | none => .error .carry
  | [], b256, length, _ => by
      cases rest with
      | nil => rfl
      | cons c rest => simp [decodeLoop, pushDigits, stops c rfl]
  | d :: digits, b256, length, small => by
      have digit := small d List.mem_cons_self
      simp only [List.map_cons, List.cons_append, decodeLoop, (getD_char d digit).2.1,
        idxOf?_getD d digit, pushDigits, Bool.false_eq_true, if_false]
      by_cases spent : (mulAdd 256 58 b256 d 0 length).2.1 = 0
      · rw [if_pos spent, if_pos spent]
        exact decodeLoop_digits stops digits _ _ fun e member => small e (List.mem_cons_of_mem d member)
      · rw [if_neg spent, if_neg spent]

/-- What the decoding loop got through: characters of base-58 digits, up to a space or the end. -/
theorem decodeLoop_eq_ok : ∀ (psz : List UInt8) (b256 : List Nat) (length : Nat)
    {b256' : List Nat} {length' : Nat} {rest : List UInt8},
    decodeLoop b256 length psz = .ok (b256', length', rest) →
      ∃ digits, psz = digits.map (pszBase58.getD · 0) ++ rest ∧ (∀ d ∈ digits, d < 58) ∧
        (∀ c ∈ rest.head?, isspace c = true) ∧
        pushDigits 256 58 b256 length digits = some (b256', length')
  | [], b256, length, _, _, _, decoded => by
      simp only [decodeLoop, Except.ok.injEq, Prod.mk.injEq] at decoded
      obtain ⟨rfl, rfl, rfl⟩ := decoded
      exact ⟨[], rfl, nofun, nofun, rfl⟩
  | c :: psz, b256, length, _, _, _, decoded => by
      by_cases space : isspace c = true
      · simp only [decodeLoop, space, if_true, Except.ok.injEq, Prod.mk.injEq] at decoded
        obtain ⟨rfl, rfl, rfl⟩ := decoded
        refine ⟨[], rfl, nofun, fun c' first => ?_, rfl⟩
        simp only [List.head?_cons, Option.mem_some_iff] at first
        rw [← first]
        exact space
      · cases found : pszBase58.idxOf? c with
        | none => simp [decodeLoop, space, found] at decoded
        | some ch =>
            obtain ⟨digit, rfl⟩ := eq_getD_of_idxOf? found
            by_cases spent : (mulAdd 256 58 b256 ch 0 length).2.1 = 0
            · simp only [decodeLoop, space, found, spent, Bool.false_eq_true, if_true]
                at decoded
              obtain ⟨digits, split, small, stops, pushed⟩ := decodeLoop_eq_ok psz _ _ decoded
              refine ⟨ch :: digits, by rw [split]; rfl, ?_, stops, ?_⟩
              · intro d member
                rcases List.mem_cons.mp member with rfl | later
                · exact digit
                · exact small d later
              · rw [pushDigits, if_pos spent]
                exact pushed
            · simp only [decodeLoop, space, found, spent, if_false] at decoded
              cases decoded

/--
The decoding loop never fails its assertion when the buffer has room for the
characters left: each of them at most multiplies `value + 1` by 58.
-/
theorem decodeLoop_ne_carry {size : Nat} : ∀ (psz : List UInt8) (b256 : List Nat) (length value : Nat),
    Holds 256 size b256 length value → (value + 1) * 58 ^ psz.length ≤ 256 ^ size →
      decodeLoop b256 length psz ≠ .error .carry
  | [], _, _, _, _, _ => by simp [decodeLoop]
  | c :: psz, b256, length, value, holds, room => by
      by_cases space : isspace c = true
      · simp [decodeLoop, space]
      · cases found : pszBase58.idxOf? c with
        | none => simp [decodeLoop, space, found]
        | some ch =>
            obtain ⟨digit, -⟩ := eq_getD_of_idxOf? found
            rw [List.length_cons] at room
            have grown : 58 * value + ch + 1 ≤ 58 * (value + 1) := by omega
            have step : (58 * value + ch + 1) * 58 ^ psz.length ≤ (value + 1) * 58 ^ (psz.length + 1) :=
              calc (58 * value + ch + 1) * 58 ^ psz.length
                  ≤ 58 * (value + 1) * 58 ^ psz.length := Nat.mul_le_mul_right _ grown
                _ = (value + 1) * 58 ^ (psz.length + 1) := by rw [pow_succ]; ring
            have least := Nat.le_mul_of_pos_right (58 * value + ch + 1)
              (Nat.pow_pos (show 0 < 58 by decide) : 0 < 58 ^ psz.length)
            obtain ⟨spent, holds'⟩ := holds.pass (by decide) ch
              (show 58 * value + ch < 256 ^ size by omega)
            simp only [decodeLoop, space, found, spent, if_true]
            exact decodeLoop_ne_carry psz _ _ _ holds' (le_trans step room)

/-- A base-58 digit holds less than `733 / 1000` of a byte: the ratio `DecodeBase58` sizes its buffer by. -/
theorem pow_58_lt_pow_256 : 58 ^ 1000 < 256 ^ 733 := by
  -- five blocks `58 ^ 200 < 256 ^ 146 * 16` leave `16 ^ 5 < 256 ^ 3` to spare; the base is
  -- kept abstract so that no power past the evaluation threshold is unfolded
  rw [show 733 = 146 * 5 + 3 from rfl]
  generalize byte : 256 = b
  have block : 58 ^ 200 < b ^ 146 * 16 := by rw [← byte]; decide
  have spare : 16 ^ 5 < b ^ 3 := by rw [← byte]; decide
  have unit : (b ^ 146) ^ 5 ≠ 0 := pow_ne_zero _ (pow_ne_zero _ (by rw [← byte]; decide))
  calc 58 ^ 1000 = (58 ^ 200) ^ 5 := by rw [← Nat.pow_mul]
    _ < (b ^ 146 * 16) ^ 5 := Nat.pow_lt_pow_left block (by decide)
    _ = (b ^ 146) ^ 5 * 16 ^ 5 := Nat.mul_pow _ _ _
    _ < (b ^ 146) ^ 5 * b ^ 3 := Nat.mul_lt_mul_of_pos_left spare (Nat.pos_of_ne_zero unit)
    _ = b ^ (146 * 5) * b ^ 3 := by rw [← pow_mul]
    _ = b ^ (146 * 5 + 3) := (pow_add b (146 * 5) 3).symm

/-- `DecodeBase58` never fails its assertion: what it does not decode it returns false on. -/
theorem decodeBase58_ne_carry (str : List UInt8) : decodeBase58 str ≠ .error .carry := by
  intro aborted
  unfold decodeBase58 at aborted
  dsimp only at aborted
  generalize ((cStr str).dropWhile isspace).dropWhile (· == 49) = psz at aborted
  cases loop : decodeLoop (List.replicate (psz.length * 733 / 1000 + 1) 0) 0 psz with
  | error e =>
      rw [loop, error_bind] at aborted
      cases aborted
      have room : (0 + 1) * 58 ^ psz.length ≤ 256 ^ (psz.length * 733 / 1000 + 1) := by
        rw [Nat.zero_add, Nat.one_mul]
        exact (pow_lt_pow_div_succ (by decide) (by decide) pow_58_lt_pow_256 psz.length).le
      exact decodeLoop_ne_carry psz _ _ _ (holds_replicate_zero (by decide) _) room loop
  | ok decoded =>
      rw [loop, ok_bind] at aborted
      split at aborted
      · cases aborted
      · cases aborted

/-- A list is its leading copies of `a` followed by the rest, which does not start with `a`. -/
theorem eq_replicate_append_dropWhile (a : UInt8) (l : List UInt8) :
    l = List.replicate (l.takeWhile (· == a)).length a ++ l.dropWhile (· == a) ∧
      ∀ b ∈ (l.dropWhile (· == a)).head?, b ≠ a := by
  constructor
  · have lead : l.takeWhile (· == a) = List.replicate (l.takeWhile (· == a)).length a :=
      List.eq_replicate_iff.mpr ⟨rfl, fun b member => by simpa using List.mem_takeWhile_imp member⟩
    rw [← lead, List.takeWhile_append_dropWhile]
  · intro b member same
    have first := fun nonempty => @List.head_dropWhile_not _ (· == a) l nonempty
    generalize l.dropWhile (· == a) = rest at member first
    cases rest with
    | nil => cases member
    | cons b' rest =>
        rw [List.head?_cons, Option.mem_some_iff] at member
        have kept := first (List.cons_ne_nil _ _)
        rw [List.head_cons, member, same] at kept
        simp at kept

/--
`DecodeBase58` on `'1'`s followed by the characters of digits that do not
start with a zero: a zero byte for each `'1'`, and the bytes of the number
the digits stand for.  The buffer of `733 / 1000` bytes a character holds it,
so the assertion does not fail.
-/
theorem decodeBase58_canonical (zeroes : Nat) {digits : List Nat} (small : ∀ d ∈ digits, d < 58)
    (top : ∀ d ∈ digits.head?, d ≠ 0) :
    decodeBase58 (List.replicate zeroes 49 ++ digits.map (pszBase58.getD · 0)) =
      .ok (List.replicate zeroes 0 ++
        (Nat.digits 256 (Nat.ofDigits 58 digits.reverse)).reverse.map UInt8.ofNat) := by
  have chars_head : ∀ c ∈ (digits.map (pszBase58.getD · 0)).head?, c ≠ 49 := by
    intro c member
    rw [List.head?_map] at member
    obtain ⟨d, first, rfl⟩ := Option.mem_map.mp member
    have digit := small d (List.mem_of_mem_head? first)
    exact fun one => top d first ((getD_char d digit).2.2.mp one)
  have whole : cStr (List.replicate zeroes 49 ++ digits.map (pszBase58.getD · 0)) =
      List.replicate zeroes 49 ++ digits.map (pszBase58.getD · 0) := by
    apply List.takeWhile_eq_self_iff.mpr
    intro c member
    rcases List.mem_append.mp member with one | char
    · rw [List.eq_of_mem_replicate one]; rfl
    · obtain ⟨d, inside, rfl⟩ := List.mem_map.mp char
      simpa using (getD_char d (small d inside)).1
  have unspaced : (List.replicate zeroes 49 ++ digits.map (pszBase58.getD · 0)).dropWhile isspace =
      List.replicate zeroes 49 ++ digits.map (pszBase58.getD · 0) := by
    apply dropWhile_of_head
    intro c member
    cases zeroes with
    | zero =>
        rw [List.replicate_zero, List.nil_append, List.head?_map] at member
        obtain ⟨d, first, rfl⟩ := Option.mem_map.mp member
        exact (getD_char d (small d (List.mem_of_mem_head? first))).2.1
    | succ zeroes =>
        rw [List.replicate_succ, List.cons_append, List.head?_cons, Option.mem_some_iff] at member
        rw [← member]
        rfl
  obtain ⟨ones, chars⟩ := takeWhile_replicate_append zeroes chars_head
  have value : digits.foldl (fun v x => 58 * v + x) 0 = Nat.ofDigits 58 digits.reverse := by
    rw [foldl_horner, Nat.zero_mul, Nat.zero_add]
  have fits : digits.foldl (fun v x => 58 * v + x) 0 <
      256 ^ ((digits.map (pszBase58.getD · 0)).length * 733 / 1000 + 1) := by
    rw [value, List.length_map]
    calc Nat.ofDigits 58 digits.reverse < 58 ^ digits.length := by
          simpa using @Nat.ofDigits_lt_base_pow_length 58 digits.reverse (by decide)
            fun d member => small d (List.mem_reverse.mp member)
      _ < 256 ^ (digits.length * 733 / 1000 + 1) :=
          pow_lt_pow_div_succ (by decide) (by decide) pow_58_lt_pow_256 digits.length
  obtain ⟨b256, length, pushed, holds⟩ :=
    pushDigits_holds (by decide) (by decide) _ _ _ _ (holds_replicate_zero (by decide) _) fits
  have loop := @decodeLoop_digits [] nofun digits
    (List.replicate ((digits.map (pszBase58.getD · 0)).length * 733 / 1000 + 1) 0) 0 small
  rw [List.append_nil, pushed] at loop
  have extracted := holds.extract (by decide)
  rw [value] at extracted
  unfold decodeBase58
  simp only [whole, unspaced, ones, chars, List.length_replicate, loop, ok_bind, extracted]
  rfl

/-- Decoding an encoding gives the bytes back. -/
theorem decodeBase58_encodeBase58 (vch : List UInt8) :
    ∃ enc, encodeBase58 vch = some enc ∧ decodeBase58 enc = .ok vch := by
  obtain ⟨split, head⟩ := eq_replicate_append_dropWhile 0 vch
  generalize (vch.takeWhile (· == 0)).length = zeroes at split
  generalize vch.dropWhile (· == 0) = rest at split head
  subst split
  refine ⟨_, encodeBase58_eq zeroes head, ?_⟩
  have small : ∀ d ∈ (Nat.digits 58 (bytesValue rest)).reverse, d < 58 :=
    fun d member => Nat.digits_lt_base (by decide) (List.mem_reverse.mp member)
  rw [decodeBase58_canonical zeroes small (head_digits_reverse 58 _), List.reverse_reverse,
    Nat.ofDigits_digits, digits_bytesValue head, List.reverse_reverse, List.map_map]
  simp [Function.comp_def, UInt8.ofNat_toNat]

/-- Decoding a checked encoding gives the bytes back: the four checksum bytes are found again. -/
theorem decodeBase58Check_encodeBase58Check (Hash : List UInt8 → UInt256) (vchIn : List UInt8) :
    ∃ enc, encodeBase58Check Hash vchIn = some enc ∧ decodeBase58Check Hash enc = .ok vchIn := by
  obtain ⟨enc, encoded, decoded⟩ := decodeBase58_encodeBase58 (vchIn ++ checksum Hash vchIn)
  have four : (checksum Hash vchIn).length = 4 := by
    simp [checksum, writeUInt256, LittleEndian.length_leBytes]
  refine ⟨enc, encoded, ?_⟩
  unfold decodeBase58Check
  simp [decoded, ok_bind, four]

/-- `DecodeBase58Check` never fails an assertion either: it only adds checks to `DecodeBase58`. -/
theorem decodeBase58Check_ne_carry (Hash : List UInt8 → UInt256) (str : List UInt8) :
    decodeBase58Check Hash str ≠ .error .carry := by
  unfold decodeBase58Check
  cases decoded : decodeBase58 str with
  | error fault =>
      rw [error_bind]
      intro same
      cases same
      exact decodeBase58_ne_carry str decoded
  | ok vchRet =>
      rw [ok_bind]
      dsimp only
      split
      · exact nofun
      · split
        · exact nofun
        · exact nofun

/--
What `DecodeBase58` accepts: an encoding of the result, with whitespace before
and after it, in the string up to its first NUL.
-/
theorem decodeBase58_accepts {str vch : List UInt8} (decoded : decodeBase58 str = .ok vch) :
    ∃ lead enc trail, (∀ c ∈ lead, isspace c = true) ∧ (∀ c ∈ trail, isspace c = true) ∧
      encodeBase58 vch = some enc ∧ cStr str = lead ++ enc ++ trail := by
  unfold decodeBase58 at decoded
  rw [bind_eq_ok] at decoded
  obtain ⟨⟨b256, length, rest⟩, loop, finish⟩ := decoded
  dsimp only at finish
  split at finish
  · cases finish
  rename_i trailing
  have spaces : (cStr str).takeWhile isspace ++ (cStr str).dropWhile isspace = cStr str :=
    List.takeWhile_append_dropWhile
  obtain ⟨ones, not_one⟩ := eq_replicate_append_dropWhile 49 ((cStr str).dropWhile isspace)
  generalize (cStr str).dropWhile isspace = psz at loop finish spaces ones not_one
  generalize (psz.takeWhile (· == 49)).length = zeroes at finish ones
  generalize psz.dropWhile (· == 49) = chars at loop finish ones not_one
  obtain ⟨digits, split, small, stops, pushed⟩ := decodeLoop_eq_ok _ _ _ loop
  subst split
  have top : ∀ d ∈ digits.head?, d ≠ 0 := by
    intro d first zero
    cases digits with
    | nil => cases first
    | cons d' digits =>
        rw [List.head?_cons, Option.mem_some_iff] at first
        subst first zero
        exact not_one _ rfl (by decide)
  have value : digits.foldl (fun v x => 58 * v + x) 0 = Nat.ofDigits 58 digits.reverse := by
    rw [foldl_horner, Nat.zero_mul, Nat.zero_add]
  have fits : digits.foldl (fun v x => 58 * v + x) 0 <
      256 ^ ((digits.map (pszBase58.getD · 0) ++ rest).length * 733 / 1000 + 1) := by
    rw [value]
    calc Nat.ofDigits 58 digits.reverse < 58 ^ digits.length := by
          simpa using @Nat.ofDigits_lt_base_pow_length 58 digits.reverse (by decide)
            fun d member => small d (List.mem_reverse.mp member)
      _ ≤ 58 ^ (digits.map (pszBase58.getD · 0) ++ rest).length :=
          Nat.pow_le_pow_right (by decide) (by simp)
      _ < _ := pow_lt_pow_div_succ (by decide) (by decide) pow_58_lt_pow_256 _
  obtain ⟨b256', length', pushed', holds⟩ :=
    pushDigits_holds (by decide) (by decide) _ _ _ _ (holds_replicate_zero (by decide) _) fits
  rw [pushed, Option.some.injEq, Prod.mk.injEq] at pushed'
  obtain ⟨rfl, rfl⟩ := pushed'
  have extracted := holds.extract (by decide)
  rw [value] at extracted
  rw [extracted, pure_eq_ok, Except.ok.injEq] at finish
  subst finish
  refine ⟨(cStr str).takeWhile isspace, List.replicate zeroes 49 ++ digits.map (pszBase58.getD · 0),
    rest, fun c member => List.mem_takeWhile_imp member, ?_, ?_, ?_⟩
  · simpa using trailing
  · obtain ⟨-, bytes_value, head⟩ := bytesValue_digits (Nat.ofDigits 58 digits.reverse)
    rw [encodeBase58_eq zeroes head, bytes_value, digits_ofDigits_reverse (by decide) small top,
      List.reverse_reverse]
  · rw [List.append_assoc, List.append_assoc, ← ones, spaces]

/--
The two characters `"2\0"`: the decoder stops at the NUL and returns the byte
`1`, whose encoding is `"2"`, though the NUL is no whitespace around it.
-/
theorem decodeBase58_embedded_nul :
    decodeBase58 [50, 0] = .ok [1] ∧ encodeBase58 [1] = some [50] ∧
      ¬ ∃ lead trail, (∀ c ∈ lead, isspace c = true) ∧ (∀ c ∈ trail, isspace c = true) ∧
        [50, 0] = lead ++ [50] ++ trail := by
  refine ⟨by decide, by decide, ?_⟩
  rintro ⟨lead, trail, lead_spaces, trail_spaces, split⟩
  cases lead with
  | nil =>
      simp only [List.nil_append, List.singleton_append, List.cons.injEq, true_and] at split
      subst split
      exact absurd (trail_spaces 0 (List.mem_singleton_self 0)) (by decide)
  | cons c lead =>
      simp only [List.cons_append, List.cons.injEq] at split
      obtain ⟨rfl, -⟩ := split
      exact absurd (lead_spaces 50 List.mem_cons_self) (by decide)

/--
Base58 and Base58Check round-trip every byte vector of fewer than `2 ^ 20` bytes,
neither decoder fails its assertion on any such string, and `DecodeBase58` accepts
only an encoding surrounded by whitespace, in the string up to its first NUL.  Below
that length the `int` sizes, lengths and counts of zeroes of the code stay far below
`2 ^ 31`, so the natural numbers of the model are the code's values.
-/
theorem base58_roundTrip :
    (∀ v : List UInt8, v.length < 2 ^ 20 → ∃ enc, encodeBase58 v = some enc ∧ decodeBase58 enc = .ok v) ∧
      (∀ Hash (v : List UInt8), v.length < 2 ^ 20 →
        ∃ enc, encodeBase58Check Hash v = some enc ∧ decodeBase58Check Hash enc = .ok v) ∧
      (∀ Hash (str : List UInt8), str.length < 2 ^ 20 →
        decodeBase58 str ≠ .error .carry ∧ decodeBase58Check Hash str ≠ .error .carry) ∧
      ∀ (str : List UInt8) v, str.length < 2 ^ 20 → decodeBase58 str = .ok v →
        ∃ lead enc trail, (∀ c ∈ lead, isspace c = true) ∧ (∀ c ∈ trail, isspace c = true) ∧
          encodeBase58 v = some enc ∧ cStr str = lead ++ enc ++ trail :=
  ⟨fun v _ => decodeBase58_encodeBase58 v, fun Hash v _ => decodeBase58Check_encodeBase58Check Hash v,
    fun Hash str _ => ⟨decodeBase58_ne_carry str, decodeBase58Check_ne_carry Hash str⟩,
    fun _ _ _ decoded => decodeBase58_accepts decoded⟩

/-- The bytes `00 01` encode and decode back, with and without the checksum. -/
theorem base58_roundTrip_twoBytes :
    (∃ enc, encodeBase58 [0, 1] = some enc ∧ decodeBase58 enc = .ok [0, 1]) ∧
      ∀ Hash, ∃ enc, encodeBase58Check Hash [0, 1] = some enc ∧ decodeBase58Check Hash enc = .ok [0, 1] :=
  ⟨base58_roundTrip.1 [0, 1] (by decide), fun Hash => base58_roundTrip.2.1 Hash [0, 1] (by decide)⟩

end Dogecoin.Util
