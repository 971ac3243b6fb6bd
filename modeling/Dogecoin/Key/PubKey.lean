import Dogecoin.Script.SignatureEncoding
import Dogecoin.Lib.ExceptSpec

/-!
# The lax DER parser of signatures

`ecdsa_signature_parse_der_lax` (pubkey.cpp) reads the signatures that
`CPubKey::Verify` and `CPubKey::CheckLowS` are given.  It accepts what the
blockchain held before BIP66: long-form lengths, zero padding, negative
integers and garbage after the sequence.  It copies `R` and `S`, without
their leading zeros, to the ends of the two halves of a 64-byte `tmpsig`,
and hands that to `secp256k1_ecdsa_signature_parse_compact`.

Every read `input[pos]` of the model goes through `readAt`, which fails with
`inputOutOfBounds` outside the input, and every copy through `memcpy`, which
fails where a range leaves the input or `tmpsig`.  No input makes the parser
fail, and each copy leaves the other half of `tmpsig` as it was.  On a
signature that `IsValidSignatureEncoding` accepts, without its hash type, the
parser returns 1 with the big-endian values of `R` and `S`, or with the zero
signature when one of them is not below the group order
(`parseDerLax_strictDer`, `ecdsaSignatureParseDerLax_safe`).

`libsecp256k1` is outside the model: `parseCompact` states what
`secp256k1_ecdsa_signature_parse_compact` computes, and the functions of the
curve that `Verify` and `CheckLowS` call are parameters.
-/

namespace Dogecoin.Key

open LittleEndian Dogecoin.Script Dogecoin.Primitives ExceptSpec

/-- An access of the parser outside the arrays it works on. -/
inductive ParseFault where
  /-- a read of `input` at or after `inputlen` -/
  | inputOutOfBounds
  /-- a `memcpy` into `tmpsig` that does not fit in its 64 bytes -/
  | tmpsigOutOfBounds
deriving DecidableEq, Repr

/-- `secp256k1_ecdsa_signature`: its two scalars. -/
structure Signature where
  r : Nat
  s : Nat
deriving DecidableEq, Repr

/-- The order of the secp256k1 group. -/
def order : Nat := 0xFFFFFFFFFFFFFFFFFFFFFFFFFFFFFFFEBAAEDCE6AF48A03BBFD25E8CD0364141

/-- The number whose big-endian bytes are `bytes`. -/
def beValue (bytes : List UInt8) : Nat :=
  leValue bytes.reverse

/--
`secp256k1_ecdsa_signature_parse_compact`: `r` and `s` are the big-endian
halves of the 64 bytes; where one of them is not below the order, the
signature is zeroed and the result is 0.
-/
def parseCompact (input64 : List UInt8) : Bool × Signature :=
  let r := beValue (input64.take 32)
  let s := beValue (input64.drop 32)
  if r < order ∧ s < order then (true, ⟨r, s⟩) else (false, ⟨0, 0⟩)

/-! ## The parser -/

/-- `input[pos]`. -/
def readAt (input : List UInt8) (pos : Nat) : Except ParseFault UInt8 :=
  if inside : pos < input.length then .ok input[pos] else .error .inputOutOfBounds

/-- `memcpy(tmpsig + offset, input + src, count)`. -/
def memcpy (tmpsig input : List UInt8) (offset src count : Nat) : Except ParseFault (List UInt8) :=
  if src + count > input.length then .error .inputOutOfBounds
  else if offset + count > tmpsig.length then .error .tmpsigOutOfBounds
  else .ok (tmpsig.take offset ++ (input.drop src).take count ++ tmpsig.drop (offset + count))

/--
`while (lenbyte > 0 && input[pos] == 0) { pos++; lenbyte--; }`; the loops
that drop the leading zeros of `R` and `S` are the same with `rpos`, `rlen`
and `spos`, `slen`.
-/
def skipZeroBytes (input : List UInt8) : Nat → Nat → Except ParseFault (Nat × Nat)
  | pos, 0 => .ok (pos, 0)
  | pos, lenbyte + 1 => do
      let byte ← readAt input pos
      if byte = 0 then skipZeroBytes input (pos + 1) lenbyte else pure (pos, lenbyte + 1)

/-- `while (lenbyte > 0) { rlen = (rlen << 8) + input[pos]; pos++; lenbyte--; }` -/
def readLengthBytes (input : List UInt8) : Nat → Nat → Nat → Except ParseFault (Nat × Nat)
  | rlen, pos, 0 => .ok (rlen, pos)
  | rlen, pos, lenbyte + 1 => do
      let byte ← readAt input pos
      readLengthBytes input ((rlen <<< 8) + byte.toNat) (pos + 1) lenbyte

/-- `sizeof(size_t)` on the 64-bit platforms the node is built for. -/
def SIZEOF_SIZE_T : Nat := 8

/--
The length of `R` or `S` from its length byte `lenbyte`, and the position
after the length bytes; `none` where the parser returns 0.  A long-form length
drops its leading zero bytes and must then fit in a `size_t`.
-/
def readLength (input : List UInt8) (pos lenbyte : Nat) : Except ParseFault (Option (Nat × Nat)) :=
  if lenbyte &&& 0x80 ≠ 0 then
    let lenbyte := lenbyte - 0x80
    if pos + lenbyte > input.length then pure none
    else do
      let (pos, lenbyte) ← skipZeroBytes input pos lenbyte
      if lenbyte ≥ SIZEOF_SIZE_T then pure none
      else do
        let (rlen, pos) ← readLengthBytes input 0 pos lenbyte
        pure (some (rlen, pos))
  else pure (some (lenbyte, pos))

/--
The integer tag byte and the integer length of `R` or `S` at `pos`: the
length and where the integer starts, when it fits in the input.
-/
def parseInteger (input : List UInt8) (pos : Nat) : Except ParseFault (Option (Nat × Nat)) :=
  if pos = input.length then pure none
  else do
    let tag ← readAt input pos
    if tag ≠ 0x02 then pure none
    else if pos + 1 = input.length then pure none
    else do
      let lenbyte ← readAt input (pos + 1)
      match ← readLength input (pos + 2) lenbyte.toNat with
      | none => pure none
      | some (len, pos) => pure (if len > input.length - pos then none else some (len, pos))

/--
The sequence tag byte and the sequence length bytes: where `R` starts.  The
sequence length is skipped, not compared with what follows.
-/
def parseSequence (input : List UInt8) : Except ParseFault (Option Nat) :=
  if 0 = input.length then pure none
  else do
    let tag ← readAt input 0
    if tag ≠ 0x30 then pure none
    else if 1 = input.length then pure none
    else do
      let lenbyte ← readAt input 1
      if lenbyte.toNat &&& 0x80 ≠ 0 then
        pure (if 2 + (lenbyte.toNat - 0x80) > input.length then none else some (2 + (lenbyte.toNat - 0x80)))
      else pure (some 2)

/--
"Ignore leading zeroes" and "Copy value" for `R` (`top = 32`) or `S`
(`top = 64`): the integer of `len` bytes at `pos` without its leading zeros
is copied to end at `top`, or sets `overflow` when it is longer than 32
bytes.
-/
def copyInteger (tmpsig input : List UInt8) (top pos len : Nat) :
    Except ParseFault (List UInt8 × Bool) := do
  let (pos, len) ← skipZeroBytes input pos len
  if len > 32 then pure (tmpsig, true)
  else do
    let tmpsig ← memcpy tmpsig input (top - len) pos len
    pure (tmpsig, false)

/-- `ecdsa_signature_parse_der_lax`: its result, 1 or 0, and the signature it leaves in `sig`. -/
def ecdsaSignatureParseDerLax (input : List UInt8) : Except ParseFault (Bool × Signature) := do
  let tmpsig := List.replicate 64 (0 : UInt8)
  -- "Hack to initialize sig with a correctly-parsed but invalid signature."
  let sig := (parseCompact tmpsig).2
  match ← parseSequence input with
  | none => pure (false, sig)
  | some pos =>
    match ← parseInteger input pos with
    | none => pure (false, sig)
    | some (rlen, rpos) =>
      match ← parseInteger input (rpos + rlen) with
      | none => pure (false, sig)
      | some (slen, spos) => do
        let (tmpsig, rOverflow) ← copyInteger tmpsig input 32 rpos rlen
        let (tmpsig, sOverflow) ← copyInteger tmpsig input 64 spos slen
        let (parsed, sig) := if rOverflow || sOverflow then (false, sig) else parseCompact tmpsig
        -- "Overwrite the result again with a correctly-parsed but invalid signature if parsing failed."
        pure (true, if parsed then sig else (parseCompact (List.replicate 64 0)).2)

/-! ## Big-endian values -/

theorem beValue_append (high low : List UInt8) :
    beValue (high ++ low) = beValue low + 256 ^ low.length * beValue high := by
  rw [beValue, List.reverse_append, leValue_append, List.length_reverse, beValue, beValue]

theorem beValue_replicate_zero (k : Nat) : beValue (List.replicate k 0) = 0 := by
  rw [beValue, List.reverse_replicate, leValue_replicate_zero]

/-- Leading zero bytes do not change a big-endian value. -/
theorem beValue_dropWhile_zero (bytes : List UInt8) :
    beValue (bytes.dropWhile (· == 0)) = beValue bytes := by
  have zeros : bytes.takeWhile (· == 0) = List.replicate (bytes.takeWhile (· == 0)).length 0 :=
    List.eq_replicate_iff.2 ⟨rfl, fun b member => by simpa using List.mem_takeWhile_imp member⟩
  conv => rhs; rw [← List.takeWhile_append_dropWhile (p := (· == 0)) (l := bytes), zeros]
  rw [beValue_append, beValue_replicate_zero, Nat.mul_zero, Nat.add_zero]

/-- An integer of more than 32 bytes after its leading zeros is at least `256 ^ 32`, above the order. -/
theorem order_lt_of_long {bytes : List UInt8} (long : 32 < (bytes.dropWhile (· == 0)).length) :
    order < beValue bytes := by
  rw [← beValue_dropWhile_zero]
  have first := fun nonempty => List.head_dropWhile_not (· == 0) (l := bytes) nonempty
  generalize bytes.dropWhile (· == 0) = value at long first ⊢
  cases value with
  | nil => exact absurd long (by decide)
  | cons top rest =>
      have nonzero : top ≠ 0 := by simpa using first (List.cons_ne_nil _ _)
      have lead : 1 ≤ beValue [top] := by
        simp only [beValue, List.reverse_singleton, leValue, Nat.mul_zero, Nat.add_zero]
        exact Nat.one_le_iff_ne_zero.2 fun zero => nonzero (UInt8.toNat_inj.1 zero)
      rw [List.length_cons] at long
      have scale : 256 ^ 32 ≤ 256 ^ rest.length := Nat.pow_le_pow_right (by decide) (by omega)
      have below : order < 256 ^ 32 := by decide
      have high := Nat.mul_le_mul_left (256 ^ rest.length) lead
      rw [← List.singleton_append, beValue_append]
      omega

/-- The signature whose scalars are the big-endian values of `R` and `S`, or the zero
signature where one of them is not below the order. -/
def derSignature (R S : List UInt8) : Signature :=
  if beValue R < order ∧ beValue S < order then ⟨beValue R, beValue S⟩ else ⟨0, 0⟩

/-! ## Reads and copies -/

theorem readAt_of_lt {input : List UInt8} {pos : Nat} (inside : pos < input.length) :
    readAt input pos = .ok (input.getD pos 0) := by
  rw [readAt, dif_pos inside, List.getD_eq_getElem _ _ inside]

theorem readAt_append (pre bytes : List UInt8) (byte : UInt8) :
    readAt (pre ++ byte :: bytes) pre.length = .ok byte := by
  rw [readAt_of_lt (by simp), List.getD_append_right _ _ _ _ (Nat.le_refl _), Nat.sub_self]
  rfl

/-- A range inside a list splits it into the part before, the range and the part after. -/
theorem exists_segment {input : List UInt8} {pos len : Nat} (fits : pos + len ≤ input.length) :
    ∃ pre bytes post, input = pre ++ bytes ++ post ∧ pre.length = pos ∧ bytes.length = len :=
  ⟨input.take pos, (input.drop pos).take len, (input.drop pos).drop len,
    by rw [List.append_assoc, List.take_append_drop, List.take_append_drop],
    by rw [List.length_take]; omega, by rw [List.length_take, List.length_drop]; omega⟩

theorem memcpy_of_le {tmpsig input : List UInt8} {offset src count : Nat}
    (inside : src + count ≤ input.length) (fits : offset + count ≤ tmpsig.length) :
    memcpy tmpsig input offset src count =
      .ok (tmpsig.take offset ++ (input.drop src).take count ++ tmpsig.drop (offset + count)) := by
  rw [memcpy, if_neg (by omega), if_neg (by omega)]

/-- The zero-skipping loop over a range of the input stops at the first byte of the range that is not zero. -/
theorem skipZeroBytes_append (post : List UInt8) : ∀ pre bytes : List UInt8,
    skipZeroBytes (pre ++ bytes ++ post) pre.length bytes.length =
      .ok (pre.length + (bytes.takeWhile (· == 0)).length, (bytes.dropWhile (· == 0)).length)
  | pre, [] => by simp [skipZeroBytes]
  | pre, byte :: rest => by
      have shape : pre ++ byte :: rest ++ post = pre ++ byte :: (rest ++ post) := by simp
      rw [List.length_cons, skipZeroBytes, shape, readAt_append, ok_bind]
      by_cases zero : byte = 0
      · have next := skipZeroBytes_append post (pre ++ [byte]) rest
        rw [show pre ++ [byte] ++ rest ++ post = pre ++ byte :: (rest ++ post) by simp,
          List.length_append, List.length_singleton] at next
        rw [if_pos zero, next, List.takeWhile_cons_of_pos (by simpa using zero),
          List.dropWhile_cons_of_pos (by simpa using zero), List.length_cons, Nat.add_assoc,
          Nat.add_comm 1]
      · rw [if_neg zero, List.takeWhile_cons_of_neg (by simpa using zero),
          List.dropWhile_cons_of_neg (by simpa using zero)]
        rfl

/-- The length loop reads the bytes of its range as a big-endian number after `rlen`. -/
theorem readLengthBytes_append (post : List UInt8) : ∀ (pre bytes : List UInt8) (rlen : Nat),
    readLengthBytes (pre ++ bytes ++ post) rlen pre.length bytes.length =
      .ok (bytes.foldl (fun rlen byte => (rlen <<< 8) + byte.toNat) rlen, pre.length + bytes.length)
  | pre, [], rlen => by simp [readLengthBytes]
  | pre, byte :: rest, rlen => by
      have shape : pre ++ byte :: rest ++ post = pre ++ byte :: (rest ++ post) := by simp
      have next := readLengthBytes_append post (pre ++ [byte]) rest ((rlen <<< 8) + byte.toNat)
      rw [show pre ++ [byte] ++ rest ++ post = pre ++ byte :: (rest ++ post) by simp,
        List.length_append, List.length_singleton] at next
      rw [List.length_cons, readLengthBytes, shape, readAt_append, ok_bind, next, List.foldl_cons,
        Nat.add_assoc, Nat.add_comm 1]


theorem readAt_succeeds {input : List UInt8} {pos : Nat} (inside : pos < input.length) :
    Succeeds (fun byte => byte = input.getD pos 0) (readAt input pos) :=
  Succeeds.of_eq_ok (readAt_of_lt inside) rfl

/-- A copy changes `tmpsig` only at the positions it copies to. -/
theorem getD_copied {tmpsig copy : List UInt8} {offset i : Nat}
    (fits : offset + copy.length ≤ tmpsig.length) (outside : i < offset ∨ offset + copy.length ≤ i) :
    (tmpsig.take offset ++ copy ++ tmpsig.drop (offset + copy.length)).getD i 0 = tmpsig.getD i 0 := by
  have front : min offset tmpsig.length = offset := Nat.min_eq_left (by omega)
  simp only [List.getD_eq_getElem?_getD, List.getElem?_append, List.getElem?_take, List.getElem?_drop,
    List.length_append, List.length_take, front]
  rcases outside with before | after
  · simp [before, show i < offset + copy.length by omega]
  · rw [if_neg (by omega), Nat.add_sub_cancel' after]

/-! ## No access outside the arrays -/

theorem skipZeroBytes_succeeds {input : List UInt8} {pos len : Nat} (fits : pos + len ≤ input.length) :
    Succeeds (fun stop => pos ≤ stop.1 ∧ stop.1 + stop.2 = pos + len) (skipZeroBytes input pos len) := by
  obtain ⟨pre, bytes, post, rfl, rfl, rfl⟩ := exists_segment fits
  refine Succeeds.of_eq_ok (skipZeroBytes_append post pre bytes) ⟨Nat.le_add_right _ _, ?_⟩
  have whole : (bytes.takeWhile (· == 0) ++ bytes.dropWhile (· == 0)).length = bytes.length := by
    rw [List.takeWhile_append_dropWhile]
  rw [List.length_append] at whole
  show pre.length + _ + _ = _
  omega

theorem readLengthBytes_succeeds {input : List UInt8} {pos len : Nat} (rlen : Nat)
    (fits : pos + len ≤ input.length) :
    Succeeds (fun stop => stop.2 = pos + len) (readLengthBytes input rlen pos len) := by
  obtain ⟨pre, bytes, post, rfl, rfl, rfl⟩ := exists_segment fits
  exact Succeeds.of_eq_ok (readLengthBytes_append post pre bytes rlen) rfl

theorem readLength_succeeds {input : List UInt8} {pos : Nat} (lenbyte : Nat) (inside : pos ≤ input.length) :
    Succeeds (fun length => ∀ len start, length = some (len, start) → start ≤ input.length)
      (readLength input pos lenbyte) := by
  unfold readLength
  refine Succeeds.ite (fun _ => ?_) (fun _ => Succeeds.pure fun _ _ same => ?_)
  · refine Succeeds.ite (fun _ => Succeeds.pure fun _ _ same => nomatch same) (fun fits => ?_)
    refine (skipZeroBytes_succeeds (Nat.le_of_not_lt fits)).bind fun stop ⟨_, skipped⟩ => ?_
    refine Succeeds.ite (fun _ => Succeeds.pure fun _ _ same => nomatch same) (fun _ => ?_)
    refine (readLengthBytes_succeeds 0 (by omega)).bind fun read ended => Succeeds.pure ?_
    intro len start same
    cases same
    omega
  · cases same
    exact inside

theorem parseInteger_succeeds {input : List UInt8} {pos : Nat} (inside : pos ≤ input.length) :
    Succeeds (fun integer => ∀ len start, integer = some (len, start) → start + len ≤ input.length)
      (parseInteger input pos) := by
  unfold parseInteger
  refine Succeeds.ite (fun _ => Succeeds.pure fun _ _ same => nomatch same) (fun notEnd => ?_)
  refine (readAt_succeeds (by omega)).bind fun _ _ => ?_
  refine Succeeds.ite (fun _ => Succeeds.pure fun _ _ same => nomatch same) (fun _ => ?_)
  refine Succeeds.ite (fun _ => Succeeds.pure fun _ _ same => nomatch same) (fun notLast => ?_)
  refine (readAt_succeeds (by omega)).bind fun lenbyte _ => ?_
  refine (readLength_succeeds lenbyte.toNat (by omega)).bind fun length bounded => ?_
  cases length with
  | none => exact Succeeds.pure fun _ _ same => nomatch same
  | some found =>
      obtain ⟨len, start⟩ := found
      have before := bounded len start rfl
      refine Succeeds.pure fun len' start' same => ?_
      split at same
      · cases same
      · cases same
        omega

theorem parseSequence_succeeds (input : List UInt8) :
    Succeeds (fun start => ∀ pos, start = some pos → pos ≤ input.length) (parseSequence input) := by
  unfold parseSequence
  refine Succeeds.ite (fun _ => Succeeds.pure fun _ same => nomatch same) (fun notEmpty => ?_)
  refine (readAt_succeeds (by omega)).bind fun _ _ => ?_
  refine Succeeds.ite (fun _ => Succeeds.pure fun _ same => nomatch same) (fun _ => ?_)
  refine Succeeds.ite (fun _ => Succeeds.pure fun _ same => nomatch same) (fun notOne => ?_)
  refine (readAt_succeeds (by omega)).bind fun lenbyte _ => ?_
  refine Succeeds.ite (fun _ => Succeeds.pure fun pos same => ?_) (fun _ => Succeeds.pure fun pos same => ?_)
  · split at same
    · cases same
    · rw [Option.some.injEq] at same
      omega
  · rw [Option.some.injEq] at same
    omega

/--
A copy of an integer inside the input returns a `tmpsig` of 64 bytes that
differs from the one before only in the 32 bytes below `top`.
-/
theorem copyInteger_succeeds {tmpsig input : List UInt8} {top pos len : Nat}
    (fits : pos + len ≤ input.length) (size : tmpsig.length = 64) (low : 32 ≤ top) (high : top ≤ 64) :
    Succeeds (fun copied => copied.1.length = 64 ∧
        ∀ i, (i < top - 32 ∨ top ≤ i) → copied.1.getD i 0 = tmpsig.getD i 0)
      (copyInteger tmpsig input top pos len) := by
  unfold copyInteger
  refine (skipZeroBytes_succeeds fits).bind fun stop ⟨_, skipped⟩ => ?_
  obtain ⟨pos', len'⟩ := stop
  dsimp only at skipped ⊢
  refine Succeeds.ite (fun _ => Succeeds.pure ⟨size, fun _ _ => rfl⟩) (fun short => ?_)
  have inside : pos' + len' ≤ input.length := by omega
  have copyLength : ((input.drop pos').take len').length = len' := by
    rw [List.length_take, List.length_drop]
    omega
  rw [memcpy_of_le inside (by omega), ok_bind]
  refine Succeeds.pure ⟨?_, fun i outside => ?_⟩
  · simp only [List.length_append, List.length_take, List.length_drop, copyLength]
    omega
  · have offset : top - len' + len' = top := by omega
    have frame := @getD_copied tmpsig ((input.drop pos').take len') (top - len') i
      (by rw [copyLength, offset, size]; exact high) (by rw [copyLength, offset]; omega)
    rw [copyLength, offset] at frame
    rw [offset]
    exact frame

/-- `ecdsa_signature_parse_der_lax` reads and writes only inside `input` and `tmpsig`. -/
theorem ecdsaSignatureParseDerLax_succeeds (input : List UInt8) :
    Succeeds (fun _ => True) (ecdsaSignatureParseDerLax input) := by
  unfold ecdsaSignatureParseDerLax
  refine (parseSequence_succeeds input).bind fun start sequence => ?_
  cases start with
  | none => exact Succeeds.pure trivial
  | some pos =>
    refine (parseInteger_succeeds (sequence pos rfl)).bind fun integer rBounds => ?_
    cases integer with
    | none => exact Succeeds.pure trivial
    | some r =>
      obtain ⟨rlen, rpos⟩ := r
      have rFits := rBounds rlen rpos rfl
      refine (parseInteger_succeeds rFits).bind fun integer sBounds => ?_
      cases integer with
      | none => exact Succeeds.pure trivial
      | some s =>
        obtain ⟨slen, spos⟩ := s
        refine (copyInteger_succeeds rFits List.length_replicate (by decide) (by decide)).bind
          fun copied ⟨size, _⟩ => ?_
        exact (copyInteger_succeeds (sBounds slen spos rfl) size (by decide) (by decide)).bind
          fun _ _ => Succeeds.pure trivial


/-! ## Strict DER signatures -/

theorem readLength_short (input : List UInt8) (pos : Nat) {lenbyte : Nat} (short : lenbyte < 128) :
    readLength input pos lenbyte = .ok (some (lenbyte, pos)) := by
  rw [readLength, if_neg (not_not.2 ((and_128_eq_zero_iff (by omega)).2 short))]
  rfl

/-- An integer header with a short-form length inside the input. -/
theorem parseInteger_short {input : List UInt8} {pos : Nat} {len : UInt8}
    (tag : input.getD pos 0 = 0x02) (length : input.getD (pos + 1) 0 = len) (short : len.toNat < 128)
    (fits : pos + 2 + len.toNat ≤ input.length) :
    parseInteger input pos = .ok (some (len.toNat, pos + 2)) := by
  unfold parseInteger
  rw [if_neg (by omega), readAt_of_lt (by omega), ok_bind, tag, if_neg (by decide), if_neg (by omega),
    readAt_of_lt (by omega), ok_bind, length, readLength_short input (pos + 2) short, ok_bind]
  dsimp only
  rw [if_neg (by omega)]
  rfl

/-- A sequence header with a short-form length. -/
theorem parseSequence_short {input : List UInt8} {L : UInt8}
    (tag : input.getD 0 0 = 0x30) (length : input.getD 1 0 = L) (short : L.toNat < 128)
    (two : 2 ≤ input.length) : parseSequence input = .ok (some 2) := by
  unfold parseSequence
  rw [if_neg (by omega), readAt_of_lt (by omega), ok_bind, tag, if_neg (by decide), if_neg (by omega),
    readAt_of_lt (by omega), ok_bind, length,
    if_neg (not_not.2 ((and_128_eq_zero_iff L.toNat_lt).2 short))]
  rfl

/-- The copy of the integer that sits after `pre` in the input: its bytes without the leading zeros. -/
theorem copyInteger_append (tmpsig pre bytes post : List UInt8) (top : Nat) (size : tmpsig.length = 64)
    (low : 32 ≤ top) (high : top ≤ 64) :
    copyInteger tmpsig (pre ++ bytes ++ post) top pre.length bytes.length =
      if 32 < (bytes.dropWhile (· == 0)).length then .ok (tmpsig, true)
      else .ok (tmpsig.take (top - (bytes.dropWhile (· == 0)).length) ++ bytes.dropWhile (· == 0) ++
        tmpsig.drop top, false) := by
  unfold copyInteger
  rw [skipZeroBytes_append, ok_bind]
  dsimp only
  split
  · rfl
  · rename_i short
    have whole := @List.takeWhile_append_dropWhile _ (· == 0) bytes
    have skipped : (pre ++ bytes ++ post).drop (pre.length + (bytes.takeWhile (· == 0)).length) =
        bytes.dropWhile (· == 0) ++ post := by
      conv_lhs => arg 2; rw [← whole]
      rw [← List.append_assoc, List.append_assoc, List.drop_left' (by rw [List.length_append])]
    have parts := congrArg List.length whole
    rw [List.length_append] at parts
    have total : (pre ++ bytes ++ post).length =
        pre.length + (bytes.takeWhile (· == 0)).length + (bytes.dropWhile (· == 0)).length + post.length := by
      rw [List.length_append, List.length_append]
      omega
    rw [memcpy_of_le (by omega) (by omega), ok_bind, skipped, List.take_left' rfl,
      Nat.sub_add_cancel (by omega)]
    rfl

/-- The two copies into a zeroed `tmpsig`: each integer right-aligned in its half. -/
theorem copies_of_short {R S : List UInt8} (rShort : R.length ≤ 32) (sShort : S.length ≤ 32) :
    ((List.replicate 64 0).take (32 - R.length) ++ R ++ (List.replicate 64 0).drop 32).take (64 - S.length) ++
        S ++ ((List.replicate 64 0).take (32 - R.length) ++ R ++ (List.replicate 64 0).drop 32).drop 64 =
      (List.replicate (32 - R.length) (0 : UInt8) ++ R) ++ (List.replicate (32 - S.length) 0 ++ S) := by
  have half : (List.replicate (32 - R.length) (0 : UInt8) ++ R).length = 32 := by
    rw [List.length_append, List.length_replicate]
    omega
  rw [List.take_replicate, List.drop_replicate, Nat.min_eq_left (by omega), List.take_append,
    List.take_of_length_le (by omega), half, List.take_replicate, Nat.min_eq_left (by omega),
    List.drop_of_length_le (by rw [List.length_append, half, List.length_replicate]), List.append_nil,
    List.append_assoc, show 64 - S.length - 32 = 32 - S.length by omega]

/-- `parseCompact` of two halves. -/
theorem parseCompact_halves {high low : List UInt8} (half : high.length = 32) :
    parseCompact (high ++ low) =
      if beValue high < order ∧ beValue low < order then (true, ⟨beValue high, beValue low⟩)
      else (false, ⟨0, 0⟩) := by
  rw [parseCompact, List.take_left' half, List.drop_left' half]

theorem beValue_padded (k : Nat) (bytes : List UInt8) :
    beValue (List.replicate k 0 ++ bytes) = beValue bytes := by
  rw [beValue_append, beValue_replicate_zero, Nat.mul_zero, Nat.add_zero]

/--
On a strict DER layout, with short-form lengths, the lax parser returns 1
with the big-endian values of the two integers, or the zero signature.
-/
theorem parseDerLax_strictDer {L : UInt8} {R S : List UInt8} (short : L.toNat < 128)
    (rShort : R.length < 128) (sShort : S.length < 128) :
    ecdsaSignatureParseDerLax ([0x30, L, 0x02, UInt8.ofNat R.length] ++ R ++ [0x02, UInt8.ofNat S.length] ++ S) =
      .ok (true, derSignature R S) := by
  have rLength : (UInt8.ofNat R.length).toNat = R.length :=
    UInt8.toNat_ofNat_of_lt' (show R.length < 256 by omega)
  have sLength : (UInt8.ofNat S.length).toNat = S.length :=
    UInt8.toNat_ofNat_of_lt' (show S.length < 256 by omega)
  have length : ([0x30, L, 0x02, UInt8.ofNat R.length] ++ R ++ [0x02, UInt8.ofNat S.length] ++ S).length =
      R.length + S.length + 6 := by
    simp only [List.length_append, List.length_cons, List.length_nil]
    omega
  have sequence : parseSequence ([0x30, L, 0x02, UInt8.ofNat R.length] ++ R ++
      [0x02, UInt8.ofNat S.length] ++ S) = .ok (some 2) :=
    parseSequence_short rfl rfl short (by omega)
  have rHeader : parseInteger ([0x30, L, 0x02, UInt8.ofNat R.length] ++ R ++
      [0x02, UInt8.ofNat S.length] ++ S) 2 = .ok (some ((UInt8.ofNat R.length).toNat, 2 + 2)) :=
    parseInteger_short rfl rfl (by omega) (by omega)
  have sTag := getD_append_add ([0x30, L, 0x02, UInt8.ofNat R.length] ++ R) (0x02 :: UInt8.ofNat S.length :: S) 0
    (4 + R.length) (by rw [List.length_append]; rfl) 0
  have sLen := getD_append_add ([0x30, L, 0x02, UInt8.ofNat R.length] ++ R) (0x02 :: UInt8.ofNat S.length :: S) 0
    (4 + R.length) (by rw [List.length_append]; rfl) 1
  have regroup : [0x30, L, 0x02, UInt8.ofNat R.length] ++ R ++ [0x02, UInt8.ofNat S.length] ++ S =
      [0x30, L, 0x02, UInt8.ofNat R.length] ++ R ++ (0x02 :: UInt8.ofNat S.length :: S) := by
    simp
  rw [← regroup] at sTag sLen
  have sHeader : parseInteger ([0x30, L, 0x02, UInt8.ofNat R.length] ++ R ++
      [0x02, UInt8.ofNat S.length] ++ S) (4 + R.length + 0) =
        .ok (some ((UInt8.ofNat S.length).toNat, 4 + R.length + 0 + 2)) :=
    parseInteger_short sTag sLen (by omega) (by omega)
  have rCopy := copyInteger_append (List.replicate 64 0) [0x30, L, 0x02, UInt8.ofNat R.length] R
    (0x02 :: UInt8.ofNat S.length :: S) 32 List.length_replicate (by decide) (by decide)
  have sCopy := fun tmpsig size => copyInteger_append tmpsig
    ([0x30, L, 0x02, UInt8.ofNat R.length] ++ R ++ [0x02, UInt8.ofNat S.length]) S [] 64 size
    (by decide) (by decide)
  rw [← regroup] at rCopy
  simp only [List.append_nil, List.length_append, List.length_cons, List.length_nil] at sCopy rCopy
  rw [show 0 + 1 + 1 + 1 + 1 = 4 from rfl] at rCopy
  rw [show 0 + 1 + 1 + 1 + 1 + R.length + (0 + 1 + 1) = 4 + R.length + 0 + 2 by omega] at sCopy
  unfold ecdsaSignatureParseDerLax
  rw [sequence, ok_bind]
  dsimp only
  rw [rHeader, ok_bind]
  dsimp only
  rw [rLength, show 2 + 2 + R.length = 4 + R.length + 0 by omega, sHeader, ok_bind]
  dsimp only
  rw [show (2 + 2 : Nat) = 4 from rfl, rCopy]
  have zero : (parseCompact (List.replicate 64 0)).2 = ⟨0, 0⟩ := by decide
  by_cases rLong : 32 < (R.dropWhile (· == 0)).length
  · have above := order_lt_of_long rLong
    rw [if_pos rLong, ok_bind]
    dsimp only
    rw [sLength, sCopy _ List.length_replicate, zero]
    split <;> simp [derSignature, Nat.not_lt.2 above.le]
  · rw [if_neg rLong, ok_bind]
    have size : ((List.replicate 64 0).take (32 - (R.dropWhile (· == 0)).length) ++ R.dropWhile (· == 0) ++
        (List.replicate 64 (0 : UInt8)).drop 32).length = 64 := by
      simp only [List.length_append, List.length_take, List.length_drop, List.length_replicate]
      omega
    dsimp only
    rw [sLength, sCopy _ size]
    by_cases sLong : 32 < (S.dropWhile (· == 0)).length
    · have above := order_lt_of_long sLong
      rw [if_pos sLong, ok_bind, zero]
      simp [derSignature, Nat.not_lt.2 above.le]
    · have half : (List.replicate (32 - (R.dropWhile (· == 0)).length) (0 : UInt8) ++
          R.dropWhile (· == 0)).length = 32 := by
        rw [List.length_append, List.length_replicate]
        omega
      rw [if_neg sLong, ok_bind, copies_of_short (by omega) (by omega), parseCompact_halves half,
        beValue_padded, beValue_padded, beValue_dropWhile_zero, beValue_dropWhile_zero, zero]
      unfold derSignature
      by_cases both : beValue R < order ∧ beValue S < order
      · simp [both]
      · simp [both]


/--
`ecdsa_signature_parse_der_lax` reads only inside its input and writes only
inside `tmpsig`, each copy changes only its own half of `tmpsig`, and on a
signature that `IsValidSignatureEncoding` accepts, without its hash type, it
returns 1 with the big-endian values of `R` and `S` (or the zero signature
where one of them is not below the order).
-/
theorem ecdsaSignatureParseDerLax_safe :
    (∀ input, ∃ result, ecdsaSignatureParseDerLax input = .ok result) ∧
    (∀ (tmpsig input : List UInt8) (top pos len : Nat), pos + len ≤ input.length →
        tmpsig.length = 64 → 32 ≤ top → top ≤ 64 →
        ∃ copied, copyInteger tmpsig input top pos len = .ok copied ∧
          ∀ i, (i < top - 32 ∨ top ≤ i) → copied.1.getD i 0 = tmpsig.getD i 0) ∧
    ∀ sig : valtype, isValidSignatureEncoding sig = true →
      ∃ R S h, sig = [0x30, UInt8.ofNat (sig.length - 3), 0x02, UInt8.ofNat R.length] ++ R ++
          [0x02, UInt8.ofNat S.length] ++ S ++ [h] ∧
        ecdsaSignatureParseDerLax sig.dropLast = .ok (true, derSignature R S) := by
  refine ⟨fun input => ?_, fun tmpsig input top pos len fits size low high => ?_, fun sig valid => ?_⟩
  · obtain ⟨result, parsed, -⟩ := ecdsaSignatureParseDerLax_succeeds input
    exact ⟨result, parsed⟩
  · obtain ⟨copied, done, -, frame⟩ := copyInteger_succeeds fits size low high
    exact ⟨copied, done, frame⟩
  · obtain ⟨-, hi, R, S, h, layout, -, -⟩ := (isValidSignatureEncoding_iff sig).1 valid
    have total : sig.length = R.length + S.length + 7 := (congrArg List.length layout).trans length_der
    have short : (UInt8.ofNat (sig.length - 3)).toNat < 128 := by
      rw [UInt8.toNat_ofNat_of_lt' (show sig.length - 3 < 256 by omega)]
      omega
    refine ⟨R, S, h, layout, ?_⟩
    rw [layout, List.dropLast_concat]
    exact parseDerLax_strictDer short (by omega) (by omega)

section Callers

variable {PubKey : Type} (pubkeyParse : List UInt8 → Option PubKey)
  (normalize : Signature → Bool × Signature) (ecdsaVerify : Signature → UInt256 → PubKey → Bool)

/--
`CPubKey::Verify`, with `secp256k1_ec_pubkey_parse`,
`secp256k1_ecdsa_signature_normalize` and `secp256k1_ecdsa_verify` as
`pubkeyParse`, `normalize` and `ecdsaVerify`.
-/
def CPubKey.verify (vch : List UInt8) (isValid : Bool) (hash : UInt256) (vchSig : List UInt8) :
    Except ParseFault Bool :=
  if !isValid then pure false
  else
    match pubkeyParse vch with
    | none => pure false
    | some pubkey =>
      if vchSig.length = 0 then pure false
      else do
        let (parsed, sig) ← ecdsaSignatureParseDerLax vchSig
        -- "libsecp256k1's ECDSA verification requires lower-S signatures"
        if !parsed then pure false else pure (ecdsaVerify (normalize sig).2 hash pubkey)

/-- `CPubKey::CheckLowS`: the signature parses and `normalize` leaves it as it is. -/
def CPubKey.checkLowS (vchSig : List UInt8) : Except ParseFault Bool := do
  let (parsed, sig) ← ecdsaSignatureParseDerLax vchSig
  if !parsed then pure false else pure !(normalize sig).1

/-- `CPubKey::Verify` reads the signature only inside it. -/
theorem CPubKey.verify_succeeds (vch : List UInt8) (isValid : Bool) (hash : UInt256) (vchSig : List UInt8) :
    ∃ verified, CPubKey.verify pubkeyParse normalize ecdsaVerify vch isValid hash vchSig = .ok verified := by
  unfold CPubKey.verify
  split
  · exact ⟨false, rfl⟩
  · split
    · exact ⟨false, rfl⟩
    · split
      · exact ⟨false, rfl⟩
      · obtain ⟨⟨ok, sig⟩, parsed, -⟩ := ecdsaSignatureParseDerLax_succeeds vchSig
        rw [parsed, ok_bind]
        dsimp only
        split
        · exact ⟨false, rfl⟩
        · exact ⟨_, rfl⟩

/-- `CPubKey::CheckLowS` reads the signature only inside it. -/
theorem CPubKey.checkLowS_succeeds (vchSig : List UInt8) :
    ∃ low, CPubKey.checkLowS normalize vchSig = .ok low := by
  obtain ⟨⟨ok, sig⟩, parsed, -⟩ := ecdsaSignatureParseDerLax_succeeds vchSig
  unfold CPubKey.checkLowS
  rw [parsed, ok_bind]
  dsimp only
  split
  · exact ⟨false, rfl⟩
  · exact ⟨_, rfl⟩

end Callers


/-- Three bytes copied into the top half of a zero `tmpsig` leave its bottom half alone, and
the shortest strict signature, with `R = S = 1`, parses laxly. -/
theorem ecdsaSignatureParseDerLax_safe_shortest :
    (∃ copied, copyInteger (List.replicate 64 0) [1, 2, 3] 64 0 3 = .ok copied ∧
      ∀ i, (i < 64 - 32 ∨ 64 ≤ i) → copied.1.getD i 0 = (List.replicate 64 0).getD i 0) ∧
    ∃ R S h, ([0x30, 6, 0x02, 1, 1, 0x02, 1, 1, 1] : valtype) =
        [0x30, UInt8.ofNat (9 - 3), 0x02, UInt8.ofNat R.length] ++ R ++ [0x02, UInt8.ofNat S.length] ++ S ++ [h] ∧
      ecdsaSignatureParseDerLax ([0x30, 6, 0x02, 1, 1, 0x02, 1, 1, 1] : valtype).dropLast =
        .ok (true, derSignature R S) :=
  ⟨ecdsaSignatureParseDerLax_safe.2.1 (List.replicate 64 0) [1, 2, 3] 64 0 3 (by decide) (by decide) (by decide)
      (by decide),
    ecdsaSignatureParseDerLax_safe.2.2 [0x30, 6, 0x02, 1, 1, 0x02, 1, 1, 1] (by decide)⟩

end Dogecoin.Key
