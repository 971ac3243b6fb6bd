import Dogecoin.Serialize.Transaction
import Dogecoin.Lib.TrimRestore

/-!
# Framing of the peer-to-peer byte stream

`CNode::ReceiveMsgBytes` (net.cpp) is given the bytes of a peer's socket in
whatever pieces `recv` returns, and cuts them into messages.  The first 24
bytes of a message are collected in `hdrbuf` and read as a `CMessageHeader`;
then the `nMessageSize` bytes of its payload are copied into `vRecv`, which
grows 256 KiB at a time, and written to a hasher.  A complete message stays
in `vRecvMsg`.  A call returns false when a header announces a payload over
`MAX_SIZE` or over `MAX_PROTOCOL_MESSAGE_LENGTH` (or cannot be read at all,
which 24 bytes always can), and the socket handler then disconnects.

`frameStream` reads a whole stream at once: a header, its payload, and the
frames after them, or the end of the stream that does not make a frame yet.
Each call of `ReceiveMsgBytes` keeps `Represents`: the node's complete
messages are the frames of the bytes it has been given, and its last
message holds the bytes after them.  The messages a node ends with, and the
byte at which it refuses the stream, therefore depend on the bytes only and
not on how `recv` cut them (`receiveMsgBytes_chunking`).
-/

namespace Dogecoin.Net

open StreamDecode LittleEndian Dogecoin.Primitives Dogecoin.Serialize TrimRestore

/-- `MAX_PROTOCOL_MESSAGE_LENGTH` (net.h). -/
def MAX_PROTOCOL_MESSAGE_LENGTH : Nat := 4 * 1000 * 1000

/-- `CMessageHeader` (protocol.h): the network magic, the command, the payload size and checksum. -/
structure CMessageHeader where
  pchMessageStart : List UInt8
  pchCommand : List UInt8
  nMessageSize : UInt32
  pchChecksum : List UInt8
deriving DecidableEq, Repr

/-- `CMessageHeader(pchMessageStartIn)`: command and checksum zeroed, `nMessageSize = -1`. -/
def CMessageHeader.new (pchMessageStartIn : List UInt8) : CMessageHeader :=
  ⟨pchMessageStartIn, List.replicate 12 0, 0xFFFFFFFF, List.replicate 4 0⟩

/-- `CMessageHeader::SerializationOp` when writing: three flat arrays around the size. -/
def CMessageHeader.serialize (hdr : CMessageHeader) : List UInt8 :=
  hdr.pchMessageStart ++ hdr.pchCommand ++ writeUInt32 hdr.nMessageSize ++ hdr.pchChecksum

/-- `CMessageHeader::SerializationOp` when reading. -/
def CMessageHeader.unserialize : Decoder UInt8 CMessageHeader := do
  let pchMessageStart ← take 4
  let pchCommand ← take 12
  let nMessageSize ← readUInt32
  let pchChecksum ← take 4
  pure ⟨pchMessageStart, pchCommand, nMessageSize, pchChecksum⟩

/-- `hdrbuf >> hdr` on a fresh stream, `none` where it throws. -/
def unserializeHeader (hdrbuf : List UInt8) : Option CMessageHeader :=
  (CMessageHeader.unserialize.run hdrbuf).map Prod.fst

/--
`CNetMessage` (net.h).  `hasher` stands for the `CHash256` by the bytes
written to it, which is all that its `Finalize` depends on.
-/
structure CNetMessage where
  hasher : List UInt8
  in_data : Bool
  hdrbuf : List UInt8
  hdr : CMessageHeader
  nHdrPos : Nat
  vRecv : List UInt8
  nDataPos : Nat
  nTime : Int
deriving DecidableEq, Repr

/-- `CNetMessage(pchMessageStartIn, nTypeIn, nVersionIn)`: `hdrbuf` resized to 24 bytes. -/
def CNetMessage.new (pchMessageStartIn : List UInt8) : CNetMessage where
  hasher := []
  in_data := false
  hdrbuf := List.replicate 24 0
  hdr := CMessageHeader.new pchMessageStartIn
  nHdrPos := 0
  vRecv := []
  nDataPos := 0
  nTime := 0

/-- `CNetMessage::complete`. -/
def CNetMessage.complete (msg : CNetMessage) : Bool :=
  if !msg.in_data then false else msg.hdr.nMessageSize.toNat == msg.nDataPos

/-- `memcpy(&buf[pos], bytes, bytes.size())` into a buffer that holds them. -/
def memcpy (buf : List UInt8) (pos : Nat) (bytes : List UInt8) : List UInt8 :=
  buf.take pos ++ bytes ++ buf.drop (pos + bytes.length)

/-- `CNetMessage::readHeader`: the number of bytes taken, `none` for `-1`. -/
def CNetMessage.readHeader (msg : CNetMessage) (pch : List UInt8) : Option Nat × CNetMessage :=
  -- copy data to temporary parsing buffer
  let nRemaining := 24 - msg.nHdrPos
  let nCopy := min nRemaining pch.length
  let msg := { msg with
    hdrbuf := memcpy msg.hdrbuf msg.nHdrPos (pch.take nCopy)
    nHdrPos := msg.nHdrPos + nCopy }
  -- if header incomplete, exit
  if msg.nHdrPos < 24 then (some nCopy, msg)
  else
    match unserializeHeader msg.hdrbuf with
    | none => (none, msg)
    | some hdr =>
        let msg := { msg with hdr := hdr }
        -- reject messages larger than MAX_SIZE
        if hdr.nMessageSize.toNat > MAX_SIZE then (none, msg)
        else (some nCopy, { msg with in_data := true })

/-- `CNetMessage::readData`. -/
def CNetMessage.readData (msg : CNetMessage) (pch : List UInt8) : Nat × CNetMessage :=
  let nRemaining := msg.hdr.nMessageSize.toNat - msg.nDataPos
  let nCopy := min nRemaining pch.length
  -- allocate up to 256 KiB ahead, but never more than the total message size
  let vRecv :=
    if msg.vRecv.length < msg.nDataPos + nCopy then
      resize msg.vRecv (min msg.hdr.nMessageSize.toNat (msg.nDataPos + nCopy + 256 * 1024)) 0
    else msg.vRecv
  (nCopy, { msg with
    hasher := msg.hasher ++ pch.take nCopy
    vRecv := memcpy vRecv msg.nDataPos (pch.take nCopy)
    nDataPos := msg.nDataPos + nCopy })

/-- `CNetMessage::GetMessageHash`, with `finalize` for `CHash256::Finalize`; `none` where it asserts. -/
def CNetMessage.getMessageHash (finalize : List UInt8 → UInt256) (msg : CNetMessage) :
    Option UInt256 :=
  if msg.complete then some (finalize msg.hasher) else none

/-- The "absorb network data" step of `ReceiveMsgBytes`: the header or the payload. -/
def CNetMessage.absorb (msg : CNetMessage) (pch : List UInt8) : Option Nat × CNetMessage :=
  if !msg.in_data then msg.readHeader pch
  else
    let handled := msg.readData pch
    (some handled.1, handled.2)

/-- The fields of `CNode` that `ReceiveMsgBytes` reads and writes. -/
structure CNode where
  vRecvMsg : List CNetMessage
  nLastRecv : Int
  nRecvBytes : Nat
deriving DecidableEq, Repr

/-- A node that has received nothing. -/
def CNode.new : CNode := ⟨[], 0, 0⟩

/--
"Get current incomplete message, or create a new one": the messages before
the current one, and the current one, which is pushed as a new message when
`vRecvMsg` is empty or its last message is complete.
-/
def currentMessage (pchMessageStart : List UInt8) (vRecvMsg : List CNetMessage) :
    List CNetMessage × CNetMessage :=
  match vRecvMsg.getLast? with
  | some msg => if msg.complete then (vRecvMsg, CNetMessage.new pchMessageStart) else (vRecvMsg.dropLast, msg)
  | none => (vRecvMsg, CNetMessage.new pchMessageStart)

/--
The `while (nBytes > 0)` loop of `ReceiveMsgBytes`, one iteration a unit of
fuel: `none` when the fuel runs out, and otherwise the value returned, the
node and `complete`.  The per-command byte counters it also updates are not
modelled.
-/
def CNode.receiveLoop (pchMessageStart : List UInt8) (nTimeMicros : Int) :
    Nat → CNode → List UInt8 → Bool → Option (Bool × CNode × Bool)
  | _, node, [], complete => some (true, node, complete)
  | 0, _, _ :: _, _ => none
  | fuel + 1, node, pch@(_ :: _), complete =>
      let current := currentMessage pchMessageStart node.vRecvMsg
      let absorbed := current.2.absorb pch
      let msg := absorbed.2
      match absorbed.1 with
      | none => some (false, { node with vRecvMsg := current.1 ++ [msg] }, complete)
      | some handled =>
          if msg.in_data && msg.hdr.nMessageSize.toNat > MAX_PROTOCOL_MESSAGE_LENGTH then
            some (false, { node with vRecvMsg := current.1 ++ [msg] }, complete)
          else if msg.complete then
            receiveLoop pchMessageStart nTimeMicros fuel
              { node with vRecvMsg := current.1 ++ [{ msg with nTime := nTimeMicros }] }
              (pch.drop handled) true
          else
            receiveLoop pchMessageStart nTimeMicros fuel
              { node with vRecvMsg := current.1 ++ [msg] } (pch.drop handled) complete

/--
`CNode::ReceiveMsgBytes` at the time `nTimeMicros`, with as much fuel as
there are bytes, since every iteration takes at least one.
-/
def CNode.receiveMsgBytes (pchMessageStart : List UInt8) (nTimeMicros : Int) (node : CNode)
    (pch : List UInt8) : Option (Bool × CNode × Bool) :=
  let node := { node with
    nLastRecv := nTimeMicros.tdiv 1000000
    nRecvBytes := node.nRecvBytes + pch.length }
  node.receiveLoop pchMessageStart nTimeMicros pch.length pch false

/--
The socket handler: every chunk `recv` returned, with the time it came in,
is passed to `ReceiveMsgBytes` until a call returns false and the node is
disconnected.  The result is the index of that call, if any, and the node.
-/
def feedChunks (pchMessageStart : List UInt8) :
    CNode → List (Int × List UInt8) → Option (Option Nat × CNode)
  | node, [] => some (none, node)
  | node, (nTimeMicros, pch) :: calls => do
      let received ← node.receiveMsgBytes pchMessageStart nTimeMicros pch
      if received.1 then
        let fed ← feedChunks pchMessageStart received.2.1 calls
        pure (fed.1.map (· + 1), fed.2)
      else pure (some 0, received.2.1)

/-! ## Reading a header -/

theorem reads_header {hdr : CMessageHeader} (start : hdr.pchMessageStart.length = 4)
    (command : hdr.pchCommand.length = 12) (checksum : hdr.pchChecksum.length = 4) :
    Reads CMessageHeader.unserialize hdr.serialize hdr := by
  have first := reads_take hdr.pchMessageStart
  have second := reads_take hdr.pchCommand
  have fourth := reads_take hdr.pchChecksum
  rw [start] at first
  rw [command] at second
  rw [checksum] at fourth
  refine Reads.of_eq (first.bind (second.bind ((reads_uint32 hdr.nMessageSize).bind
    (fourth.bind (reads_pure _))))) ?_
  simp only [CMessageHeader.serialize, List.append_nil, List.append_assoc]

/-- Four bytes are the little-endian bytes of the `uint32_t` they hold. -/
theorem writeUInt32_ofNat_leValue {bytes : List UInt8} (length : bytes.length = 4) :
    writeUInt32 (UInt32.ofNat (leValue bytes)) = bytes := by
  have small : leValue bytes < 2 ^ 32 := by
    have below := leValue_lt bytes
    rwa [length] at below
  rw [writeUInt32, UInt32.toNat_ofNat_of_lt' small, ← length, leBytes_leValue]

/-- `hdrbuf >> hdr` never throws on the 24 bytes of `hdrbuf`, and reads them all. -/
theorem unserializeHeader_of_length {hdrbuf : List UInt8} (length : hdrbuf.length = 24) :
    ∃ hdr, unserializeHeader hdrbuf = some hdr ∧ hdr.serialize = hdrbuf := by
  let hdr : CMessageHeader :=
    ⟨hdrbuf.take 4, (hdrbuf.drop 4).take 12, UInt32.ofNat (leValue ((hdrbuf.drop 16).take 4)),
      hdrbuf.drop 20⟩
  have whole : hdr.serialize = hdrbuf := by
    have size : ((hdrbuf.drop 16).take 4).length = 4 := by simp [length]
    simp only [hdr, CMessageHeader.serialize, writeUInt32_ofNat_leValue size]
    have twenty : hdrbuf.drop 20 = (hdrbuf.drop 16).drop 4 := by simp [List.drop_drop]
    have sixteen : hdrbuf.drop 16 = (hdrbuf.drop 4).drop 12 := by simp [List.drop_drop]
    rw [List.append_assoc, List.append_assoc, twenty, List.take_append_drop, sixteen,
      List.take_append_drop, List.take_append_drop]
  refine ⟨hdr, ?_, whole⟩
  have read := @reads_header hdr (by simp [hdr, length]) (by simp [hdr, length])
    (by simp [hdr, length]) []
  rw [List.append_nil, whole] at read
  rw [unserializeHeader, read]
  rfl

/-! ## The stream read as a whole -/

/-- A message of the stream: its header and its payload. -/
structure Frame where
  hdr : CMessageHeader
  payload : List UInt8
deriving DecidableEq, Repr

/-- What follows the last whole frame of a stream. -/
inductive FrameEnd where
  /-- the bytes of a message that is not complete yet -/
  | pending (bytes : List UInt8)
  /-- the stream is refused once this many of its bytes have come in -/
  | rejected (position : Nat)
deriving DecidableEq, Repr

/-- The end of a stream seen from `offset` bytes before it. -/
def FrameEnd.shift (offset : Nat) : FrameEnd → FrameEnd
  | .pending bytes => .pending bytes
  | .rejected position => .rejected (offset + position)

/-- A header whose payload is within `MAX_SIZE` and within `MAX_PROTOCOL_MESSAGE_LENGTH`. -/
def CMessageHeader.accepted (hdr : CMessageHeader) : Bool :=
  hdr.nMessageSize.toNat ≤ MAX_SIZE && hdr.nMessageSize.toNat ≤ MAX_PROTOCOL_MESSAGE_LENGTH

set_option linter.unusedVariables false in
/--
The frames of a byte stream read back to back: 24 bytes of header, refused
when they do not read as a header or announce a payload over a limit, and
then as many bytes of payload as the header says.
-/
def frameStream (bytes : List UInt8) : List Frame × FrameEnd :=
  if short : bytes.length < 24 then ([], .pending bytes)
  else
    match unserializeHeader (bytes.take 24) with
    | none => ([], .rejected 24)
    | some hdr =>
        if hdr.accepted then
          if bytes.length < 24 + hdr.nMessageSize.toNat then ([], .pending bytes)
          else
            let rest := frameStream (bytes.drop (24 + hdr.nMessageSize.toNat))
            (⟨hdr, (bytes.drop 24).take hdr.nMessageSize.toNat⟩ :: rest.1,
              rest.2.shift (24 + hdr.nMessageSize.toNat))
        else ([], .rejected 24)
termination_by bytes.length
decreasing_by simp only [List.length_drop]; omega

/-! ### One equation for each way the stream goes on -/

theorem frameStream_short {bytes : List UInt8} (short : bytes.length < 24) :
    frameStream bytes = ([], .pending bytes) := by
  rw [frameStream, dif_pos short]

theorem frameStream_unreadable {bytes : List UInt8} (long : 24 ≤ bytes.length)
    (read : unserializeHeader (bytes.take 24) = none) :
    frameStream bytes = ([], .rejected 24) := by
  rw [frameStream, dif_neg (Nat.not_lt.mpr long), read]

section Header

variable {bytes : List UInt8} {hdr : CMessageHeader}
  (long : 24 ≤ bytes.length) (read : unserializeHeader (bytes.take 24) = some hdr)
include long read

theorem frameStream_refused (refused : hdr.accepted = false) :
    frameStream bytes = ([], .rejected 24) := by
  rw [frameStream, dif_neg (Nat.not_lt.mpr long), read]
  simp only [refused, Bool.false_eq_true, if_false]

theorem frameStream_incomplete (accepted : hdr.accepted = true)
    (incomplete : bytes.length < 24 + hdr.nMessageSize.toNat) :
    frameStream bytes = ([], .pending bytes) := by
  rw [frameStream, dif_neg (Nat.not_lt.mpr long), read]
  simp only [accepted, if_true, if_pos incomplete]

theorem frameStream_frame (accepted : hdr.accepted = true)
    (whole : 24 + hdr.nMessageSize.toNat ≤ bytes.length) :
    frameStream bytes =
      (⟨hdr, (bytes.drop 24).take hdr.nMessageSize.toNat⟩ ::
          (frameStream (bytes.drop (24 + hdr.nMessageSize.toNat))).1,
        (frameStream (bytes.drop (24 + hdr.nMessageSize.toNat))).2.shift
          (24 + hdr.nMessageSize.toNat)) := by
  rw [frameStream, dif_neg (Nat.not_lt.mpr long), read]
  simp only [accepted, if_true, if_neg (Nat.not_lt.mpr whole)]

theorem frameStream_append_frame (accepted : hdr.accepted = true)
    (whole : 24 + hdr.nMessageSize.toNat ≤ bytes.length) (more : List UInt8) :
    frameStream (bytes ++ more) =
      (⟨hdr, (bytes.drop 24).take hdr.nMessageSize.toNat⟩ ::
          (frameStream (bytes.drop (24 + hdr.nMessageSize.toNat) ++ more)).1,
        (frameStream (bytes.drop (24 + hdr.nMessageSize.toNat) ++ more)).2.shift
          (24 + hdr.nMessageSize.toNat)) := by
  have read' : unserializeHeader ((bytes ++ more).take 24) = some hdr := by
    rw [List.take_append_of_le_length long, read]
  have payload : ((bytes ++ more).drop 24).take hdr.nMessageSize.toNat =
      (bytes.drop 24).take hdr.nMessageSize.toNat := by
    rw [List.drop_append_of_le_length long,
      List.take_append_of_le_length (by rw [List.length_drop]; omega)]
  rw [frameStream_frame (by simp; omega) read' accepted (by simp; omega), payload,
    List.drop_append_of_le_length whole]

theorem frameStream_append_refused (refused : hdr.accepted = false) (more : List UInt8) :
    frameStream (bytes ++ more) = ([], .rejected 24) :=
  frameStream_refused (by simp; omega) (by rw [List.take_append_of_le_length long, read]) refused

end Header

/-! ### How the end of a stream moves -/

@[simp] theorem FrameEnd.shift_zero (e : FrameEnd) : e.shift 0 = e := by
  cases e <;> simp [FrameEnd.shift]

@[simp] theorem FrameEnd.shift_shift (e : FrameEnd) (a b : Nat) :
    (e.shift a).shift b = e.shift (b + a) := by
  cases e with
  | pending bytes => rfl
  | rejected position => simp only [FrameEnd.shift, Nat.add_assoc]

@[simp] theorem FrameEnd.shift_eq_pending {e : FrameEnd} {n : Nat} {bytes : List UInt8} :
    e.shift n = .pending bytes ↔ e = .pending bytes := by
  cases e <;> simp [FrameEnd.shift]

theorem FrameEnd.shift_eq_rejected {e : FrameEnd} {n p : Nat} :
    e.shift n = .rejected p ↔ ∃ p', e = .rejected p' ∧ p = n + p' := by
  cases e <;> simp [FrameEnd.shift, eq_comm]

/-! ### Streams and their extensions -/

/-- A stream is refused at a header's last byte, so after 24 bytes and within the stream. -/
theorem frameStream_rejected_bounds (bytes : List UInt8) :
    ∀ p, (frameStream bytes).2 = .rejected p → 24 ≤ p ∧ p ≤ bytes.length := by
  fun_induction frameStream bytes with
  | case1 bytes short => intro p ended; cases ended
  | case2 bytes long read => intro p ended; cases ended; omega
  | case3 bytes long hdr read accepted incomplete => intro p ended; cases ended
  | case4 bytes long hdr read accepted whole rest more =>
      intro p ended
      obtain ⟨p', rest_ended, rfl⟩ := FrameEnd.shift_eq_rejected.mp ended
      have bounds := more p' rest_ended
      rw [List.length_drop] at bounds
      omega
  | case5 bytes long hdr read refused => intro p ended; cases ended; omega

/-- What is left of a stream after its frames is the end of the stream. -/
theorem frameStream_pending_suffix (bytes : List UInt8) :
    ∀ r, (frameStream bytes).2 = .pending r → r <:+ bytes := by
  fun_induction frameStream bytes with
  | case1 bytes short => intro r ended; cases ended; exact List.suffix_refl bytes
  | case2 bytes long read => intro r ended; cases ended
  | case3 bytes long hdr read accepted incomplete =>
      intro r ended; cases ended; exact List.suffix_refl bytes
  | case4 bytes long hdr read accepted whole rest more =>
      intro r ended
      exact (more r (FrameEnd.shift_eq_pending.mp ended)).trans (List.drop_suffix _ bytes)
  | case5 bytes long hdr read refused => intro r ended; cases ended

/-- Bytes after a refused stream change nothing. -/
theorem frameStream_append_of_rejected (bytes : List UInt8) :
    ∀ p more, (frameStream bytes).2 = .rejected p → frameStream (bytes ++ more) = frameStream bytes := by
  fun_induction frameStream bytes with
  | case1 bytes short => intro p more ended; cases ended
  | case2 bytes long read =>
      intro p more _
      exact frameStream_unreadable (by simp; omega)
        (by rw [List.take_append_of_le_length (by omega), read])
  | case3 bytes long hdr read accepted incomplete => intro p more ended; cases ended
  | case4 bytes long hdr read accepted whole rest after =>
      intro p more ended
      obtain ⟨p', rest_ended, -⟩ := FrameEnd.shift_eq_rejected.mp ended
      rw [frameStream_append_frame (by omega) read accepted (by omega), after p' more rest_ended]
  | case5 bytes long hdr read refused =>
      intro p more _
      exact frameStream_append_refused (by omega) read (Bool.eq_false_iff.mpr refused) more

/-- Bytes after a stream that ends in an incomplete message go on from that message. -/
theorem frameStream_append_of_pending (bytes : List UInt8) :
    ∀ frames r more, frameStream bytes = (frames, .pending r) →
      frameStream (bytes ++ more) =
        (frames ++ (frameStream (r ++ more)).1,
          (frameStream (r ++ more)).2.shift (bytes.length - r.length)) := by
  fun_induction frameStream bytes with
  | case1 bytes short =>
      intro frames r more ended
      cases ended
      simp
  | case2 bytes long read => intro frames r more ended; cases ended
  | case3 bytes long hdr read accepted incomplete =>
      intro frames r more ended
      cases ended
      simp
  | case4 bytes long hdr read accepted whole rest after =>
      intro frames r more ended
      simp only [Prod.mk.injEq, FrameEnd.shift_eq_pending] at ended
      obtain ⟨rfl, rest_ended⟩ := ended
      have suffix := (frameStream_pending_suffix _ r rest_ended).length_le
      rw [frameStream_append_frame (by omega) read accepted (by omega),
        after rest.1 r more (Prod.ext rfl rest_ended)]
      simp only [List.cons_append, FrameEnd.shift_shift, List.length_drop] at suffix ⊢
      congr 3
      omega
  | case5 bytes long hdr read refused => intro frames r more ended; cases ended

/-- A stream that ends in an incomplete message is refused, if at all, at a later byte. -/
theorem frameStream_rejected_after (bytes : List UInt8) :
    ∀ frames r more p, frameStream bytes = (frames, .pending r) →
      (frameStream (bytes ++ more)).2 = .rejected p → bytes.length < p := by
  fun_induction frameStream bytes with
  | case1 bytes short =>
      intro frames r more p _ ended
      have bounds := frameStream_rejected_bounds _ p ended
      omega
  | case2 bytes long read => intro frames r more p pending; cases pending
  | case3 bytes long hdr read accepted incomplete =>
      intro frames r more p _ ended
      have read' : unserializeHeader ((bytes ++ more).take 24) = some hdr := by
        rw [List.take_append_of_le_length (by omega), read]
      by_cases whole : 24 + hdr.nMessageSize.toNat ≤ (bytes ++ more).length
      · rw [frameStream_frame (by omega) read' accepted whole] at ended
        obtain ⟨p', rest_ended, rfl⟩ := FrameEnd.shift_eq_rejected.mp ended
        have bounds := frameStream_rejected_bounds _ p' rest_ended
        omega
      · rw [frameStream_incomplete (by simp; omega) read' accepted (by omega)] at ended
        cases ended
  | case4 bytes long hdr read accepted whole rest after =>
      intro frames r more p pending ended
      simp only [Prod.mk.injEq, FrameEnd.shift_eq_pending] at pending
      rw [frameStream_append_frame (by omega) read accepted (by omega)] at ended
      obtain ⟨p', rest_ended, rfl⟩ := FrameEnd.shift_eq_rejected.mp ended
      have later := after rest.1 r more p' (Prod.ext rfl pending.2) rest_ended
      rw [List.length_drop] at later
      omega
  | case5 bytes long hdr read refused => intro frames r more p pending; cases pending

/-! ## A message in progress -/

/-- The bytes of the stream a message holds: its header so far, or its header and payload so far. -/
def CNetMessage.received (msg : CNetMessage) : List UInt8 :=
  if msg.in_data then msg.hdrbuf ++ msg.vRecv.take msg.nDataPos else msg.hdrbuf.take msg.nHdrPos

/-- The frame a complete message stands for. -/
def CNetMessage.frame (msg : CNetMessage) : Frame := ⟨msg.hdr, msg.vRecv⟩

/-- The two states that `readHeader` and `readData` keep a message in. -/
inductive CNetMessage.Wf : CNetMessage → Prop
  /-- collecting the header in `hdrbuf` -/
  | header {msg : CNetMessage} (in_header : msg.in_data = false)
      (hdrbuf_length : msg.hdrbuf.length = 24) (nHdrPos_lt : msg.nHdrPos < 24)
      (no_data : msg.nDataPos = 0) (empty : msg.vRecv = []) (unhashed : msg.hasher = []) : msg.Wf
  /-- copying the payload of an accepted header into `vRecv` and the hasher -/
  | data {msg : CNetMessage} (in_data : msg.in_data = true)
      (hdrbuf_length : msg.hdrbuf.length = 24) (read : unserializeHeader msg.hdrbuf = some msg.hdr)
      (accepted : msg.hdr.accepted = true) (within : msg.nDataPos ≤ msg.vRecv.length)
      (allocated : msg.vRecv.length ≤ msg.hdr.nMessageSize.toNat)
      (hashed : msg.hasher = msg.vRecv.take msg.nDataPos) : msg.Wf

theorem CNetMessage.complete_eq_true {msg : CNetMessage} :
    msg.complete = true ↔ msg.in_data = true ∧ msg.hdr.nMessageSize.toNat = msg.nDataPos := by
  unfold CNetMessage.complete
  cases msg.in_data <;> simp

theorem CNetMessage.new_wf (pchMessageStart : List UInt8) : (CNetMessage.new pchMessageStart).Wf :=
  .header rfl (by simp [CNetMessage.new]) (by simp [CNetMessage.new]) rfl rfl rfl

@[simp] theorem CNetMessage.received_new (pchMessageStart : List UInt8) :
    (CNetMessage.new pchMessageStart).received = [] := rfl

@[simp] theorem CNetMessage.complete_new (pchMessageStart : List UInt8) :
    (CNetMessage.new pchMessageStart).complete = false := rfl

/-- A message in progress holds an incomplete message of the stream. -/
theorem CNetMessage.Wf.frameStream_of_incomplete {msg : CNetMessage} (wf : msg.Wf)
    (incomplete : msg.complete = false) :
    frameStream msg.received = ([], .pending msg.received) := by
  cases wf with
  | header in_header hdrbuf_length nHdrPos_lt =>
      apply frameStream_short
      simp only [CNetMessage.received, in_header, Bool.false_eq_true, if_false, List.length_take,
        hdrbuf_length]
      omega
  | data in_data hdrbuf_length read accepted within allocated =>
      have short : msg.hdr.nMessageSize.toNat ≠ msg.nDataPos := fun filled => by
        rw [← Bool.not_eq_true, CNetMessage.complete_eq_true] at incomplete
        exact incomplete ⟨in_data, filled⟩
      have header : msg.received.take 24 = msg.hdrbuf := by
        simp [CNetMessage.received, in_data, hdrbuf_length]
      have length : msg.received.length = 24 + msg.nDataPos := by
        simp only [CNetMessage.received, in_data, if_true, List.length_append, List.length_take,
          hdrbuf_length]
        omega
      exact frameStream_incomplete (by omega) (by rw [header, read]) accepted (by omega)

/-- A complete message holds one frame of the stream: its header and `vRecv`. -/
theorem CNetMessage.Wf.frameStream_of_complete {msg : CNetMessage} (wf : msg.Wf)
    (complete : msg.complete = true) :
    frameStream msg.received = ([msg.frame], .pending []) := by
  cases wf with
  | header in_header => simp [CNetMessage.complete, in_header] at complete
  | data in_data hdrbuf_length read accepted within allocated =>
      have filled := (CNetMessage.complete_eq_true.mp complete).2
      have whole : msg.received = msg.hdrbuf ++ msg.vRecv := by
        rw [CNetMessage.received, if_pos in_data, List.take_of_length_le (by omega)]
      have header : (msg.hdrbuf ++ msg.vRecv).take 24 = msg.hdrbuf := by
        rw [List.take_append_of_le_length (by omega), List.take_of_length_le (by omega)]
      have payload : ((msg.hdrbuf ++ msg.vRecv).drop 24).take msg.hdr.nMessageSize.toNat =
          msg.vRecv := by
        rw [List.drop_append_of_le_length (by omega), List.drop_of_length_le (by omega),
          List.nil_append, List.take_of_length_le (by omega)]
      rw [whole, frameStream_frame (by simp; omega) (by rw [header, read]) accepted (by simp; omega),
        payload, List.drop_of_length_le (by simp; omega), frameStream_short (by simp)]
      rfl

/-- What the payload's hasher has been given is the payload, once the message is complete. -/
theorem CNetMessage.Wf.hasher_of_complete {msg : CNetMessage} (wf : msg.Wf)
    (complete : msg.complete = true) : msg.hasher = msg.vRecv := by
  cases wf with
  | header in_header => simp [CNetMessage.complete, in_header] at complete
  | data in_data _ _ _ within allocated hashed =>
      have filled := (CNetMessage.complete_eq_true.mp complete).2
      rw [hashed, List.take_of_length_le (by omega)]

theorem CNetMessage.Wf.nHdrPos_lt {msg : CNetMessage} (wf : msg.Wf)
    (in_header : msg.in_data = false) : msg.nHdrPos < 24 := by
  cases wf with
  | header _ _ nHdrPos_lt => exact nHdrPos_lt
  | data in_data => rw [in_data] at in_header; cases in_header

theorem CNetMessage.Wf.nDataPos_lt {msg : CNetMessage} (wf : msg.Wf) (in_data : msg.in_data = true)
    (incomplete : msg.complete = false) : msg.nDataPos < msg.hdr.nMessageSize.toNat := by
  cases wf with
  | header in_header => rw [in_data] at in_header; cases in_header
  | data _ _ _ _ within allocated =>
      have short : msg.hdr.nMessageSize.toNat ≠ msg.nDataPos := fun filled => by
        rw [← Bool.not_eq_true, CNetMessage.complete_eq_true] at incomplete
        exact incomplete ⟨in_data, filled⟩
      omega

/-! ## One absorb -/

theorem length_memcpy {buf bytes : List UInt8} {pos : Nat} (fits : pos + bytes.length ≤ buf.length) :
    (memcpy buf pos bytes).length = buf.length := by
  simp only [memcpy, List.length_append, List.length_take, List.length_drop]
  omega

theorem take_memcpy {buf bytes : List UInt8} {pos : Nat} (fits : pos + bytes.length ≤ buf.length) :
    (memcpy buf pos bytes).take (pos + bytes.length) = buf.take pos ++ bytes := by
  rw [memcpy, List.take_left' (by simp; omega)]

/-- How one absorb can end for a message in progress that takes the first `k` bytes of `pch`. -/
inductive Absorbed (msg : CNetMessage) (pch : List UInt8) (k : Nat) :
    Option Nat × CNetMessage → Prop
  /-- `-1`: the header is complete and announces a payload over `MAX_SIZE` -/
  | refused {msg' : CNetMessage} (received : msg'.received = msg.received ++ pch.take k)
      (rejected : frameStream msg'.received = ([], .rejected 24))
      (incomplete : msg'.complete = false) : Absorbed msg pch k (none, msg')
  /-- the header is complete and announces a payload over `MAX_PROTOCOL_MESSAGE_LENGTH` -/
  | oversized {msg' : CNetMessage} (received : msg'.received = msg.received ++ pch.take k)
      (rejected : frameStream msg'.received = ([], .rejected 24))
      (incomplete : msg'.complete = false) (in_data : msg'.in_data = true)
      (large : msg'.hdr.nMessageSize.toNat > MAX_PROTOCOL_MESSAGE_LENGTH) :
      Absorbed msg pch k (some k, msg')
  /-- the bytes are taken in, and the message stays well formed -/
  | taken {msg' : CNetMessage} (received : msg'.received = msg.received ++ pch.take k)
      (wf : msg'.Wf) : Absorbed msg pch k (some k, msg')

/-- `readHeader` copies up to the end of the header, and then reads it and checks its size. -/
theorem absorb_of_header {msg : CNetMessage} (wf : msg.Wf) (in_header : msg.in_data = false)
    (pch : List UInt8) :
    Absorbed msg pch (min (24 - msg.nHdrPos) pch.length) (msg.readHeader pch) := by
  cases wf with
  | data in_data => rw [in_data] at in_header; cases in_header
  | header _ hdrbuf_length nHdrPos_lt no_data empty unhashed =>
      unfold CNetMessage.readHeader
      dsimp only
      generalize copy : min (24 - msg.nHdrPos) pch.length = k
      have copy_length : (pch.take k).length = k := by simp; omega
      have fits : msg.nHdrPos + (pch.take k).length ≤ msg.hdrbuf.length := by omega
      have copied_length : (memcpy msg.hdrbuf msg.nHdrPos (pch.take k)).length = 24 :=
        (length_memcpy fits).trans hdrbuf_length
      have copied : (memcpy msg.hdrbuf msg.nHdrPos (pch.take k)).take (msg.nHdrPos + k) =
          msg.hdrbuf.take msg.nHdrPos ++ pch.take k := by
        have taken := take_memcpy fits
        rwa [copy_length] at taken
      split
      · refine .taken ?_ (.header in_header copied_length (by omega) no_data empty unhashed)
        simpa [CNetMessage.received, in_header] using copied
      · have full : msg.nHdrPos + k = 24 := by omega
        have whole : memcpy msg.hdrbuf msg.nHdrPos (pch.take k) =
            msg.hdrbuf.take msg.nHdrPos ++ pch.take k := by
          rw [← copied, full]
          exact (List.take_of_length_le (by omega)).symm
        obtain ⟨hdr, read, -⟩ := unserializeHeader_of_length copied_length
        have refuses (refused : hdr.accepted = false) :
            frameStream (msg.hdrbuf.take msg.nHdrPos ++ pch.take k) = ([], .rejected 24) := by
          rw [← whole]
          exact frameStream_refused (by omega) (by rw [List.take_of_length_le (by omega), read])
            refused
        rw [read]
        dsimp only
        split
        · have refused : hdr.accepted = false := by
            simp only [CMessageHeader.accepted, Bool.and_eq_false_iff, decide_eq_false_iff_not]
            omega
          refine .refused ?_ ?_ (by simp [CNetMessage.complete, in_header])
          · simpa [CNetMessage.received, in_header] using copied
          · simpa [CNetMessage.received, in_header, copied] using refuses refused
        · have received : memcpy msg.hdrbuf msg.nHdrPos (pch.take k) ++
              msg.vRecv.take msg.nDataPos = msg.hdrbuf.take msg.nHdrPos ++ pch.take k := by
            simp [no_data, whole]
          by_cases large : hdr.nMessageSize.toNat > MAX_PROTOCOL_MESSAGE_LENGTH
          · have refused : hdr.accepted = false := by
              simp only [CMessageHeader.accepted, Bool.and_eq_false_iff, decide_eq_false_iff_not]
              omega
            have filled : hdr.nMessageSize.toNat ≠ msg.nDataPos := by
              simp only [MAX_PROTOCOL_MESSAGE_LENGTH] at large
              omega
            refine .oversized ?_ ?_ ?_ rfl large
            · simpa [CNetMessage.received, in_header] using received
            · simpa [CNetMessage.received, in_header, received] using refuses refused
            · simpa [CNetMessage.complete] using filled
          · have accepted : hdr.accepted = true := by
              simp only [CMessageHeader.accepted, Bool.and_eq_true, decide_eq_true_eq]
              omega
            refine .taken ?_ (.data rfl copied_length read accepted (by simp [no_data])
              (by simp [empty]) (by simp [unhashed, empty]))
            simpa [CNetMessage.received, in_header] using received

/-- `vRecv` after the allocation in `readData`: room for the copy, within the payload, and the payload so far kept. -/
theorem allocate_spec {vRecv : List UInt8} {nDataPos k size : Nat} (within : nDataPos ≤ vRecv.length)
    (allocated : vRecv.length ≤ size) (room : nDataPos + k ≤ size) :
    nDataPos + k ≤ (if vRecv.length < nDataPos + k then
        resize vRecv (min size (nDataPos + k + 256 * 1024)) 0 else vRecv).length ∧
      (if vRecv.length < nDataPos + k then
        resize vRecv (min size (nDataPos + k + 256 * 1024)) 0 else vRecv).length ≤ size ∧
      (if vRecv.length < nDataPos + k then
        resize vRecv (min size (nDataPos + k + 256 * 1024)) 0 else vRecv).take nDataPos =
        vRecv.take nDataPos := by
  split
  · rw [length_resize]
    exact ⟨by omega, by omega, take_resize 0 within (by omega)⟩
  · exact ⟨by omega, allocated, rfl⟩

/-- `readData` copies as much of the payload as `pch` holds. -/
theorem absorb_of_data {msg : CNetMessage} (wf : msg.Wf) (in_data : msg.in_data = true)
    (incomplete : msg.complete = false) (pch : List UInt8) :
    Absorbed msg pch (min (msg.hdr.nMessageSize.toNat - msg.nDataPos) pch.length)
      (some (msg.readData pch).1, (msg.readData pch).2) := by
  have short := wf.nDataPos_lt in_data incomplete
  cases wf with
  | header in_header => rw [in_data] at in_header; cases in_header
  | data _ hdrbuf_length read accepted within allocated hashed =>
      unfold CNetMessage.readData
      dsimp only
      generalize copy : min (msg.hdr.nMessageSize.toNat - msg.nDataPos) pch.length = k
      obtain ⟨room, bounded, kept⟩ :=
        allocate_spec within allocated (show msg.nDataPos + k ≤ msg.hdr.nMessageSize.toNat by omega)
      generalize (if msg.vRecv.length < msg.nDataPos + k then
        resize msg.vRecv (min msg.hdr.nMessageSize.toNat (msg.nDataPos + k + 256 * 1024)) 0
        else msg.vRecv) = grown at room bounded kept ⊢
      have copy_length : (pch.take k).length = k := by simp; omega
      have fits : msg.nDataPos + (pch.take k).length ≤ grown.length := by omega
      have copied := take_memcpy fits
      rw [copy_length] at copied
      have copied_length := length_memcpy fits
      refine .taken ?_ (.data in_data hdrbuf_length read accepted
        (by simp only [copied_length]; omega) (by simp only [copied_length]; omega) ?_)
      · simp [CNetMessage.received, in_data, copied, kept]
      · simp [copied, kept, hashed]

/-- Every absorb on a message in progress takes at least one byte and at most all of them. -/
theorem absorb_spec {msg : CNetMessage} (wf : msg.Wf) (incomplete : msg.complete = false)
    {pch : List UInt8} (nonempty : pch ≠ []) :
    ∃ k, 0 < k ∧ k ≤ pch.length ∧ Absorbed msg pch k (msg.absorb pch) := by
  have some_bytes : 0 < pch.length := List.length_pos_iff.mpr nonempty
  cases phase : msg.in_data with
  | false =>
      have header := wf.nHdrPos_lt phase
      have absorbed : msg.absorb pch = msg.readHeader pch := by simp [CNetMessage.absorb, phase]
      refine ⟨min (24 - msg.nHdrPos) pch.length, by omega, Nat.min_le_right _ _, ?_⟩
      rw [absorbed]
      exact absorb_of_header wf phase pch
  | true =>
      have short := wf.nDataPos_lt phase incomplete
      have absorbed : msg.absorb pch = (some (msg.readData pch).1, (msg.readData pch).2) := by
        simp [CNetMessage.absorb, phase]
      refine ⟨min (msg.hdr.nMessageSize.toNat - msg.nDataPos) pch.length, by omega,
        Nat.min_le_right _ _, ?_⟩
      rw [absorbed]
      exact absorb_of_data wf phase incomplete pch

/-! ## The messages of a node -/

/-- The frames of a node's complete messages. -/
def framesOf (vRecvMsg : List CNetMessage) : List Frame :=
  (vRecvMsg.filter CNetMessage.complete).map CNetMessage.frame

/--
`older` are complete messages and `msg` the message in progress; together
they hold the frames of `bytes` and the bytes after them.
-/
structure Holds (older : List CNetMessage) (msg : CNetMessage) (bytes : List UInt8) : Prop where
  older_wf : ∀ m ∈ older, m.Wf ∧ m.complete = true
  wf : msg.Wf
  incomplete : msg.complete = false
  frames : frameStream bytes = (older.map CNetMessage.frame, .pending msg.received)

/-- The messages of a node that has been given the stream `bytes` and goes on reading it. -/
def Represents (pchMessageStart : List UInt8) (vRecvMsg : List CNetMessage)
    (bytes : List UInt8) : Prop :=
  Holds (currentMessage pchMessageStart vRecvMsg).1 (currentMessage pchMessageStart vRecvMsg).2 bytes

/-- The messages of a node that has refused the stream `bytes` at byte `position`. -/
structure Refused (vRecvMsg : List CNetMessage) (bytes : List UInt8) (position : Nat) : Prop where
  complete_wf : ∀ m ∈ vRecvMsg, m.complete = true → m.Wf
  frames : frameStream bytes = (framesOf vRecvMsg, .rejected position)

theorem currentMessage_append (pchMessageStart : List UInt8) (older : List CNetMessage)
    (msg : CNetMessage) :
    currentMessage pchMessageStart (older ++ [msg]) =
      if msg.complete then (older ++ [msg], CNetMessage.new pchMessageStart) else (older, msg) := by
  simp [currentMessage]

/-- The current message is the last one, or a new one after them all. -/
theorem currentMessage_cases (pchMessageStart : List UInt8) (vRecvMsg : List CNetMessage) :
    (vRecvMsg = (currentMessage pchMessageStart vRecvMsg).1 ++
        [(currentMessage pchMessageStart vRecvMsg).2] ∧
      (currentMessage pchMessageStart vRecvMsg).2.complete = false) ∨
    (vRecvMsg = (currentMessage pchMessageStart vRecvMsg).1 ∧
      (currentMessage pchMessageStart vRecvMsg).2 = CNetMessage.new pchMessageStart) := by
  induction vRecvMsg using List.reverseRecOn with
  | nil => exact .inr ⟨rfl, rfl⟩
  | append_singleton older msg _ =>
      rw [currentMessage_append]
      cases complete : msg.complete
      · exact .inl ⟨rfl, complete⟩
      · exact .inr ⟨rfl, rfl⟩

theorem represents_nil (pchMessageStart : List UInt8) : Represents pchMessageStart [] [] where
  older_wf := by simp [currentMessage]
  wf := CNetMessage.new_wf pchMessageStart
  incomplete := rfl
  frames := frameStream_short (by decide)

/-- The messages of a node: its complete ones, and the one in progress if it has started. -/
theorem Holds.framesOf {older : List CNetMessage} {msg : CNetMessage} {bytes : List UInt8}
    (holds : Holds older msg bytes) {msg' : CNetMessage} (incomplete : msg'.complete = false) :
    framesOf older = older.map CNetMessage.frame ∧
      framesOf (older ++ [msg']) = older.map CNetMessage.frame := by
  have complete : older.filter CNetMessage.complete = older :=
    List.filter_eq_self.mpr fun m member => (holds.older_wf m member).2
  constructor
  · rw [Dogecoin.Net.framesOf, complete]
  · rw [Dogecoin.Net.framesOf, List.filter_append, complete, List.filter_singleton, incomplete]
    simp

theorem CNetMessage.Wf.with_nTime {msg : CNetMessage} (wf : msg.Wf) (nTime : Int) :
    CNetMessage.Wf { msg with nTime := nTime } := by
  cases wf with
  | header in_header hdrbuf_length nHdrPos_lt no_data empty unhashed =>
      exact .header in_header hdrbuf_length nHdrPos_lt no_data empty unhashed
  | data in_data hdrbuf_length read accepted within allocated hashed =>
      exact .data in_data hdrbuf_length read accepted within allocated hashed

section Step

variable {older : List CNetMessage} {msg msg' : CNetMessage} {bytes taken : List UInt8}
  (holds : Holds older msg bytes) (received : msg'.received = msg.received ++ taken)
include holds received

/-- The message in progress takes bytes and stays incomplete. -/
theorem Holds.take_incomplete (wf : msg'.Wf) (incomplete : msg'.complete = false) :
    Holds older msg' (bytes ++ taken) where
  older_wf := holds.older_wf
  wf := wf
  incomplete := incomplete
  frames := by
    rw [frameStream_append_of_pending bytes _ _ taken holds.frames, ← received,
      wf.frameStream_of_incomplete incomplete]
    simp [FrameEnd.shift]

/-- The message in progress takes bytes and is complete: the next message starts afresh. -/
theorem Holds.take_complete (wf : msg'.Wf) (complete : msg'.complete = true)
    (pchMessageStart : List UInt8) (nTime : Int) :
    Holds (older ++ [{ msg' with nTime := nTime }]) (CNetMessage.new pchMessageStart)
      (bytes ++ taken) where
  older_wf := by
    intro m member
    rcases List.mem_append.mp member with old | latest
    · exact holds.older_wf m old
    · rw [List.mem_singleton.mp latest]
      exact ⟨wf.with_nTime nTime, complete⟩
  wf := CNetMessage.new_wf pchMessageStart
  incomplete := rfl
  frames := by
    rw [frameStream_append_of_pending bytes _ _ taken holds.frames, ← received,
      wf.frameStream_of_complete complete]
    simp [FrameEnd.shift, CNetMessage.frame]

/-- The message in progress takes bytes that make its header refused. -/
theorem Holds.refuse (rejected : frameStream msg'.received = ([], .rejected 24))
    (incomplete : msg'.complete = false) (more : List UInt8) :
    ∃ p, Refused (older ++ [msg']) (bytes ++ taken ++ more) p ∧ bytes.length < p ∧
      p ≤ bytes.length + taken.length := by
  have extended : frameStream (bytes ++ taken) =
      (older.map CNetMessage.frame, .rejected (bytes.length - msg.received.length + 24)) := by
    rw [frameStream_append_of_pending bytes _ _ taken holds.frames, ← received, rejected]
    simp [FrameEnd.shift]
  have after := frameStream_rejected_after bytes _ _ taken _ holds.frames (by rw [extended])
  have within := (frameStream_rejected_bounds _ _ (by rw [extended])).2
  rw [List.length_append] at within
  refine ⟨_, ⟨?_, ?_⟩, after, within⟩
  · intro m member complete
    rcases List.mem_append.mp member with old | latest
    · exact (holds.older_wf m old).1
    · rw [List.mem_singleton.mp latest] at complete
      rw [incomplete] at complete
      cases complete
  · rw [frameStream_append_of_rejected _ _ more (by rw [extended]), extended,
      (holds.framesOf incomplete).2]

end Step

/-! ## The receive loop -/

/--
The receive loop on a node that represents `bytes`: it returns true and
represents `bytes` followed by `pch`, or it returns false having refused the
stream at a byte of `pch`.  Each iteration takes a byte or more, so fuel for
every byte is enough.
-/
theorem receiveLoop_spec (pchMessageStart : List UInt8) (nTimeMicros : Int) :
    ∀ (fuel : Nat) (node : CNode) (pch bytes : List UInt8) (complete : Bool),
      pch.length ≤ fuel → Represents pchMessageStart node.vRecvMsg bytes →
        ∃ ok node' complete',
          node.receiveLoop pchMessageStart nTimeMicros fuel pch complete = some (ok, node', complete') ∧
            (ok = true → Represents pchMessageStart node'.vRecvMsg (bytes ++ pch)) ∧
            (ok = false → ∃ p, Refused node'.vRecvMsg (bytes ++ pch) p ∧ bytes.length < p ∧
              p ≤ bytes.length + pch.length) := by
  intro fuel
  induction fuel with
  | zero =>
      intro node pch bytes complete bound represents
      cases pch with
      | nil => exact ⟨true, node, complete, rfl, fun _ => by simpa using represents, nofun⟩
      | cons x xs => simp at bound
  | succ fuel more =>
      intro node pch bytes complete bound represents
      cases pch with
      | nil => exact ⟨true, node, complete, rfl, fun _ => by simpa using represents, nofun⟩
      | cons x xs =>
          unfold Represents at represents
          simp only [CNode.receiveLoop]
          generalize currentMessage pchMessageStart node.vRecvMsg = current at represents ⊢
          obtain ⟨older, msg⟩ := current
          obtain ⟨k, some_bytes, at_most, absorbed⟩ :=
            absorb_spec represents.wf represents.incomplete (List.cons_ne_nil x xs)
          have split_off : (x :: xs).take k ++ (x :: xs).drop k = x :: xs := List.take_append_drop _ _
          have taken_length : ((x :: xs).take k).length = k := List.length_take_of_le at_most
          generalize msg.absorb (x :: xs) = result at absorbed ⊢
          cases absorbed with
          | refused received rejected incomplete =>
              obtain ⟨p, refused, after, within⟩ :=
                represents.refuse received rejected incomplete ((x :: xs).drop k)
              rw [List.append_assoc, split_off] at refused
              rw [taken_length] at within
              exact ⟨false, _, complete, rfl, nofun, fun _ => ⟨p, refused, after, by omega⟩⟩
          | @oversized msg' received rejected incomplete in_data large =>
              obtain ⟨p, refused, after, within⟩ :=
                represents.refuse received rejected incomplete ((x :: xs).drop k)
              rw [List.append_assoc, split_off] at refused
              rw [taken_length] at within
              refine ⟨false, { node with vRecvMsg := older ++ [msg'] }, complete, ?_, nofun,
                fun _ => ⟨p, refused, after, by omega⟩⟩
              simp [in_data, large]
          | @taken msg' received wf =>
              have within_limit : (msg'.in_data && decide
                  (msg'.hdr.nMessageSize.toNat > MAX_PROTOCOL_MESSAGE_LENGTH)) = false := by
                cases wf with
                | header in_header => simp [in_header]
                | data _ _ _ accepted =>
                    simp only [CMessageHeader.accepted, Bool.and_eq_true, decide_eq_true_eq] at accepted
                    simp only [Bool.and_eq_false_iff, decide_eq_false_iff_not]
                    omega
              have rest_bound : ((x :: xs).drop k).length ≤ fuel := by
                simp only [List.length_drop, List.length_cons] at bound ⊢
                omega
              cases complete' : msg'.complete
              · have holds := represents.take_incomplete received wf complete'
                have next : Represents pchMessageStart (older ++ [msg']) (bytes ++ (x :: xs).take k) := by
                  unfold Represents
                  rw [currentMessage_append, complete']
                  exact holds
                obtain ⟨ok, node', complete'', ran, continues, stops⟩ :=
                  more { node with vRecvMsg := older ++ [msg'] } _ _ complete rest_bound next
                refine ⟨ok, node', complete'', ?_, ?_, ?_⟩
                · simpa [within_limit, complete'] using ran
                · intro ok_true
                  have represents' := continues ok_true
                  rwa [List.append_assoc, split_off] at represents'
                · intro ok_false
                  obtain ⟨p, refused, after, within⟩ := stops ok_false
                  rw [List.append_assoc, split_off] at refused
                  simp only [List.length_append, List.length_drop, taken_length,
                    List.length_cons] at after within at_most ⊢
                  exact ⟨p, refused, by omega, by omega⟩
              · have holds := represents.take_complete received wf complete' pchMessageStart
                  nTimeMicros
                have next : Represents pchMessageStart (older ++ [{ msg' with nTime := nTimeMicros }])
                    (bytes ++ (x :: xs).take k) := by
                  unfold Represents
                  rw [currentMessage_append,
                    if_pos (show CNetMessage.complete { msg' with nTime := nTimeMicros } from complete')]
                  exact holds
                obtain ⟨ok, node', complete'', ran, continues, stops⟩ :=
                  more { node with vRecvMsg := older ++ [{ msg' with nTime := nTimeMicros }] } _ _
                    true rest_bound next
                refine ⟨ok, node', complete'', ?_, ?_, ?_⟩
                · simpa [within_limit, complete'] using ran
                · intro ok_true
                  have represents' := continues ok_true
                  rwa [List.append_assoc, split_off] at represents'
                · intro ok_false
                  obtain ⟨p, refused, after, within⟩ := stops ok_false
                  rw [List.append_assoc, split_off] at refused
                  simp only [List.length_append, List.length_drop, taken_length,
                    List.length_cons] at after within at_most ⊢
                  exact ⟨p, refused, by omega, by omega⟩

/-- One call of `ReceiveMsgBytes`: the loop with fuel for every byte. -/
theorem receiveMsgBytes_spec (pchMessageStart : List UInt8) (nTimeMicros : Int) (node : CNode)
    (pch bytes : List UInt8) (represents : Represents pchMessageStart node.vRecvMsg bytes) :
    ∃ ok node' complete,
      node.receiveMsgBytes pchMessageStart nTimeMicros pch = some (ok, node', complete) ∧
        (ok = true → Represents pchMessageStart node'.vRecvMsg (bytes ++ pch)) ∧
        (ok = false → ∃ p, Refused node'.vRecvMsg (bytes ++ pch) p ∧ bytes.length < p ∧
          p ≤ bytes.length + pch.length) :=
  receiveLoop_spec pchMessageStart nTimeMicros pch.length _ pch bytes false (Nat.le_refl _)
    represents

/-! ## Runs over chunks -/

/-- The bytes of a run's chunks, one after the other. -/
def chunkBytes (calls : List (Int × List UInt8)) : List UInt8 :=
  calls.flatMap Prod.snd

/-- A node that has refused a stream has refused it with whatever bytes follow. -/
theorem Refused.append {vRecvMsg : List CNetMessage} {bytes : List UInt8} {p : Nat}
    (refused : Refused vRecvMsg bytes p) (more : List UInt8) :
    Refused vRecvMsg (bytes ++ more) p where
  complete_wf := refused.complete_wf
  frames := by rw [frameStream_append_of_rejected bytes p more (by rw [refused.frames]), refused.frames]

/--
The socket handler over `calls`, from a node that represents `bytes`: it
represents the bytes followed by every chunk, or it stops at the call whose
chunk holds the byte at which it refused them.
-/
theorem feedChunks_spec (pchMessageStart : List UInt8) :
    ∀ (calls : List (Int × List UInt8)) (node : CNode) (bytes : List UInt8),
      Represents pchMessageStart node.vRecvMsg bytes →
        ∃ stop node', feedChunks pchMessageStart node calls = some (stop, node') ∧
          (stop = none → Represents pchMessageStart node'.vRecvMsg (bytes ++ chunkBytes calls)) ∧
          ∀ j, stop = some j → ∃ p, Refused node'.vRecvMsg (bytes ++ chunkBytes calls) p ∧
            bytes.length + (chunkBytes (calls.take j)).length < p ∧
            p ≤ bytes.length + (chunkBytes (calls.take (j + 1))).length
  | [], node, bytes, represents =>
      ⟨none, node, rfl, fun _ => by simpa [chunkBytes] using represents, nofun⟩
  | (nTimeMicros, pch) :: calls, node, bytes, represents => by
      obtain ⟨ok, node', complete, received, continues, stops⟩ :=
        receiveMsgBytes_spec pchMessageStart nTimeMicros node pch bytes represents
      cases ok with
      | false =>
          obtain ⟨p, refused, after, within⟩ := stops rfl
          refine ⟨some 0, node', by simp [feedChunks, received], nofun, ?_⟩
          intro j stopped
          cases stopped
          refine ⟨p, ?_, by simpa [chunkBytes] using after, by simpa [chunkBytes] using within⟩
          have whole := refused.append (chunkBytes calls)
          rwa [List.append_assoc] at whole
      | true =>
          obtain ⟨stop, node'', fed, continues', stops'⟩ :=
            feedChunks_spec pchMessageStart calls node' (bytes ++ pch) (continues rfl)
          have ran : feedChunks pchMessageStart node ((nTimeMicros, pch) :: calls) =
              some (stop.map (· + 1), node'') := by
            simp [feedChunks, received, fed]
          have chunks : bytes ++ pch ++ chunkBytes calls =
              bytes ++ chunkBytes ((nTimeMicros, pch) :: calls) := by
            simp [chunkBytes]
          refine ⟨stop.map (· + 1), node'', ran, ?_, ?_⟩
          · intro none_left
            rw [← chunks]
            exact continues' (Option.map_eq_none_iff.mp none_left)
          · intro j stopped
            obtain ⟨j', stopped', rfl⟩ := Option.map_eq_some_iff.mp stopped
            obtain ⟨p, refused, after, within⟩ := stops' j' stopped'
            rw [chunks] at refused
            refine ⟨p, refused, ?_, ?_⟩
            · simp only [List.length_append] at after
              simpa [chunkBytes, Nat.add_assoc] using after
            · simp only [List.length_append] at within
              simpa [chunkBytes, Nat.add_assoc] using within

/-! ## What a run shows -/

/-- A node that represents `bytes` holds their frames in its complete messages. -/
theorem Represents.frames {pchMessageStart : List UInt8} {vRecvMsg : List CNetMessage}
    {bytes : List UInt8} (represents : Represents pchMessageStart vRecvMsg bytes) :
    (frameStream bytes).1 = framesOf vRecvMsg ∧ (∃ r, (frameStream bytes).2 = .pending r) ∧
      ∀ m ∈ vRecvMsg, m.complete = true → m.Wf := by
  have shapes := currentMessage_cases pchMessageStart vRecvMsg
  unfold Represents at represents
  generalize currentMessage pchMessageStart vRecvMsg = current at represents shapes
  obtain ⟨older, msg⟩ := current
  dsimp only at represents shapes
  have pending : ∃ r, (frameStream bytes).2 = .pending r := ⟨_, by rw [represents.frames]⟩
  rcases shapes with ⟨rfl, incomplete⟩ | ⟨rfl, rfl⟩
  · refine ⟨by rw [represents.frames, (represents.framesOf incomplete).2], pending, ?_⟩
    intro m member complete
    rcases List.mem_append.mp member with old | latest
    · exact (represents.older_wf m old).1
    · rw [List.mem_singleton.mp latest, incomplete] at complete
      cases complete
  · refine ⟨by rw [represents.frames, (represents.framesOf (CNetMessage.complete_new pchMessageStart)).1],
      pending, fun m member _ => (represents.older_wf m member).1⟩

/-- What a consumer reads of each complete message: its header, `vRecv` and `GetMessageHash`. -/
def CNode.messages (finalize : List UInt8 → UInt256) (node : CNode) :
    List (CMessageHeader × List UInt8 × Option UInt256) :=
  (node.vRecvMsg.filter CNetMessage.complete).map fun msg =>
    (msg.hdr, msg.vRecv, msg.getMessageHash finalize)

/-- The same of a frame: its header, its payload and the hash of the payload. -/
def Frame.view (finalize : List UInt8 → UInt256) (frame : Frame) :
    CMessageHeader × List UInt8 × Option UInt256 :=
  (frame.hdr, frame.payload, some (finalize frame.payload))

/-- Complete messages that are well formed are read as their frames. -/
theorem messages_eq_framesOf (finalize : List UInt8 → UInt256) {node : CNode}
    (complete_wf : ∀ m ∈ node.vRecvMsg, m.complete = true → m.Wf) :
    node.messages finalize = (framesOf node.vRecvMsg).map (Frame.view finalize) := by
  rw [CNode.messages, framesOf, List.map_map]
  apply List.map_congr_left
  intro msg member
  obtain ⟨inside, complete⟩ := List.mem_filter.mp member
  have hashed := (complete_wf msg inside complete).hasher_of_complete complete
  simp [Frame.view, CNetMessage.frame, CNetMessage.getMessageHash, complete, hashed]

/-- The frames of a stream are its headers, each followed by as many bytes as it says, back to back. -/
theorem frameStream_serialize (bytes : List UInt8) :
    ∃ rest, bytes = (frameStream bytes).1.flatMap (fun frame => frame.hdr.serialize ++ frame.payload) ++
      rest ∧ ∀ frame ∈ (frameStream bytes).1, frame.hdr.accepted = true ∧
        frame.payload.length = frame.hdr.nMessageSize.toNat := by
  fun_induction frameStream bytes with
  | case1 bytes short => exact ⟨bytes, rfl, nofun⟩
  | case2 bytes long read => exact ⟨bytes, rfl, nofun⟩
  | case3 bytes long hdr read accepted incomplete => exact ⟨bytes, rfl, nofun⟩
  | case4 bytes long hdr read accepted whole rest more =>
      obtain ⟨tail, split, frames⟩ := more
      obtain ⟨hdr', read', serialized⟩ :=
        unserializeHeader_of_length (show (bytes.take 24).length = 24 by simp; omega)
      rw [read] at read'
      cases read'
      refine ⟨tail, ?_, ?_⟩
      · have payload : ((bytes.drop 24).take hdr.nMessageSize.toNat).length =
            hdr.nMessageSize.toNat := by simp; omega
        calc bytes = bytes.take 24 ++ (bytes.drop 24).take hdr.nMessageSize.toNat ++
              bytes.drop (24 + hdr.nMessageSize.toNat) := by
              rw [List.append_assoc, ← List.drop_drop, List.take_append_drop, List.take_append_drop]
          _ = _ := by
              rw [split]
              simp only [List.flatMap_cons, List.append_assoc, serialized]
              rfl
      · intro frame member
        rcases List.mem_cons.mp member with first | later
        · rw [first]
          exact ⟨accepted, by simp; omega⟩
        · exact frames frame later
  | case5 bytes long hdr read refused => exact ⟨bytes, rfl, nofun⟩

/--
A run from a fresh node on any chunks: its complete messages are the frames
of the stream, and it stops at the call that brings in the byte at which the
stream is refused, or nowhere when the stream is not refused.
-/
theorem feedChunks_frameStream (pchMessageStart : List UInt8) (finalize : List UInt8 → UInt256)
    (calls : List (Int × List UInt8)) :
    ∃ stop node, feedChunks pchMessageStart CNode.new calls = some (stop, node) ∧
      node.messages finalize = (frameStream (chunkBytes calls)).1.map (Frame.view finalize) ∧
      (stop = none ↔ ∃ r, (frameStream (chunkBytes calls)).2 = .pending r) ∧
      ∀ j, stop = some j → ∃ p, (frameStream (chunkBytes calls)).2 = .rejected p ∧
        (chunkBytes (calls.take j)).length < p ∧ p ≤ (chunkBytes (calls.take (j + 1))).length := by
  obtain ⟨stop, node, ran, continues, stops⟩ :=
    feedChunks_spec pchMessageStart calls CNode.new [] (represents_nil pchMessageStart)
  refine ⟨stop, node, ran, ?_⟩
  cases stop with
  | none =>
      obtain ⟨frames, pending, complete_wf⟩ := (continues rfl).frames
      rw [List.nil_append] at frames pending
      exact ⟨by rw [messages_eq_framesOf finalize complete_wf, frames], by simpa using pending, nofun⟩
  | some j =>
      obtain ⟨p, refused, after, within⟩ := stops j rfl
      rw [List.nil_append] at refused
      rw [List.length_nil, Nat.zero_add] at after within
      refine ⟨by rw [messages_eq_framesOf finalize refused.complete_wf, refused.frames], ?_, ?_⟩
      · simp [refused.frames]
      · intro j' stopped
        cases stopped
        exact ⟨p, by rw [refused.frames], after, within⟩

/--
Two runs from fresh nodes, on two ways of cutting one stream into chunks,
stop at the same byte or neither stops, and end with the same complete
messages: the headers of the stream read back to back with their payloads.
-/
theorem receiveMsgBytes_chunking (pchMessageStart : List UInt8) (finalize : List UInt8 → UInt256)
    (calls calls' : List (Int × List UInt8)) (same : chunkBytes calls = chunkBytes calls') :
    ∃ stop node stop' node',
      feedChunks pchMessageStart CNode.new calls = some (stop, node) ∧
      feedChunks pchMessageStart CNode.new calls' = some (stop', node') ∧
      node.messages finalize = node'.messages finalize ∧
      node.messages finalize = (frameStream (chunkBytes calls)).1.map (Frame.view finalize) ∧
      (∃ rest, chunkBytes calls = (frameStream (chunkBytes calls)).1.flatMap
        (fun frame => frame.hdr.serialize ++ frame.payload) ++ rest) ∧
      (∀ frame ∈ (frameStream (chunkBytes calls)).1,
        frame.hdr.accepted = true ∧ frame.payload.length = frame.hdr.nMessageSize.toNat) ∧
      ((stop = none ∧ stop' = none) ∨
        ∃ p j j', (frameStream (chunkBytes calls)).2 = .rejected p ∧ stop = some j ∧
          stop' = some j' ∧
          (chunkBytes (calls.take j)).length < p ∧ p ≤ (chunkBytes (calls.take (j + 1))).length ∧
          (chunkBytes (calls'.take j')).length < p ∧ p ≤ (chunkBytes (calls'.take (j' + 1))).length) := by
  obtain ⟨stop, node, ran, messages, none_iff, stops⟩ :=
    feedChunks_frameStream pchMessageStart finalize calls
  obtain ⟨stop', node', ran', messages', none_iff', stops'⟩ :=
    feedChunks_frameStream pchMessageStart finalize calls'
  rw [← same] at messages' none_iff' stops'
  obtain ⟨rest, serialized, frames⟩ := frameStream_serialize (chunkBytes calls)
  refine ⟨stop, node, stop', node', ran, ran', by rw [messages, messages'], messages,
    ⟨rest, serialized⟩, frames, ?_⟩
  cases stop with
  | none => exact .inl ⟨rfl, none_iff'.mpr (none_iff.mp rfl)⟩
  | some j =>
      obtain ⟨p, rejected, after, within⟩ := stops j rfl
      cases stop' with
      | none =>
          obtain ⟨r, pending⟩ := none_iff'.mp rfl
          rw [rejected] at pending
          cases pending
      | some j' =>
          obtain ⟨p', rejected', after', within'⟩ := stops' j' rfl
          rw [rejected] at rejected'
          cases rejected'
          exact .inr ⟨p, j, j', rejected, rfl, rfl, after, within, after', within'⟩

/-- One empty message in one chunk, and the same bytes in two chunks cut inside the header. -/
theorem receiveMsgBytes_chunking_header :
    chunkBytes [(0, List.replicate 24 0)] = chunkBytes [(0, List.replicate 10 0), (1, List.replicate 14 0)] ∧
      ∃ stop node stop' node',
        feedChunks [] CNode.new [(0, List.replicate 24 0)] = some (stop, node) ∧
        feedChunks [] CNode.new [(0, List.replicate 10 0), (1, List.replicate 14 0)] = some (stop', node') ∧
        node.messages (fun _ => 0) = node'.messages (fun _ => 0) := by
  have same : chunkBytes [(0, List.replicate 24 0)] =
      chunkBytes [(0, List.replicate 10 0), (1, List.replicate 14 0)] := by decide
  obtain ⟨stop, node, stop', node', ran, ran', messages, -⟩ :=
    receiveMsgBytes_chunking [] (fun _ => 0) _ _ same
  exact ⟨same, stop, node, stop', node', ran, ran', messages⟩

end Dogecoin.Net
