import Rdt.Common.FileHandler
import Rdt.Common.Socket

/-!
# The Go-Back-N sender and receiver

Each class exists twice, in `lib/client` and `lib/server`.  The receivers and the sending
loop agree; the two senders differ in their first index, in `split_file_in_chunks` and in
`await_ack_phase`.
-/

namespace Rdt

open PacketParser

/-- Where `send_file` stands: at the head of the loop of `send_packets_in_window` (with its
local `packet`), about to enter `await_ack_phase`, or blocked in `wait_for_ack`. -/
inductive SenderPoint where
  | sendPacketsInWindow (packet : Option Bytes)
  | awaitAckPhase
  | waitForAck (startTime : Time)
deriving DecidableEq, Repr

/-- `GoBackNSender` with the local variables of `send_file`.  `sqn_number` and
`offset_initial_seq_number` are one object in the source, so one field here. -/
structure GoBackNSender where
  base : Nat
  offsetInitialSeqNumber : SequenceNumber
  ackNumber : SequenceNumber
  nextSeqNum : SequenceNumber
  spentInReception : Time
  chunks : List Bytes
  lastRawPacket : Option Bytes
  alreadyReceivedFinBack : Bool
  point : SenderPoint
deriving DecidableEq, Repr

namespace GoBackNSender

def totalChunks (s : GoBackNSender) : Nat := s.chunks.length

/-- `for _ in range(n): chunk = read(...); if len(chunk) > 0: append(chunk)` -/
def readChunks : Nat → File → List Bytes × File
  | 0, file => ([], file)
  | n + 1, file =>
      let (chunk, file) := FileHandler.read file fileChunkSizeGbn
      let (chunkList, file) := readChunks n file
      (if 0 < chunk.length then chunk :: chunkList else chunkList, file)

/-- `split_file_in_chunks` of the client -/
def splitFileInChunksClient (file : File) (filesize : Nat) : List Bytes × File :=
  readChunks (FileHandler.getNumberOfChunks filesize fileChunkSizeGbn) file

/-- `split_file_in_chunks` of the server, called after the first chunk was read -/
def splitFileInChunksServer (file : File) (filesize : Nat) : List Bytes × File :=
  let amountToUnwind := if filesize < fileChunkSizeGbn then filesize else fileChunkSizeGbn
  readChunks (FileHandler.getNumberOfChunks filesize fileChunkSizeGbn)
    (FileHandler.unwind file amountToUnwind)

/-- `__init__` of the client's class and the first lines of `send_file`: stepping
`sqn_number` moves the offset too. -/
def initClient (sequenceNumber ackNumber : SequenceNumber) (chunks : List Bytes) :
    GoBackNSender where
  base := 0
  offsetInitialSeqNumber := sequenceNumber.step
  ackNumber := ackNumber.step
  nextSeqNum := ⟨0, .goBackN⟩
  spentInReception := 0
  chunks := chunks
  lastRawPacket := none
  alreadyReceivedFinBack := false
  point := .sendPacketsInWindow none

/-- `__init__` of the server's class: chunk 0 is already acknowledged. -/
def initServer (sequenceNumber ackNumber : SequenceNumber) (chunks : List Bytes) :
    GoBackNSender where
  base := 1
  offsetInitialSeqNumber := sequenceNumber
  ackNumber := ackNumber.step
  nextSeqNum := ⟨1, .goBackN⟩
  spentInReception := 0
  chunks := chunks
  lastRawPacket := none
  alreadyReceivedFinBack := false
  point := .sendPacketsInWindow none

def resetWindow (s : GoBackNSender) : GoBackNSender :=
  { s with nextSeqNum := { s.nextSeqNum with value := s.base }, spentInReception := 0 }

/-- How `send_file` goes on. -/
inductive Result where
  | running (s : GoBackNSender) (sent : Option Bytes)
  | returned (s : GoBackNSender)
  | raised (e : Exn)

/-- The head of the loop of `send_file`. -/
def loop (s : GoBackNSender) (isLastChunkAcked : Bool) : Result :=
  if s.base < s.totalChunks ∧ ¬isLastChunkAcked then
    .running { s with point := .sendPacketsInWindow none } none
  else .returned s

theorem loop_ne_raised (s : GoBackNSender) (b : Bool) (e : Exn) : s.loop b ≠ .raised e := by
  unfold loop
  split <;> simp

/-- The chunk packet `send_packets_in_window` builds next. -/
def chunkPacket (s : GoBackNSender) (port : UInt16) : Packet :=
  let chunkToSend := s.chunks.getD s.nextSeqNum.value []
  { protocol := .goBackN
    sequenceNumber := s.nextSeqNum.value + s.offsetInitialSeqNumber.value
    isAck := false
    isSyn := false
    isFin := s.nextSeqNum.value = s.totalChunks - 1
    port := port.toNat
    payloadLength := chunkToSend.length
    data := chunkToSend
    ackNumber := some s.ackNumber.value }

/-- One turn of the loop of `send_packets_in_window`, or its end. -/
def sendPacketsInWindow (s : GoBackNSender) (packet : Option Bytes) (port : UInt16) : Result :=
  if s.nextSeqNum.value < s.base + windowSize ∧ s.nextSeqNum.value < s.totalChunks then
    match composePacketGbnForNet (s.chunkPacket port) with
    | .ok raw =>
        .running
          { s with nextSeqNum := s.nextSeqNum.step, point := .sendPacketsInWindow (some raw) }
          (some raw)
    | .error e => .raised e
  else .running { s with lastRawPacket := packet, point := .awaitAckPhase } none

/-- Running code takes one step: the two loops up to the receive of `await_ack_phase`. -/
def proceed (s : GoBackNSender) (port : UInt16) (now : Time) : Result :=
  match s.point with
  | .sendPacketsInWindow packet => s.sendPacketsInWindow packet port
  | .awaitAckPhase =>
      if s.base + 1 = s.totalChunks then s.loop true
      else .running { s with point := .waitForAck now } none
  | .waitForAck _ => .running s none

/-- `except RetransmissionNeeded` in `send_file` -/
def retransmissionNeeded (s : GoBackNSender) : Result := s.resetWindow.loop false

/-- A previous ACK: the time it took counts towards a retransmission. -/
def accumulate (s : GoBackNSender) (receptionDuration : Time) (isLastChunkAcked : Bool) :
    Result :=
  let s := { s with spentInReception := s.spentInReception + receptionDuration }
  if socketRetransmitWindowTimeout ≤ s.spentInReception then s.retransmissionNeeded
  else s.loop isLastChunkAcked

theorem retransmissionNeeded_ne_raised (s : GoBackNSender) (e : Exn) :
    s.retransmissionNeeded ≠ .raised e := loop_ne_raised _ _ e

theorem accumulate_ne_raised (s : GoBackNSender) (d : Time) (b : Bool) (e : Exn) :
    s.accumulate d b ≠ .raised e := by
  unfold accumulate
  dsimp only
  split
  · exact retransmissionNeeded_ne_raised _ e
  · exact loop_ne_raised _ _ e

/-- `base += packet.ack_number - ack_number` and what goes with it -/
def acknowledge (s : GoBackNSender) (ackNumber : Nat) : GoBackNSender :=
  { s with
    base := s.base + (ackNumber - s.ackNumber.value)
    ackNumber := ⟨ackNumber, .goBackN⟩
    spentInReception := 0 }

/-- A bare FIN: the receiving end is done. -/
def isFinBack (packet : Packet) : Bool := !packet.isAck && packet.isFin

/-- `await_ack_phase` of the client from the outcome of `wait_for_ack` on. -/
def awaitAckPhaseClient (s : GoBackNSender) (received : Except Exn Packet)
    (receptionDuration : Time) : Result :=
  let withPacket (s : GoBackNSender) (packet : Packet) (isLastChunkAcked : Bool) : Result :=
    match packet.getAckNumber with
    | .error e => .raised e
    | .ok n =>
        if s.ackNumber.value ≤ n then (s.acknowledge n).loop isLastChunkAcked
        else s.accumulate receptionDuration isLastChunkAcked
  match received with
  | .ok packet => withPacket s packet false
  | .error ⟨.unexpectedFinMessage, some packet⟩ =>
      if isFinBack packet then withPacket { s with alreadyReceivedFinBack := true } packet true
      else withPacket s packet false
  | .error e => if e.cls = .retransmissionNeeded then s.retransmissionNeeded else .raised e

/-- `await_ack_phase` of the server: it recomputes `is_last_chunk_acked`, and after an
unexpected FIN `reception_duration` is unbound. -/
def awaitAckPhaseServer (s : GoBackNSender) (received : Except Exn Packet)
    (receptionDuration : Time) : Result :=
  let withPacket (s : GoBackNSender) (packet : Packet) (otherwise : Result) : Result :=
    match packet.getAckNumber with
    | .error e => .raised e
    | .ok n =>
        if s.ackNumber.value ≤ n then
          let s := s.acknowledge n
          s.loop (s.base + 1 = s.totalChunks)
        else otherwise
  match received with
  | .ok packet => withPacket s packet (s.accumulate receptionDuration false)
  | .error ⟨.unexpectedFinMessage, some packet⟩ =>
      withPacket
        { s with alreadyReceivedFinBack := s.alreadyReceivedFinBack || isFinBack packet } packet
        (.raised ExnClass.unboundLocalError.exn)
  | .error e =>
      if e.cls = .invalidAckNumber then s.accumulate receptionDuration false
      else if e.cls = .retransmissionNeeded then s.retransmissionNeeded
      else .raised e

/-- Nothing gets out of `await_ack_phase` of the server but what its receive raised, and two Python
errors. -/
theorem awaitAckPhaseServer_raised {s : GoBackNSender} {received : Except Exn Packet} {d : Time}
    {e : Exn} (h : s.awaitAckPhaseServer received d = .raised e) :
    received = .error e ∨ e = ExnClass.attributeError.exn ∨ e = ExnClass.unboundLocalError.exn := by
  have number : ∀ {packet : Packet}, packet.getAckNumber = .error e → e = ExnClass.attributeError.exn := by
    intro packet h
    unfold Packet.getAckNumber at h
    split at h
    · cases h
    · exact (Except.error.inj h).symm
  unfold awaitAckPhaseServer at h
  dsimp only at h
  split at h
  · split at h
    · rename_i hn
      obtain rfl := Result.raised.inj h
      exact .inr (.inl (number hn))
    · split at h
      · exact absurd h (loop_ne_raised _ _ e)
      · exact absurd h (accumulate_ne_raised _ _ _ e)
  · split at h
    · rename_i hn
      obtain rfl := Result.raised.inj h
      exact .inr (.inl (number hn))
    · split at h
      · exact absurd h (loop_ne_raised _ _ e)
      · exact .inr (.inr (Result.raised.inj h).symm)
  · split at h
    · exact absurd h (accumulate_ne_raised _ _ _ e)
    · split at h
      · exact absurd h (retransmissionNeeded_ne_raised _ e)
      · exact .inl (congrArg Except.error (Result.raised.inj h))

theorem proceed_raised {s : GoBackNSender} {port : UInt16} {now : Time} {e : Exn}
    (h : s.proceed port now = .raised e) :
    e = ExnClass.structError.exn ∨ e = ExnClass.attributeError.exn := by
  unfold proceed at h
  split at h
  · unfold sendPacketsInWindow at h
    split at h
    · split at h
      · cases h
      · rename_i hcompose
        obtain rfl := Result.raised.inj h
        exact composePacketGbnForNet_error hcompose
    · cases h
  · split at h
    · exact absurd h (loop_ne_raised _ _ e)
    · cases h
  · cases h

/-- The sequence number `send_file` returns. -/
def returnedSequenceNumber (s : GoBackNSender) : SequenceNumber :=
  ⟨s.nextSeqNum.value + s.offsetInitialSeqNumber.value - 1, .goBackN⟩

/-! ### The chunks of a file -/

open FileHandler in
theorem readChunks_eq {k i : Nat} {file : File}
    (hpos : file.position = min file.content.length (fileChunkSizeGbn * i))
    (hk : i + k = getNumberOfChunks file.content.length fileChunkSizeGbn) :
    (readChunks k file).1 = (successiveReads fileChunkSizeGbn file.content).drop i := by
  induction k generalizing i file with
  | zero =>
      have hlen : (successiveReads fileChunkSizeGbn file.content).length = i := by simp [← hk]
      rw [List.drop_eq_nil_of_le hlen.le]
      rfl
  | succ k ih =>
      have hi : i < (successiveReads fileChunkSizeGbn file.content).length := by simp [← hk]
      have hread := read_eq_getElem hpos hi
      have hne : 0 < (FileHandler.read file fileChunkSizeGbn).1.length := by
        rw [hread]
        exact List.length_pos_iff.mpr
          (ne_nil_of_mem_successiveReads (by decide) (List.getElem_mem hi))
      have hpos' := position_read hpos
      have hrest := ih hpos' (by
        show i + 1 + k = getNumberOfChunks file.content.length fileChunkSizeGbn
        omega)
      rw [List.drop_eq_getElem_cons hi, ← hread]
      simp only [readChunks, if_pos hne]
      exact congrArg _ hrest

open FileHandler in
/-- The client splits a file it has just opened into its successive reads. -/
theorem splitFileInChunksClient_eq {file : File} (hpos : file.position = 0) :
    (splitFileInChunksClient file file.content.length).1 =
      successiveReads fileChunkSizeGbn file.content := by
  rw [splitFileInChunksClient, readChunks_eq (i := 0) (by simp [hpos]) (Nat.zero_add _)]
  rfl

open FileHandler in
/-- So does the server, after its first read is undone. -/
theorem splitFileInChunksServer_eq {file : File}
    (hpos : file.position = min file.content.length fileChunkSizeGbn) :
    (splitFileInChunksServer file file.content.length).1 =
      successiveReads fileChunkSizeGbn file.content := by
  have hpos' : (unwind file (if file.content.length < fileChunkSizeGbn then file.content.length
      else fileChunkSizeGbn)).position =
        min file.content.length (fileChunkSizeGbn * 0) := by
    simp only [unwind, hpos]
    split <;> omega
  exact readChunks_eq hpos' (Nat.zero_add _)

end GoBackNSender

/-! ## The receiver -/

/-- Where `receive_file` waits: in the loop for the first chunk or in the main one. -/
inductive ReceiverPoint where
  | receiveFirstChunk
  | receiveLoop
deriving DecidableEq, Repr

/-- `GoBackNReceiver`; `lastTransmittedPacket` is the argument of `receive_file`. -/
structure GoBackNReceiver where
  sqnNumber : SequenceNumber
  ackNumber : SequenceNumber
  lastTransmittedPacket : Option Bytes
  point : ReceiverPoint
deriving DecidableEq, Repr

namespace GoBackNReceiver

/-- What the receiver sends: an ACK with its two numbers, or `last_transmitted_packet` again. -/
inductive Reply where
  | sendAck (sequenceNumber ackNumber : SequenceNumber)
  | resendLast
deriving DecidableEq, Repr

structure Outcome where
  receiver : GoBackNReceiver
  replies : List Reply
  appended : Option Packet
  finished : Bool

def init (sequenceNumber ackNumber : SequenceNumber) (lastTransmittedPacket : Option Bytes) :
    GoBackNReceiver :=
  ⟨sequenceNumber, ackNumber, lastTransmittedPacket, .receiveFirstChunk⟩

/-- `sqn_number.step()` and `ack_number.step()` -/
def step (r : GoBackNReceiver) : GoBackNReceiver :=
  { r with sqnNumber := r.sqnNumber.step, ackNumber := r.ackNumber.step }

/-- `receive_single_chunk` acknowledges an expected packet without FIN. -/
def chunkReplies (r : GoBackNReceiver) (packet : Packet) : List Reply :=
  if r.sqnNumber.value = packet.sequenceNumber ∧ ¬packet.isFin then
    [.sendAck r.sqnNumber r.ackNumber]
  else []

/-- `receive_first_chunk` with `validate_first_packet_and_resend`, and what follows them in
`receive_file`: a first chunk without FIN is dropped, to be sent again. -/
def onFirstPacket (r : GoBackNReceiver) (packet : Packet) : Outcome :=
  if packet.sequenceNumber = r.ackNumber.value + 1 then
    { receiver := { r.step with point := .receiveLoop }
      replies := r.chunkReplies packet
      appended := if packet.isFin ∧ 0 < packet.payloadLength then some packet else none
      finished := packet.isFin }
  else
    { receiver := r, replies := r.chunkReplies packet ++ [.resendLast], appended := none,
      finished := false }

/-- One turn of the main loop of `receive_file`. -/
def onLoopPacket (r : GoBackNReceiver) (packet : Packet) : Outcome :=
  if r.sqnNumber.value = packet.sequenceNumber then
    { receiver := if packet.isFin then r else r.step
      replies := r.chunkReplies packet
      appended := some packet
      finished := packet.isFin }
  else
    { receiver := r, replies := [.sendAck r.sqnNumber r.ackNumber], appended := none,
      finished := false }

def onPacket (r : GoBackNReceiver) (packet : Packet) : Outcome :=
  match r.point with
  | .receiveFirstChunk => r.onFirstPacket packet
  | .receiveLoop => r.onLoopPacket packet

end GoBackNReceiver

end Rdt
