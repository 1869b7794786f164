import Rdt.Common.Protocol

/-! # `ClientProtocol` and `ClientProtocolGbn` -/

namespace Rdt

open Protocol

namespace ClientProtocol

def validateInboundPacket (rawPacket : Bytes) (source : Option Address) :
    Except Exn (Packet × Address) :=
  Protocol.validateInboundPacket .missingServerAddress rawPacket source

/-- Only the expected number is valid. -/
def validateAckNumber (packet : Packet) (ackNumber : SequenceNumber) : Except Exn Unit := do
  let n ← packet.getAckNumber
  if ackNumber.value ≠ n then .error ExnClass.invalidAckNumber.exn else .ok ()

/-- `if GO_BACK_N: validate_ack_number`: under Stop-and-Wait there is no number. -/
def validateInboundAck (rawPacket : Bytes) (source : Option Address)
    (ackNumber : Option SequenceNumber) : Except Exn (Packet × Address) := do
  let (packet, serverAddress) ← validateInboundPacket rawPacket source
  validateAck ExnClass.messageIsNotAck.exn packet
  match ackNumber with
  | some ackNumber => validateAckNumber packet ackNumber
  | none => .ok ()
  return (packet, serverAddress)

def validateSequenceNumber (packet : Packet) (sequenceNumber : SequenceNumber) :
    Except Exn Unit :=
  Protocol.validateSequenceNumber ExnClass.invalidSequenceNumber.exn packet sequenceNumber

/-- An ACK with both numbers right and no FIN: the common part of three operations. -/
def validateConfirmation (sequenceNumber : SequenceNumber) (ackNumber : Option SequenceNumber)
    (rawPacket : Bytes) (source : Option Address) : Except Exn (Packet × Address) := do
  let (packet, serverAddress) ← validateInboundAck rawPacket source ackNumber
  validateNotFin packet
  validateSequenceNumber packet sequenceNumber
  return (packet, serverAddress)

/-- The answer to a SYN names the port of the connection. -/
def waitForConnectionRequestAnswer (sequenceNumber : SequenceNumber)
    (ackNumber : Option SequenceNumber) : Operation Address where
  bufferSize := commsBufferSize
  check rawPacket source := do
    let (packet, serverAddress) ← validateConfirmation sequenceNumber ackNumber rawPacket source
    if !packet.isSyn then .error ExnClass.messageIsNotSyn.exn
    else return ⟨serverAddress.host, UInt16.ofNat packet.port⟩
  exceptionsToLetThrough := []
  onFailure e := if e.cls = .connectionLost then ExnClass.connectionRefused.exn else e

def waitForOperationConfirmation (sequenceNumber : SequenceNumber)
    (ackNumber : Option SequenceNumber) : Operation Packet where
  bufferSize := commsBufferSize
  check rawPacket source :=
    (validateConfirmation sequenceNumber ackNumber rawPacket source).map Prod.fst
  exceptionsToLetThrough := []
  onFailure := id

def waitForAck (sequenceNumber : SequenceNumber) (ackNumber : Option SequenceNumber) :
    Operation Packet where
  bufferSize := commsBufferSize
  check rawPacket source :=
    (validateConfirmation sequenceNumber ackNumber rawPacket source).map Prod.fst
  exceptionsToLetThrough := []
  onFailure := id

def receiveFileChunkSaw (version : ProtocolType) (sequenceNumber : SequenceNumber) :
    Operation (SequenceNumber × Packet) where
  bufferSize := fullBufferSize
  check rawPacket source := do
    let (packet, _) ← validateInboundPacket rawPacket source
    validateSequenceNumber packet sequenceNumber
    return (⟨packet.sequenceNumber, version⟩, packet)
  exceptionsToLetThrough := []
  onFailure := id

def waitForFinOrAck (sequenceNumber : SequenceNumber) (ackNumber : Option SequenceNumber) :
    Operation Unit where
  bufferSize := commsBufferSize
  check rawPacket source := do
    let (packet, _) ← validateInboundPacket rawPacket source
    validateSequenceNumber packet sequenceNumber
    if !packet.isAck && !packet.isFin then .error ExnClass.messageNotFinNorAck.exn
    else match ackNumber with
      | some ackNumber => validateAckNumber packet ackNumber
      | none => .ok ()
  exceptionsToLetThrough := []
  onFailure := id

/-! ### What they let through and what they raise -/

theorem validateAckNumber_eq_ok {packet : Packet} {n : SequenceNumber} {u : Unit} :
    validateAckNumber packet n = .ok u ↔ packet.ackNumber = some n.value := by
  unfold validateAckNumber Packet.getAckNumber
  cases packet.ackNumber with
  | none => simp [bind, Except.bind]
  | some m => simp [bind, Except.bind, eq_comm]

theorem validateAckNumber_error {packet : Packet} {n : SequenceNumber} {e : Exn}
    (h : validateAckNumber packet n = .error e) :
    e.cls = .attributeError ∨ e.cls = .invalidAckNumber := by
  unfold validateAckNumber Packet.getAckNumber at h
  cases hm : packet.ackNumber with
  | none =>
      rw [hm] at h
      exact .inl (by rw [← Except.error.inj h]; rfl)
  | some m =>
      simp only [hm, bind, Except.bind] at h
      split at h
      · exact .inr (by rw [← Except.error.inj h]; rfl)
      · cases h

theorem waitForFinOrAck_eq_ok {n : SequenceNumber} {ack : Option SequenceNumber} {raw : Bytes}
    {source : Option Address} {u : Unit}
    (h : (waitForFinOrAck n ack).check raw source = .ok u) :
    raw ≠ [] ∧ (PacketParser.getPacketFromBytes raw).sequenceNumber = n.value ∧
      ((PacketParser.getPacketFromBytes raw).isAck = true ∨
        (PacketParser.getPacketFromBytes raw).isFin = true) ∧
      ∀ m ∈ ack, (PacketParser.getPacketFromBytes raw).ackNumber = some m.value := by
  obtain ⟨⟨packet, source⟩, hin, h⟩ := except_bind_eq_ok.mp h
  obtain ⟨hraw, -, hp⟩ := validateInboundPacket_eq_ok.mp hin
  obtain ⟨_, hseq, h⟩ := except_bind_eq_ok.mp h
  have hseq := validateSequenceNumber_eq_ok.mp hseq
  dsimp only at hp hseq h
  subst hp
  refine ⟨hraw, hseq, ?_⟩
  split at h
  · cases h
  · rename_i hflags
    refine ⟨by cases hack : (PacketParser.getPacketFromBytes raw).isAck <;> simp_all, ?_⟩
    rintro m hm
    rw [Option.mem_def] at hm
    subst hm
    exact validateAckNumber_eq_ok.mp h

theorem waitForFinOrAck_raises {n : SequenceNumber} {ack : Option SequenceNumber} {e : Exn}
    (h : (waitForFinOrAck n ack).Raises e) :
    e.cls ∈ [ExnClass.socketShutdown, .missingServerAddress, .invalidSequenceNumber,
      .messageNotFinNorAck, .attributeError, .invalidAckNumber, .connectionLost] := by
  rcases h with ⟨raw, source, h⟩ | rfl | rfl
  · rcases except_bind_eq_error.mp h with h | ⟨⟨packet, source⟩, -, h⟩
    · rcases validateInboundPacket_error h with h | h <;> simp [h]
    · rcases except_bind_eq_error.mp h with h | ⟨_, -, h⟩
      · simp [(validateSequenceNumber_error h).1]
      · split at h
        · simp [← Except.error.inj h]
        · split at h
          · rcases validateAckNumber_error h with h | h <;> simp [h]
          · cases h
  · simp [waitForFinOrAck]
  · simp [waitForFinOrAck]

end ClientProtocol

namespace ClientProtocolGbn

def validateInboundPacket (rawPacket : Bytes) (source : Option Address) :
    Except Exn (Packet × Address) :=
  Protocol.validateInboundPacket .missingServerAddress rawPacket source

/-- The checks of `validate_inbound_ack` are commented out in the source. -/
def waitForAck (rawPacket : Bytes) (source : Option Address) : Except Exn Packet := do
  let (packet, _) ← validateInboundPacket rawPacket source
  validateNotFin packet
  return packet

/-- `receive_file_chunk` up to the number, which the receiver looks at itself. -/
def receiveFileChunk (rawPacket : Bytes) (source : Option Address) : Except Exn Packet :=
  (validateInboundPacket rawPacket source).map Prod.fst

/-- `receive_file_chunk` as a whole -/
def receiveFileChunkNumbered (sequenceNumber : SequenceNumber) (rawPacket : Bytes)
    (source : Option Address) : Except Exn Packet := do
  let packet ← receiveFileChunk rawPacket source
  Protocol.validateSequenceNumber (ExnClass.invalidSequenceNumber.carrying packet) packet
    sequenceNumber
  return packet

/-- The packet returned, or raised, is the one that was parsed. -/
theorem waitForAck_parsed {raw : Bytes} {source : Option Address} {packet : Packet}
    (h : waitForAck raw source = .ok packet ∨
      ∃ cls, waitForAck raw source = .error ⟨cls, some packet⟩) :
    packet = PacketParser.getPacketFromBytes raw := by
  unfold waitForAck at h
  cases hin : validateInboundPacket raw source with
  | error e =>
      have hnone := validateInboundPacket_packet hin
      simp only [hin, bind, Except.bind] at h
      rcases h with h | ⟨cls, h⟩
      · cases h
      · rw [Except.error.inj h] at hnone
        cases hnone
  | ok r =>
      obtain ⟨-, -, hr⟩ := validateInboundPacket_eq_ok.mp hin
      rw [hr]
      simp only [hin, bind, Except.bind, validateNotFin] at h
      split at h
      · rename_i hfin
        split at hfin
        · obtain rfl := Except.error.inj hfin
          rcases h with h | ⟨cls, h⟩ <;> cases h
          rfl
        · cases hfin
      · rcases h with h | ⟨cls, h⟩ <;> cases h
        rfl

end ClientProtocolGbn

end Rdt
