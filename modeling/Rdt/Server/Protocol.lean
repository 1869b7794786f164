import Rdt.Common.Protocol

/-! # `ServerProtocol` and `ServerProtocolGbn` -/

namespace Rdt

open Protocol

namespace ServerProtocol

def validateInboundPacket (rawPacket : Bytes) (source : Option Address) :
    Except Exn (Packet × Address) :=
  Protocol.validateInboundPacket .missingClientAddress rawPacket source

def validateInboundAck (rawPacket : Bytes) (source : Option Address) :
    Except Exn (Packet × Address) := do
  let (packet, clientAddress) ← validateInboundPacket rawPacket source
  validateAck ExnClass.messageIsNotAck.exn packet
  if packet.isFin then .error ExnClass.unexpectedFinMessage.exn
  else return (packet, clientAddress)

def validateSequenceNumber (packet : Packet) (sequenceNumber : SequenceNumber) :
    Except Exn Unit :=
  Protocol.validateSequenceNumber ExnClass.invalidSequenceNumber.exn packet sequenceNumber

def expectHandshakeCompletion : Operation (Packet × Address) where
  bufferSize := commsBufferSize
  check := validateInboundAck
  exceptionsToLetThrough := []
  onFailure := id

/-- The operation code, if it is one.  The numbers returned next to it are the packet's. -/
def processOperationIntention (packet : Packet) : Except Exn Nat :=
  let opCode := BigEndian.fromBytes packet.data
  if opCode ≠ uploadOperation ∧ opCode ≠ downloadOperation then
    .error ExnClass.unexpectedOperation.exn
  else .ok opCode

/-- The name is decoded before the number is looked at. -/
def receiveFilename (version : ProtocolType) (sequenceNumber : SequenceNumber) :
    Operation (SequenceNumber × String) where
  bufferSize := fullBufferSize
  check rawPacket source := do
    let (packet, _) ← validateInboundPacket rawPacket source
    let filename ← decodeUtf8 packet.data
    validateSequenceNumber packet sequenceNumber
    return (⟨packet.sequenceNumber, version⟩, filename)
  exceptionsToLetThrough := []
  onFailure := id

def receiveFilesize (version : ProtocolType) (sequenceNumber : SequenceNumber) :
    Operation (SequenceNumber × Nat) where
  bufferSize := commsBufferSize
  check rawPacket source := do
    let (packet, _) ← validateInboundPacket rawPacket source
    validateSequenceNumber packet sequenceNumber
    return (⟨packet.sequenceNumber, version⟩, BigEndian.fromBytes packet.data)
  exceptionsToLetThrough := []
  onFailure := id

def receiveFileChunk (version : ProtocolType) (sequenceNumber : SequenceNumber) :
    Operation (SequenceNumber × Packet) where
  bufferSize := fullBufferSize
  check rawPacket source := do
    let (packet, _) ← validateInboundPacket rawPacket source
    validateSequenceNumber packet sequenceNumber
    return (⟨packet.sequenceNumber, version⟩, packet)
  exceptionsToLetThrough := []
  onFailure := id

def waitForAck (sequenceNumber : SequenceNumber) : Operation Unit where
  bufferSize := commsBufferSize
  check rawPacket source := do
    let (packet, _) ← validateInboundAck rawPacket source
    validateSequenceNumber packet sequenceNumber
  exceptionsToLetThrough := []
  onFailure := id

def waitForFinOrAck (sequenceNumber : SequenceNumber) : Operation Unit where
  bufferSize := commsBufferSize
  check rawPacket source := do
    let (packet, _) ← validateInboundPacket rawPacket source
    validateSequenceNumber packet sequenceNumber
    if !packet.isAck && !packet.isFin then .error ExnClass.messageNotFinNorAck.exn else .ok ()
  exceptionsToLetThrough := []
  onFailure := id

/-! ### What they let through and what they raise -/

/-- The exceptions that get out of the receive operations. -/
def receiveRaises : List ExnClass :=
  [.socketShutdown, .missingClientAddress, .unicodeDecodeError, .invalidSequenceNumber,
    .messageIsNotAck, .unexpectedFinMessage, .messageNotFinNorAck, .connectionLost]

theorem validateInboundPacket_error {raw : Bytes} {source : Option Address} {e : Exn}
    (h : validateInboundPacket raw source = .error e) : e.cls ∈ receiveRaises := by
  rcases Protocol.validateInboundPacket_error h with h | h <;> simp [h, receiveRaises]

theorem validateSequenceNumber_error {packet : Packet} {n : SequenceNumber} {e : Exn}
    (h : validateSequenceNumber packet n = .error e) : e.cls ∈ receiveRaises := by
  simp [(Protocol.validateSequenceNumber_error h).1, receiveRaises]

theorem validateInboundAck_error {raw : Bytes} {source : Option Address} {e : Exn}
    (h : validateInboundAck raw source = .error e) : e.cls ∈ receiveRaises := by
  rcases except_bind_eq_error.mp h with h | ⟨⟨packet, address⟩, -, h⟩
  · exact validateInboundPacket_error h
  · rcases except_bind_eq_error.mp h with h | ⟨_, -, h⟩
    · simp [(validateAck_error h).1, receiveRaises]
    · split at h
      · simp [← Except.error.inj h, receiveRaises]
      · cases h

/-- The three operations that take a packet by its number alone. -/
theorem numbered_error {α : Type} {raw : Bytes} {source : Option Address} {e : Exn}
    {f : Packet × Address → Except Exn α}
    (hf : ∀ r e, f r = .error e → e.cls ∈ receiveRaises)
    (h : (validateInboundPacket raw source >>= f) = .error e) : e.cls ∈ receiveRaises := by
  rcases except_bind_eq_error.mp h with h | ⟨r, -, h⟩
  · exact validateInboundPacket_error h
  · exact hf r e h

theorem raises_of_check {α : Type} {op : Operation α} (hf : op.onFailure = id)
    (h : ∀ raw source e, op.check raw source = .error e → e.cls ∈ receiveRaises) {e : Exn}
    (he : op.Raises e) : e.cls ∈ receiveRaises := by
  rcases he with ⟨raw, source, hc⟩ | rfl | rfl
  · exact h raw source e hc
  · simp [hf, receiveRaises]
  · simp [hf, receiveRaises]

theorem receiveFilename_raises {version : ProtocolType} {n : SequenceNumber} {e : Exn}
    (h : (receiveFilename version n).Raises e) : e.cls ∈ receiveRaises := by
  refine raises_of_check rfl (fun raw source e h ↦ numbered_error (fun r e h ↦ ?_) h) h
  rcases except_bind_eq_error.mp h with h | ⟨_, -, h⟩
  · unfold decodeUtf8 at h
    split at h
    · cases h
    · simp [← Except.error.inj h, receiveRaises]
  · rcases except_bind_eq_error.mp h with h | ⟨_, -, h⟩
    · exact validateSequenceNumber_error h
    · exact absurd h except_pure_ne_error

theorem receiveFilesize_raises {version : ProtocolType} {n : SequenceNumber} {e : Exn}
    (h : (receiveFilesize version n).Raises e) : e.cls ∈ receiveRaises := by
  refine raises_of_check rfl (fun raw source e h ↦ numbered_error (fun r e h ↦ ?_) h) h
  rcases except_bind_eq_error.mp h with h | ⟨_, -, h⟩
  · exact validateSequenceNumber_error h
  · exact absurd h except_pure_ne_error

theorem receiveFileChunk_raises {version : ProtocolType} {n : SequenceNumber} {e : Exn}
    (h : (receiveFileChunk version n).Raises e) : e.cls ∈ receiveRaises := by
  refine raises_of_check rfl (fun raw source e h ↦ numbered_error (fun r e h ↦ ?_) h) h
  rcases except_bind_eq_error.mp h with h | ⟨_, -, h⟩
  · exact validateSequenceNumber_error h
  · exact absurd h except_pure_ne_error

theorem waitForAck_raises {n : SequenceNumber} {es : List ExnClass} {e : Exn}
    (h : ((waitForAck n).letThrough es).Raises e) : e.cls ∈ receiveRaises := by
  refine raises_of_check rfl (fun raw source e h ↦ ?_) h
  rcases except_bind_eq_error.mp h with h | ⟨_, -, h⟩
  · exact validateInboundAck_error h
  · exact validateSequenceNumber_error h

theorem waitForFinOrAck_raises {n : SequenceNumber} {e : Exn}
    (h : (waitForFinOrAck n).Raises e) : e.cls ∈ receiveRaises := by
  refine raises_of_check rfl (fun raw source e h ↦ numbered_error (fun r e h ↦ ?_) h) h
  rcases except_bind_eq_error.mp h with h | ⟨_, -, h⟩
  · exact validateSequenceNumber_error h
  · split at h
    · simp [← Except.error.inj h, receiveRaises]
    · cases h

theorem receiveFilename_eq_ok {version : ProtocolType} {n : SequenceNumber} {raw : Bytes}
    {source : Option Address} {r : SequenceNumber × String} :
    (receiveFilename version n).check raw source = .ok r ↔
      raw ≠ [] ∧ source.isSome = true ∧
        decodeUtf8 (PacketParser.getPacketFromBytes raw).data = .ok r.2 ∧
        (PacketParser.getPacketFromBytes raw).sequenceNumber = n.value ∧ r.1 = ⟨n.value, version⟩ := by
  refine except_bind_eq_ok.trans ⟨?_, ?_⟩
  · rintro ⟨⟨packet, address⟩, hin, h⟩
    obtain ⟨hraw, rfl, rfl⟩ := validateInboundPacket_eq_ok.mp hin
    obtain ⟨name, hname, h⟩ := except_bind_eq_ok.mp h
    obtain ⟨_, hseq, h⟩ := except_bind_eq_ok.mp h
    obtain rfl := except_pure_eq_ok.mp h
    have hseq := validateSequenceNumber_eq_ok.mp hseq
    exact ⟨hraw, rfl, hname, hseq, by rw [← hseq]⟩
  · rintro ⟨hraw, hsource, hname, hseq, hr⟩
    obtain ⟨address, rfl⟩ := Option.isSome_iff_exists.mp hsource
    refine ⟨(PacketParser.getPacketFromBytes raw, address),
      validateInboundPacket_eq_ok.mpr ⟨hraw, rfl, rfl⟩, ?_⟩
    refine except_bind_eq_ok.mpr ⟨_, hname, except_bind_eq_ok.mpr
      ⟨(), validateSequenceNumber_eq_ok.mpr hseq, except_pure_eq_ok.mpr ?_⟩⟩
    rw [hseq, ← hr]

/-- What the other two operations that take a packet by its number alone have in common. -/
theorem numbered_eq_ok {α : Type} {version : ProtocolType} {n : SequenceNumber} {raw : Bytes}
    {source : Option Address} {r : SequenceNumber × α} (f : Packet → α) :
    (do
        let (packet, _) ← validateInboundPacket raw source
        validateSequenceNumber packet n
        return (⟨packet.sequenceNumber, version⟩, f packet)) = Except.ok r ↔
      raw ≠ [] ∧ source.isSome = true ∧
        (PacketParser.getPacketFromBytes raw).sequenceNumber = n.value ∧
        r = (⟨n.value, version⟩, f (PacketParser.getPacketFromBytes raw)) := by
  refine except_bind_eq_ok.trans ⟨?_, ?_⟩
  · rintro ⟨⟨packet, address⟩, hin, h⟩
    obtain ⟨hraw, rfl, rfl⟩ := validateInboundPacket_eq_ok.mp hin
    obtain ⟨_, hseq, h⟩ := except_bind_eq_ok.mp h
    obtain rfl := except_pure_eq_ok.mp h
    have hseq := validateSequenceNumber_eq_ok.mp hseq
    exact ⟨hraw, rfl, hseq, by rw [← hseq]⟩
  · rintro ⟨hraw, hsource, hseq, rfl⟩
    obtain ⟨address, rfl⟩ := Option.isSome_iff_exists.mp hsource
    refine ⟨(PacketParser.getPacketFromBytes raw, address),
      validateInboundPacket_eq_ok.mpr ⟨hraw, rfl, rfl⟩, except_bind_eq_ok.mpr ⟨(),
       validateSequenceNumber_eq_ok.mpr hseq, except_pure_eq_ok.mpr ?_⟩⟩
    rw [hseq]

theorem receiveFilesize_eq_ok {version : ProtocolType} {n : SequenceNumber} {raw : Bytes}
    {source : Option Address} {r : SequenceNumber × Nat} :
    (receiveFilesize version n).check raw source = .ok r ↔
      raw ≠ [] ∧ source.isSome = true ∧
        (PacketParser.getPacketFromBytes raw).sequenceNumber = n.value ∧
        r = (⟨n.value, version⟩, BigEndian.fromBytes (PacketParser.getPacketFromBytes raw).data) :=
  numbered_eq_ok fun packet ↦ BigEndian.fromBytes packet.data

theorem receiveFileChunk_eq_ok {version : ProtocolType} {n : SequenceNumber} {raw : Bytes}
    {source : Option Address} {r : SequenceNumber × Packet} :
    (receiveFileChunk version n).check raw source = .ok r ↔
      raw ≠ [] ∧ source.isSome = true ∧
        (PacketParser.getPacketFromBytes raw).sequenceNumber = n.value ∧
        r = (⟨n.value, version⟩, PacketParser.getPacketFromBytes raw) :=
  numbered_eq_ok id

theorem waitForAck_eq_ok {n : SequenceNumber} {raw : Bytes} {source : Option Address} {u : Unit} :
    (waitForAck n).check raw source = .ok u ↔
      raw ≠ [] ∧ source.isSome = true ∧ (PacketParser.getPacketFromBytes raw).isAck = true ∧
        (PacketParser.getPacketFromBytes raw).isFin = false ∧
        (PacketParser.getPacketFromBytes raw).sequenceNumber = n.value := by
  simp only [waitForAck, validateInboundAck, validateInboundPacket]
  by_cases hraw : raw = []
  · exact iff_of_false (by simp [hraw, Protocol.validateInboundPacket, bind, Except.bind]) fun h ↦ h.1 hraw
  cases source with
  | none => simp [hraw, Protocol.validateInboundPacket, bind, Except.bind]
  | some A =>
      rw [validateInboundPacket_of_ne_nil hraw A]
      simp only [bind, Except.bind, validateAck, validateSequenceNumber, Protocol.validateSequenceNumber,
        pure, Except.pure]
      cases (PacketParser.getPacketFromBytes raw).isAck with
      | false => simp
      | true =>
          cases (PacketParser.getPacketFromBytes raw).isFin with
          | true => simp
          | false => simp [hraw, eq_comm]

theorem waitForFinOrAck_eq_ok {n : SequenceNumber} {raw : Bytes} {source : Option Address} {u : Unit}
    (h : (waitForFinOrAck n).check raw source = .ok u) :
    raw ≠ [] ∧ (PacketParser.getPacketFromBytes raw).sequenceNumber = n.value ∧
      ((PacketParser.getPacketFromBytes raw).isAck = true ∨
        (PacketParser.getPacketFromBytes raw).isFin = true) := by
  obtain ⟨⟨packet, source⟩, hin, h⟩ := except_bind_eq_ok.mp h
  obtain ⟨hraw, -, hp⟩ := validateInboundPacket_eq_ok.mp hin
  obtain ⟨_, hseq, h⟩ := except_bind_eq_ok.mp h
  have hseq := validateSequenceNumber_eq_ok.mp hseq
  dsimp only at hp hseq h
  subst hp
  refine ⟨hraw, hseq, ?_⟩
  split at h
  · cases h
  · rename_i hflags
    cases hack : (PacketParser.getPacketFromBytes raw).isAck <;> simp_all

end ServerProtocol

namespace ServerProtocolGbn

def validateInboundPacket (rawPacket : Bytes) (source : Option Address) :
    Except Exn (Packet × Address) :=
  Protocol.validateInboundPacket .missingClientAddress rawPacket source

/-- Any number from the expected one on is valid. -/
def validateAckNumber (packet : Packet) (ackNumber : SequenceNumber) : Except Exn Unit := do
  let n ← packet.getAckNumber
  if ackNumber.value ≤ n then .ok () else .error ExnClass.invalidAckNumber.exn

def validateInboundAck (rawPacket : Bytes) (source : Option Address)
    (ackNumber : SequenceNumber) : Except Exn (Packet × Address) := do
  let (packet, clientAddress) ← validateInboundPacket rawPacket source
  validateAck (ExnClass.messageIsNotAck.carrying packet) packet
  validateAckNumber packet ackNumber
  return (packet, clientAddress)

/-- `receive_file_chunk` up to the number, which the receiver looks at itself. -/
def receiveFileChunk (rawPacket : Bytes) (source : Option Address) : Except Exn Packet :=
  (validateInboundPacket rawPacket source).map Prod.fst

/-- `receive_file_chunk` as a whole -/
def receiveFileChunkNumbered (sequenceNumber : SequenceNumber) (rawPacket : Bytes)
    (source : Option Address) : Except Exn Packet := do
  let packet ← receiveFileChunk rawPacket source
  Protocol.validateSequenceNumber (ExnClass.invalidSequenceNumber.carrying packet) packet
    sequenceNumber
  return packet

def waitForAck (ackNumber : SequenceNumber) (rawPacket : Bytes) (source : Option Address) :
    Except Exn Packet :=
  let received : Except Exn Packet := do
    let (packet, _) ← validateInboundAck rawPacket source ackNumber
    validateNotFin packet
    return packet
  match received with
  | .error ⟨.messageIsNotAck, some packet⟩ =>
      if packet.isFin then .error (ExnClass.unexpectedFinMessage.carrying packet) else received
  | received => received

theorem validateAckNumber_error {packet : Packet} {n : SequenceNumber} {e : Exn}
    (h : validateAckNumber packet n = .error e) :
    e = ExnClass.attributeError.exn ∨ e = ExnClass.invalidAckNumber.exn := by
  rcases except_bind_eq_error.mp h with h | ⟨_, -, h⟩
  · unfold Packet.getAckNumber at h
    split at h
    · cases h
    · exact .inl (Except.error.inj h).symm
  · split at h
    · cases h
    · exact .inr (Except.error.inj h).symm

/-- The exceptions of `wait_for_ack`. -/
def waitForAckRaises : List ExnClass :=
  [.socketShutdown, .missingClientAddress, .messageIsNotAck, .unexpectedFinMessage, .attributeError,
    .invalidAckNumber]

theorem waitForAck_error {n : SequenceNumber} {raw : Bytes} {source : Option Address} {e : Exn}
    (h : waitForAck n raw source = .error e) : e.cls ∈ waitForAckRaises := by
  have received : ∀ e, (do
      let (packet, _) ← validateInboundAck raw source n
      validateNotFin packet
      return packet) = (.error e : Except Exn Packet) → e.cls ∈ waitForAckRaises := by
    intro e h
    rcases except_bind_eq_error.mp h with h | ⟨_, -, h⟩
    · rcases except_bind_eq_error.mp h with h | ⟨_, -, h⟩
      · rcases Protocol.validateInboundPacket_error h with h | h <;> simp [h, waitForAckRaises]
      · rcases except_bind_eq_error.mp h with h | ⟨_, -, h⟩
        · simp [(validateAck_error h).1, waitForAckRaises, ExnClass.carrying]
        · rcases except_bind_eq_error.mp h with h | ⟨_, -, h⟩
          · rcases validateAckNumber_error h with rfl | rfl <;> decide
          · cases h
    · rcases except_bind_eq_error.mp h with h | ⟨_, -, h⟩
      · simp [(validateNotFin_error h).1, waitForAckRaises, ExnClass.carrying]
      · cases h
  unfold waitForAck at h
  dsimp only at h
  split at h
  · split at h
    · simp [← Except.error.inj h, waitForAckRaises, ExnClass.carrying]
    · exact received e h
  · exact received e h

/-- The packet returned, or raised, is the one that was parsed. -/
theorem waitForAck_parsed {n : SequenceNumber} {raw : Bytes} {source : Option Address}
    {packet : Packet} (h : waitForAck n raw source = .ok packet ∨
      ∃ cls, waitForAck n raw source = .error ⟨cls, some packet⟩) :
    packet = PacketParser.getPacketFromBytes raw := by
  unfold waitForAck validateInboundAck at h
  cases hin : validateInboundPacket raw source with
  | error e =>
      have hnone := validateInboundPacket_packet hin
      obtain ⟨cls, packet'⟩ := e
      obtain rfl : packet' = none := hnone
      simp only [hin, bind, Except.bind] at h
      rcases h with h | ⟨cls, h⟩ <;> cases h
  | ok r =>
      obtain ⟨-, -, hr⟩ := validateInboundPacket_eq_ok.mp hin
      rw [hr]
      simp only [hin, bind, Except.bind, validateAck, validateAckNumber, Packet.getAckNumber,
        validateNotFin, pure, Except.pure] at h
      obtain ⟨parsed, A⟩ := r
      dsimp only at h ⊢
      cases hack : parsed.isAck with
      | false =>
          cases hfin : parsed.isFin <;> simp [hack, hfin, ExnClass.carrying] at h <;> exact h.symm
      | true =>
          cases hm : parsed.ackNumber with
          | none => simp [hack, hm, ExnClass.exn] at h
          | some m =>
              by_cases hle : n.value ≤ m <;> cases hfin : parsed.isFin <;>
                simp [hack, hm, hle, hfin, ExnClass.carrying, ExnClass.exn] at h <;> exact h.symm

end ServerProtocolGbn

namespace AccepterProtocol

def validateInboundPacket (rawPacket : Bytes) (source : Option Address) :
    Except Exn (Packet × Address) :=
  Protocol.validateInboundPacket .missingClientAddress rawPacket source

def validateAckNumber (packet : Packet) (ackNumber : SequenceNumber) : Except Exn Unit := do
  let n ← packet.getAckNumber
  if ackNumber.value ≠ n then .error ExnClass.invalidAckNumber.exn else .ok ()

/-- `if GO_BACK_N: validate_ack_number`: under Stop-and-Wait there is no number. -/
def validateInboundAck (rawPacket : Bytes) (source : Option Address)
    (ackNumber : Option SequenceNumber) : Except Exn (Packet × Address) := do
  let (packet, clientAddress) ← validateInboundPacket rawPacket source
  validateAck ExnClass.messageIsNotAck.exn packet
  match ackNumber with
  | some ackNumber => validateAckNumber packet ackNumber
  | none => .ok ()
  if packet.isFin then .error ExnClass.unexpectedFinMessage.exn
  else return (packet, clientAddress)

def expectHandshakeCompletion (ackNumber : Option SequenceNumber) :
    Operation (Packet × Address) where
  bufferSize := commsBufferSize
  check rawPacket source := validateInboundAck rawPacket source ackNumber
  exceptionsToLetThrough := []
  onFailure := id

/-! ### Copies that nothing calls -/

def receiveOperationIntention (version : ProtocolType) : Operation (Nat × SequenceNumber) where
  bufferSize := commsBufferSize
  check rawPacket source := do
    let (packet, _) ← validateInboundPacket rawPacket source
    let opCode ← ServerProtocol.processOperationIntention packet
    return (opCode, ⟨packet.sequenceNumber, version⟩)
  exceptionsToLetThrough := []
  onFailure := id

def receiveFilename : ProtocolType → SequenceNumber → Operation (SequenceNumber × String) :=
  ServerProtocol.receiveFilename

def receiveFilesize : ProtocolType → SequenceNumber → Operation (SequenceNumber × Nat) :=
  ServerProtocol.receiveFilesize

def receiveFileChunk : ProtocolType → SequenceNumber → Operation (SequenceNumber × Packet) :=
  ServerProtocol.receiveFileChunk

/-- It calls `validate_inbound_ack` without an ACK number. -/
def waitForAck (_ : SequenceNumber) : Operation Unit where
  bufferSize := commsBufferSize
  check _ _ := .error ExnClass.typeError.exn
  exceptionsToLetThrough := []
  onFailure := id

end AccepterProtocol

end Rdt
