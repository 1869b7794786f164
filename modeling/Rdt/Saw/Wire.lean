import Rdt.Client.Protocol
import Rdt.Server.Protocol

/-!
# Stop-and-Wait packets in a buffer

What a composed packet is to the receives, which see as much of it as their buffers hold.
-/

namespace Rdt.Saw

open PacketParser

/-- The bytes are a Stop-and-Wait packet; of its data a buffer may hold only a part. -/
def Carries (raw : Bytes) (number : Nat) (isAck isFin : Bool) (data : Bytes) : Prop :=
  ∃ isSyn port, ∀ n, sawProtocolHeaderSize ≤ n → raw.take n ≠ [] ∧
    getPacketFromBytes (raw.take n) = ⟨.stopAndWait, number, isAck, isSyn, isFin, port, data.length,
      data.take (n - sawProtocolHeaderSize), none⟩

variable {raw data : Bytes} {number n : Nat} {isAck isFin : Bool} {A : Address}

theorem carries_of_encode {m : SequenceNumber} {ack : Option SequenceNumber} {isSyn : Bool}
    {port : UInt16} (hm : m.value < 2)
    (h : Protocol.encode .stopAndWait m ack isAck isSyn isFin port data = .ok raw) :
    Carries raw m.value isAck isFin data := by
  let p : Packet := ⟨.stopAndWait, m.value, isAck, isSyn, isFin, port.toNat, data.length, data, none⟩
  have hport : p.port < 2 ^ 16 := port.toNat_lt
  have hcomposed : composePacketSawForNet p = .ok raw := h
  have hlen : p.payloadLength < 2 ^ 16 := by
    rcases structPack_cases [(2, sawFlags p.sequenceNumber p.isAck p.isSyn p.isFin), (2, p.port),
      (2, p.payloadLength)] with ⟨hf, -⟩ | herr
    · exact hf (2, p.payloadLength) (by simp)
    · rw [composePacketSawForNet, herr] at hcomposed
      cases hcomposed
  obtain rfl := Except.ok.inj ((composePacketSawForNet_eq_ok hport hlen).symm.trans hcomposed)
  refine ⟨isSyn, port.toNat, fun n hn ↦ ?_⟩
  have htake : (sawHeader p ++ p.data).take n =
      sawHeader p ++ data.take (n - sawProtocolHeaderSize) := by
    rw [List.take_append, length_sawHeader, List.take_of_length_le (by rw [length_sawHeader]; exact hn)]
    rfl
  refine ⟨?_, ?_⟩
  · rw [htake]
    intro hnil
    have := congrArg List.length hnil
    simp at this
  · rw [htake, getPacketFromBytes_sawHeader hport hlen]
    have hbit : (if m.value = 1 then 1 else 0) = m.value := by split <;> omega
    have hdata : (data.take (n - sawProtocolHeaderSize)).take data.length =
        data.take (n - sawProtocolHeaderSize) := List.take_of_length_le (by simp)
    simp only [p, hbit, hdata]

/-- A short packet is composed; one whose data does not fit its length field is not. -/
theorem encode_cases {m : SequenceNumber} (hm : m.value < 2) (ack : Option SequenceNumber)
    (isAck isSyn isFin : Bool) (port : UInt16) (data : Bytes) :
    (data.length < 2 ^ 16 ∧ ∃ raw,
        Protocol.encode .stopAndWait m ack isAck isSyn isFin port data = .ok raw ∧
          Carries raw m.value isAck isFin data) ∨
      (2 ^ 16 ≤ data.length ∧ Protocol.encode .stopAndWait m ack isAck isSyn isFin port data =
        .error ExnClass.structError.exn) := by
  rcases Nat.lt_or_ge data.length (2 ^ 16) with h | h
  · obtain ⟨raw, hraw⟩ := Protocol.encode_ok .stopAndWait (n := m) nofun
      isAck isSyn isFin port h
    exact .inl ⟨h, raw, hraw, carries_of_encode hm hraw⟩
  · refine .inr ⟨h, ?_⟩
    show composePacketSawForNet _ = _
    rw [composePacketSawForNet, structPack_error ⟨(2, data.length), by simp, h⟩]
    rfl

/-! ## The receives of a connection -/

section Server

open ServerProtocol

variable {s : SequenceNumber}

theorem validate_server (h : Carries raw number isAck isFin data) (hn : sawProtocolHeaderSize ≤ n) :
    ∃ p : Packet, validateInboundPacket (raw.take n) (some A) = .ok (p, A) ∧
      p.sequenceNumber = number ∧ p.isAck = isAck ∧ p.isFin = isFin ∧
      p.payloadLength = data.length ∧ p.data = data.take (n - sawProtocolHeaderSize) := by
  obtain ⟨isSyn, port, h⟩ := h
  obtain ⟨hne, hparse⟩ := h n hn
  refine ⟨_, Protocol.validateInboundPacket_of_ne_nil hne A, ?_⟩
  rw [hparse]
  exact ⟨rfl, rfl, rfl, rfl, rfl⟩

theorem check_receiveFilename (version : ProtocolType)
    (h : Carries raw number isAck isFin data) :
    (receiveFilename version s).check (raw.take fullBufferSize) (some A) =
      (decodeUtf8 (data.take (fullBufferSize - sawProtocolHeaderSize))).bind fun filename ↦
        if s.value ≠ number then .error ExnClass.invalidSequenceNumber.exn
        else .ok (⟨number, version⟩, filename) := by
  obtain ⟨p, hin, rfl, -, -, -, hd⟩ := validate_server (A := A) h (n := fullBufferSize) (by decide)
  simp only [receiveFilename, hin, bind, Except.bind, validateSequenceNumber,
    Protocol.validateSequenceNumber, hd, pure, Except.pure]
  cases decodeUtf8 (data.take (fullBufferSize - sawProtocolHeaderSize)) with
  | error e => rfl
  | ok filename => by_cases hs : s.value = p.sequenceNumber <;> simp [hs]

theorem check_receiveFilesize (version : ProtocolType)
    (h : Carries raw number isAck isFin data) :
    (receiveFilesize version s).check (raw.take commsBufferSize) (some A) =
      if s.value ≠ number then .error ExnClass.invalidSequenceNumber.exn
      else .ok (⟨number, version⟩,
        BigEndian.fromBytes (data.take (commsBufferSize - sawProtocolHeaderSize))) := by
  obtain ⟨p, hin, rfl, -, -, -, hd⟩ := validate_server (A := A) h (n := commsBufferSize) (by decide)
  simp only [receiveFilesize, hin, bind, Except.bind, validateSequenceNumber,
    Protocol.validateSequenceNumber, hd, pure, Except.pure]
  by_cases hs : s.value = p.sequenceNumber <;> simp [hs]

theorem check_receiveFileChunk (version : ProtocolType)
    (h : Carries raw number isAck isFin data) :
    ∃ packet : Packet, packet.isFin = isFin ∧
      packet.data = data.take (fullBufferSize - sawProtocolHeaderSize) ∧
      (receiveFileChunk version s).check (raw.take fullBufferSize) (some A) =
        if s.value ≠ number then .error ExnClass.invalidSequenceNumber.exn
        else .ok (⟨number, version⟩, packet) := by
  obtain ⟨p, hin, rfl, -, hfin, -, hd⟩ := validate_server (A := A) h (n := fullBufferSize) (by decide)
  refine ⟨p, hfin, hd, ?_⟩
  simp only [receiveFileChunk, hin, bind, Except.bind, validateSequenceNumber,
    Protocol.validateSequenceNumber, pure, Except.pure]
  by_cases hs : s.value = p.sequenceNumber <;> simp [hs]

theorem check_waitForAck (h : Carries raw number isAck isFin data) (es : List ExnClass) :
    ((waitForAck s).letThrough es).check (raw.take commsBufferSize) (some A) =
      if !isAck then .error ExnClass.messageIsNotAck.exn
      else if isFin then .error ExnClass.unexpectedFinMessage.exn
      else if s.value ≠ number then .error ExnClass.invalidSequenceNumber.exn
      else .ok () := by
  obtain ⟨p, hin, rfl, rfl, rfl, -, -⟩ := validate_server (A := A) h (n := commsBufferSize) (by decide)
  simp only [waitForAck, Operation.letThrough, validateInboundAck, hin, bind, Except.bind,
    Protocol.validateAck, validateSequenceNumber, Protocol.validateSequenceNumber, pure, Except.pure]
  cases p.isAck <;> cases p.isFin <;> rfl

/-- What the wait for an ACK raises of a packet, all of which is caught. -/
def AckErrors : List ExnClass := [.messageIsNotAck, .unexpectedFinMessage, .invalidSequenceNumber]

theorem check_waitForAck_declined (h : Carries raw number isAck isFin data) (es : List ExnClass)
    (hd : isAck = false ∨ s.value ≠ number) :
    ∃ e : Exn, e.cls ∈ AckErrors ∧
      ((waitForAck s).letThrough es).check (raw.take commsBufferSize) (some A) = .error e := by
  rw [check_waitForAck h es]
  cases isAck with
  | false => exact ⟨_, by decide, rfl⟩
  | true =>
      have hn := hd.resolve_left (by decide)
      cases isFin with
      | true => exact ⟨_, by decide, rfl⟩
      | false => exact ⟨ExnClass.invalidSequenceNumber.exn, by decide, by simp [hn]⟩

theorem ackErrors_caught {e : ExnClass} (h : e ∈ AckErrors) :
    e ∈ configureWantedExceptionsToCatch [] ∧
      e ∈ configureWantedExceptionsToCatch [.connectionLost] := by
  revert e
  decide

theorem check_waitForFinOrAck (h : Carries raw number isAck isFin data) :
    (waitForFinOrAck s).check (raw.take commsBufferSize) (some A) =
      if s.value ≠ number then .error ExnClass.invalidSequenceNumber.exn
      else if !isAck && !isFin then .error ExnClass.messageNotFinNorAck.exn
      else .ok () := by
  obtain ⟨p, hin, rfl, rfl, rfl, -, -⟩ := validate_server (A := A) h (n := commsBufferSize) (by decide)
  simp only [waitForFinOrAck, hin, bind, Except.bind, validateSequenceNumber,
    Protocol.validateSequenceNumber]
  by_cases hs : s.value = p.sequenceNumber <;> simp [hs]

end Server

/-! ## The receives of a client -/

section Client

open ClientProtocol

variable {s : SequenceNumber}

theorem validate_client (h : Carries raw number isAck isFin data) (hn : sawProtocolHeaderSize ≤ n) :
    ∃ p : Packet, validateInboundPacket (raw.take n) (some A) = .ok (p, A) ∧
      p.sequenceNumber = number ∧ p.isAck = isAck ∧ p.isFin = isFin ∧
      p.payloadLength = data.length ∧ p.data = data.take (n - sawProtocolHeaderSize) := by
  obtain ⟨isSyn, port, h⟩ := h
  obtain ⟨hne, hparse⟩ := h n hn
  refine ⟨_, Protocol.validateInboundPacket_of_ne_nil hne A, ?_⟩
  rw [hparse]
  exact ⟨rfl, rfl, rfl, rfl, rfl⟩

/-- An ACK for the client: its flags are looked at before its number. -/
theorem check_confirmation (h : Carries raw number isAck isFin data) :
    ∃ packet : Packet, packet.isFin = isFin ∧ packet.payloadLength = data.length ∧
      packet.data = data.take (commsBufferSize - sawProtocolHeaderSize) ∧
      (validateConfirmation s none (raw.take commsBufferSize) (some A)).map Prod.fst =
        if !isAck then .error ExnClass.messageIsNotAck.exn
        else if isFin then .error (ExnClass.unexpectedFinMessage.carrying packet)
        else if s.value ≠ number then .error ExnClass.invalidSequenceNumber.exn
        else .ok packet := by
  obtain ⟨p, hin, rfl, rfl, rfl, hlen, hd⟩ :=
    validate_client (A := A) h (n := commsBufferSize) (by decide)
  refine ⟨p, rfl, hlen, hd, ?_⟩
  simp only [validateConfirmation, validateInboundAck, hin, bind, Except.bind, Protocol.validateAck,
    Protocol.validateNotFin, validateSequenceNumber, Protocol.validateSequenceNumber, pure,
    Except.pure]
  cases p.isAck <;> cases hfin : p.isFin <;> by_cases hs : s.value = p.sequenceNumber <;>
    simp [hfin, hs, Except.map]

theorem check_receiveFileChunkSaw (version : ProtocolType)
    (h : Carries raw number isAck isFin data) :
    ∃ packet : Packet, packet.isFin = isFin ∧
      packet.data = data.take (fullBufferSize - sawProtocolHeaderSize) ∧
      (receiveFileChunkSaw version s).check (raw.take fullBufferSize) (some A) =
        if s.value ≠ number then .error ExnClass.invalidSequenceNumber.exn
        else .ok (⟨number, version⟩, packet) := by
  obtain ⟨p, hin, rfl, -, hfin, -, hd⟩ := validate_client (A := A) h (n := fullBufferSize) (by decide)
  refine ⟨p, hfin, hd, ?_⟩
  simp only [receiveFileChunkSaw, hin, bind, Except.bind, validateSequenceNumber,
    Protocol.validateSequenceNumber, pure, Except.pure]
  by_cases hs : s.value = p.sequenceNumber <;> simp [hs]

theorem check_client_waitForFinOrAck (h : Carries raw number isAck isFin data) (es : List ExnClass) :
    ((waitForFinOrAck s none).letThrough es).check (raw.take commsBufferSize) (some A) =
      if s.value ≠ number then .error ExnClass.invalidSequenceNumber.exn
      else if !isAck && !isFin then .error ExnClass.messageNotFinNorAck.exn
      else .ok () := by
  obtain ⟨p, hin, rfl, rfl, rfl, -, -⟩ := validate_client (A := A) h (n := commsBufferSize) (by decide)
  simp only [waitForFinOrAck, Operation.letThrough, hin, bind, Except.bind, validateSequenceNumber,
    Protocol.validateSequenceNumber]
  by_cases hs : s.value = p.sequenceNumber <;> simp [hs]

end Client

end Rdt.Saw
