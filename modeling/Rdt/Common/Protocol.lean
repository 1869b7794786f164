import Rdt.Common.Socket

/-!
# What the protocol classes share

`ServerProtocol`, `ServerProtocolGbn`, `AccepterProtocol`, `ClientProtocol` and
`ClientProtocolGbn` repeat these methods word for word.
-/

namespace Rdt

/-- `str.encode("utf-8")` -/
def encodeUtf8 (s : String) : Bytes := s.toByteArray.data.toList

/-- `bytes.decode("utf-8")` -/
def decodeUtf8 (bs : Bytes) : Except Exn String :=
  match String.fromUTF8? ⟨bs.toArray⟩ with
  | some s => .ok s
  | none => .error ExnClass.unicodeDecodeError.exn

theorem decodeUtf8_encodeUtf8 (s : String) : decodeUtf8 (encodeUtf8 s) = .ok s := by
  have h : s.toByteArray.IsValidUTF8 := s.isValidUTF8
  simp [decodeUtf8, encodeUtf8, String.fromUTF8?, h, String.fromUTF8]

/-- A text that the buffer holds is read back. -/
theorem eq_of_decodeUtf8_take {s t : String} {n : Nat} (h : (encodeUtf8 s).length ≤ n)
    (ht : decodeUtf8 ((encodeUtf8 s).take n) = .ok t) : t = s := by
  rw [List.take_of_length_le h, decodeUtf8_encodeUtf8] at ht
  exact (Except.ok.inj ht).symm

theorem decodeUtf8_error {bs : Bytes} {e : Exn} (h : decodeUtf8 bs = .error e) :
    e = ExnClass.unicodeDecodeError.exn := by
  unfold decodeUtf8 at h
  split at h
  · cases h
  · exact (Except.error.inj h).symm

namespace Protocol

open PacketParser

/-- `validate_inbound_packet`; `missing` is the class raised without a source address. -/
def validateInboundPacket (missing : ExnClass) (rawPacket : Bytes) (source : Option Address) :
    Except Exn (Packet × Address) :=
  if rawPacket.length = 0 then .error ExnClass.socketShutdown.exn
  else match source with
    | none => .error missing.exn
    | some address => .ok (getPacketFromBytes rawPacket, address)

/-- `validate_sequence_number`; the Go-Back-N classes raise it with the packet. -/
def validateSequenceNumber (exn : Exn) (packet : Packet) (sequenceNumber : SequenceNumber) :
    Except Exn Unit :=
  if sequenceNumber.value ≠ packet.sequenceNumber then .error exn else .ok ()

/-- `if not packet.is_ack: raise` -/
def validateAck (exn : Exn) (packet : Packet) : Except Exn Unit :=
  if packet.isAck then .ok () else .error exn

def validateNotFin (packet : Packet) : Except Exn Unit :=
  if packet.isFin then .error (ExnClass.unexpectedFinMessage.carrying packet) else .ok ()

/-- `build_packet`.  Every caller passes the length of the data as `payload_length`. -/
def buildPacket (protocol : ProtocolType) (sequenceNumber : SequenceNumber)
    (ackNumber : Option SequenceNumber) (isAck isSyn isFin : Bool) (port : UInt16)
    (data : Bytes) : Except Exn Packet :=
  match protocol with
  | .stopAndWait =>
      .ok
        { protocol := .stopAndWait
          sequenceNumber := sequenceNumber.value
          isAck, isSyn, isFin
          port := port.toNat
          payloadLength := data.length
          data
          ackNumber := none }
  | .goBackN =>
      match ackNumber with
      | none => .error ExnClass.attributeError.exn
      | some n =>
          .ok
            { protocol := .goBackN
              sequenceNumber := sequenceNumber.value
              isAck, isSyn, isFin
              port := port.toNat
              payloadLength := data.length
              data
              ackNumber := some n.value }

/-- The composer `socket_send_to` picks. -/
def composePacket (protocol : ProtocolType) (packet : Packet) : Except Exn Bytes :=
  match protocol with
  | .stopAndWait => composePacketSawForNet packet
  | .goBackN => composePacketGbnForNet packet

/-- `build_packet` followed by the composer. -/
def encode (protocol : ProtocolType) (sequenceNumber : SequenceNumber)
    (ackNumber : Option SequenceNumber) (isAck isSyn isFin : Bool) (port : UInt16)
    (data : Bytes) : Except Exn Bytes :=
  (buildPacket protocol sequenceNumber ackNumber isAck isSyn isFin port data).bind
    (composePacket protocol)

/-- A packet that cannot be sent: a number or a length out of range, or no ACK number. -/
theorem encode_error {protocol : ProtocolType} {n : SequenceNumber} {ack : Option SequenceNumber}
    {isAck isSyn isFin : Bool} {port : UInt16} {data : Bytes} {e : Exn}
    (h : encode protocol n ack isAck isSyn isFin port data = .error e) :
    e = ExnClass.structError.exn ∨ e = ExnClass.attributeError.exn := by
  cases protocol with
  | stopAndWait => exact .inl (composePacketSawForNet_error h)
  | goBackN =>
      cases ack with
      | none => exact .inr (Except.error.inj h).symm
      | some m =>
          simp only [encode, buildPacket, Except.bind, composePacket] at h
          exact composePacketGbnForNet_error h

/-! ## What the checks let through and what they raise -/

theorem validateInboundPacket_eq_ok {missing : ExnClass} {raw : Bytes} {source : Option Address}
    {r : Packet × Address} :
    validateInboundPacket missing raw source = .ok r ↔
      raw ≠ [] ∧ source = some r.2 ∧ getPacketFromBytes raw = r.1 := by
  unfold validateInboundPacket
  by_cases hraw : raw = []
  · simp [hraw]
  · cases source <;> simp [hraw, Prod.ext_iff, and_comm]

theorem validateInboundPacket_of_ne_nil {missing : ExnClass} {raw : Bytes} (h : raw ≠ [])
    (a : Address) :
    validateInboundPacket missing raw (some a) = .ok (getPacketFromBytes raw, a) :=
  validateInboundPacket_eq_ok.mpr ⟨h, rfl, rfl⟩

theorem validateInboundPacket_error {missing : ExnClass} {raw : Bytes} {source : Option Address}
    {e : Exn} (h : validateInboundPacket missing raw source = .error e) :
    e.cls = .socketShutdown ∨ e.cls = missing := by
  unfold validateInboundPacket at h
  split at h
  · exact .inl (by rw [← Except.error.inj h]; rfl)
  · split at h
    · exact .inr (by rw [← Except.error.inj h]; rfl)
    · cases h

theorem validateInboundPacket_packet {missing : ExnClass} {raw : Bytes} {source : Option Address}
    {e : Exn} (h : validateInboundPacket missing raw source = .error e) : e.packet = none := by
  unfold validateInboundPacket at h
  split at h
  · exact Except.error.inj h ▸ rfl
  · split at h
    · exact Except.error.inj h ▸ rfl
    · cases h

theorem validateSequenceNumber_eq_ok {exn : Exn} {packet : Packet} {n : SequenceNumber} {u : Unit} :
    validateSequenceNumber exn packet n = .ok u ↔ packet.sequenceNumber = n.value := by
  unfold validateSequenceNumber
  split
  · rename_i h
    simp [Ne.symm h]
  · rename_i h
    simpa using (not_not.mp h).symm

theorem validateSequenceNumber_error {exn e : Exn} {packet : Packet} {n : SequenceNumber}
    (h : validateSequenceNumber exn packet n = .error e) :
    e = exn ∧ packet.sequenceNumber ≠ n.value := by
  unfold validateSequenceNumber at h
  split at h
  · rename_i hne
    exact ⟨(Except.error.inj h).symm, Ne.symm hne⟩
  · cases h

theorem validateAck_eq_ok {exn : Exn} {packet : Packet} {u : Unit} :
    validateAck exn packet = .ok u ↔ packet.isAck = true := by
  unfold validateAck
  split <;> simp_all

theorem validateAck_error {exn e : Exn} {packet : Packet} (h : validateAck exn packet = .error e) :
    e = exn ∧ packet.isAck = false := by
  unfold validateAck at h
  split at h
  · cases h
  · rename_i hack
    exact ⟨(Except.error.inj h).symm, Bool.eq_false_iff.mpr hack⟩

theorem validateNotFin_eq_ok {packet : Packet} {u : Unit} :
    validateNotFin packet = .ok u ↔ packet.isFin = false := by
  unfold validateNotFin
  split <;> simp_all

theorem validateNotFin_error {e : Exn} {packet : Packet} (h : validateNotFin packet = .error e) :
    e = ExnClass.unexpectedFinMessage.carrying packet ∧ packet.isFin = true := by
  unfold validateNotFin at h
  split at h
  · exact ⟨(Except.error.inj h).symm, by assumption⟩
  · cases h

/-- The source address is looked at only for being there. -/
theorem validateInboundPacket_source (missing : ExnClass) (raw : Bytes) (a b : Address) :
    (validateInboundPacket missing raw (some a)).map Prod.fst =
      (validateInboundPacket missing raw (some b)).map Prod.fst := by
  unfold validateInboundPacket
  split <;> rfl

/-- A short Stop-and-Wait packet is composed, and parsed back to itself. -/
theorem encode_saw {n : SequenceNumber} {ack : Option SequenceNumber} {a s f : Bool}
    {port : UInt16} {data : Bytes} (hn : n.value < 2) (hdata : data.length < 2 ^ 16) :
    ∃ raw, encode .stopAndWait n ack a s f port data = .ok raw ∧
      raw.length = 6 + data.length ∧
      getPacketFromBytes raw =
        ⟨.stopAndWait, n.value, a, s, f, port.toNat, data.length, data, none⟩ := by
  have hport : port.toNat < 2 ^ 16 := port.toNat_lt
  refine ⟨_, composePacketSawForNet_eq_ok hport hdata, ?_, ?_⟩
  · simp
  · rw [getPacketFromBytes_sawHeader hport hdata]
    have hbit : (if n.value = 1 then 1 else 0) = n.value := by split <;> omega
    simp [hbit]

/-- A Go-Back-N packet is composed and parsed back to itself, or does not fit. -/
theorem encode_gbn (n m : SequenceNumber) (a s f : Bool) (port : UInt16) (data : Bytes) :
    (∃ raw, encode .goBackN n (some m) a s f port data = .ok raw ∧
        raw.length = 16 + data.length ∧
        getPacketFromBytes raw =
          ⟨.goBackN, n.value, a, s, f, port.toNat, data.length, data, some m.value⟩) ∨
      encode .goBackN n (some m) a s f port data = .error ExnClass.structError.exn := by
  let p : Packet := ⟨.goBackN, n.value, a, s, f, port.toNat, data.length, data, some m.value⟩
  have he : encode .goBackN n (some m) a s f port data = composePacketGbnForNet p := rfl
  rw [he]
  refine (composePacketGbnForNet_cases p rfl).imp_left fun ⟨hport, hlen, hseq, hm, hok⟩ ↦ ?_
  refine ⟨_, hok, by simp [p], ?_⟩
  rw [getPacketFromBytes_gbnHeader hport hlen hseq hm]
  simp [p]

/-- Whatever is composed is parsed back to itself. -/
theorem parse_of_encode {protocol : ProtocolType} {n : SequenceNumber} {ack : Option SequenceNumber}
    {a s f : Bool} {port : UInt16} {data raw : Bytes} (hn : protocol = .stopAndWait → n.value < 2)
    (h : encode protocol n ack a s f port data = .ok raw) :
    ∃ m, getPacketFromBytes raw =
        ⟨protocol, n.value, a, s, f, port.toNat, data.length, data, m⟩ ∧
      (protocol = .stopAndWait → m = none) ∧ (protocol = .goBackN → m = ack.map (·.value)) := by
  cases protocol with
  | stopAndWait =>
      have hdata : data.length < 2 ^ 16 := by
        by_contra hlong
        have hlong : 256 ^ 2 ≤ data.length := Nat.not_lt.mp hlong
        have herr : encode .stopAndWait n ack a s f port data = .error ExnClass.structError.exn := by
          show composePacketSawForNet _ = _
          rw [composePacketSawForNet, structPack_error ⟨(2, data.length), by simp, hlong⟩]
          rfl
        rw [herr] at h
        cases h
      obtain ⟨raw', hok, -, hparse⟩ : ∃ raw', encode .stopAndWait n ack a s f port data = .ok raw' ∧
          raw'.length = 6 + data.length ∧ getPacketFromBytes raw' =
            ⟨.stopAndWait, n.value, a, s, f, port.toNat, data.length, data, none⟩ :=
        encode_saw (hn rfl) hdata
      obtain rfl : raw' = raw := Except.ok.inj (hok.symm.trans h)
      exact ⟨none, hparse, fun _ ↦ rfl, fun hp ↦ (by cases hp)⟩
  | goBackN =>
      cases ack with
      | none => cases h
      | some m =>
          rcases encode_gbn n m a s f port data with ⟨raw', hok, -, hparse⟩ | herr
          · obtain rfl : raw' = raw := Except.ok.inj (hok.symm.trans h)
            exact ⟨some m.value, hparse, fun hp ↦ (by cases hp), fun _ ↦ rfl⟩
          · rw [herr] at h
            cases h

/-- A packet is composed if its data is short and, under Go-Back-N, its numbers fit. -/
theorem encode_ok (protocol : ProtocolType) {n : SequenceNumber} {ack : Option SequenceNumber}
    (h : protocol = .goBackN → n.value < 2 ^ 32 ∧ ∃ m, ack = some m ∧ m.value < 2 ^ 32)
    (a s f : Bool) (port : UInt16) {data : Bytes} (hdata : data.length < 2 ^ 16) :
    ∃ raw, encode protocol n ack a s f port data = .ok raw := by
  have hport : port.toNat < 2 ^ 16 := port.toNat_lt
  cases protocol with
  | stopAndWait => exact ⟨_, composePacketSawForNet_eq_ok hport hdata⟩
  | goBackN =>
      obtain ⟨hn, m, rfl, hm⟩ := h rfl
      let p : Packet := ⟨.goBackN, n.value, a, s, f, port.toNat, data.length, data, some m.value⟩
      have hlen : p.payloadLength < 2 ^ 32 := lt_trans hdata (by decide)
      exact ⟨_, composePacketGbnForNet_eq_ok (p := p) rfl hport hlen hn hm⟩

/-- A packet without data that repeats the numbers of a parsed one is composed, and parsed back
to itself. -/
theorem encode_parsed (bs : Bytes) (a s f : Bool) (port : UInt16) :
    ∃ raw, encode (getPacketFromBytes bs).protocol
      ⟨(getPacketFromBytes bs).sequenceNumber, (getPacketFromBytes bs).protocol⟩
      ((getPacketFromBytes bs).ackNumber.map (⟨·, (getPacketFromBytes bs).protocol⟩)) a s f port [] =
        .ok raw ∧ raw.length ≤ gbnProtocolHeaderSize ∧
      getPacketFromBytes raw =
        { getPacketFromBytes bs with
          isAck := a, isSyn := s, isFin := f, port := port.toNat, payloadLength := 0, data := [] } := by
  rcases getPacketFromBytes_protocol bs with ⟨hproto, hack, hseq⟩ | ⟨hproto, n, hack⟩
  · rw [hproto, hack]
    obtain ⟨raw, hok, hlen, hparse⟩ := encode_saw (n := ⟨_, .stopAndWait⟩) (a := a)
      (s := s) (f := f) hseq (show ([] : Bytes).length < 2 ^ 16 by decide)
    exact ⟨raw, hok, hlen.le.trans (by decide), hparse.trans (by simp [hproto, hack])⟩
  · obtain ⟨hseq, hbound⟩ := getPacketFromBytes_bounds bs
    have hn := hbound n hack
    rw [hproto, hack]
    let p : Packet :=
      ⟨.goBackN, (getPacketFromBytes bs).sequenceNumber, a, s, f, port.toNat, 0, [], some n⟩
    have hlen : p.payloadLength < 2 ^ 32 := Nat.two_pow_pos 32
    have hparse := getPacketFromBytes_gbnHeader (p := p) port.toNat_lt hlen hseq hn []
    refine ⟨_, composePacketGbnForNet_eq_ok (p := p) rfl port.toNat_lt hlen hseq hn, ?_,
      hparse.trans (by simp [p, hproto, hack])⟩
    rw [List.append_nil, length_gbnHeader]
    rfl

end Protocol

end Rdt
