import Rdt.Common.Codec
import Rdt.Common.Datagrams

/-! # Whatever is composed is a frame -/

namespace Rdt.PacketParser

open BigEndian

/-- A frame of either protocol -/
def IsFrame (raw : Bytes) : Prop := IsSawFrame raw ∨ IsGbnFrame raw

variable {p : Packet} {n : Nat}

theorem sawFlags_mod (n : Nat) (a s f : Bool) : sawFlags n a s f % 2 ^ 10 = 0 := by
  unfold sawFlags
  cases a <;> cases s <;> cases f <;> split <;> decide

theorem gbnFlags_mod (a s f : Bool) : gbnFlags a s f % 2 ^ 11 = 0 := by
  cases a <;> cases s <;> cases f <;> decide

theorem isSawFrame_sawHeader (hlen : p.payloadLength < 2 ^ 16) {data : Bytes}
    (hdata : data.length = p.payloadLength) : IsSawFrame (sawHeader p ++ data) := by
  have hflags : flagsOf (sawHeader p ++ data) =
      sawFlags p.sequenceNumber p.isAck p.isSyn p.isFin := by
    simp only [flagsOf, sawHeader, List.append_assoc]
    rw [slice_zero_append (by simp)]
    exact fromBytes_toBytes (sawFlags_lt _ _ _ _)
  have hannounced : sawLengthOf (sawHeader p ++ data) = p.payloadLength := by
    simp only [sawLengthOf, sawHeader, List.append_assoc]
    rw [← List.append_assoc, slice_append (by simp) (by simp)]
    exact fromBytes_toBytes hlen
  constructor
  · rw [versionOf, hflags]
    exact (sawFlags_bits p.sequenceNumber p.isAck p.isSyn p.isFin).1
  · rw [hflags]
    exact sawFlags_mod _ _ _ _
  · rw [hannounced, List.length_append, length_sawHeader, hdata]
    rfl

theorem isGbnFrame_gbnHeader (hlen : p.payloadLength < 2 ^ 32) {data : Bytes}
    (hdata : data.length = p.payloadLength) : IsGbnFrame (gbnHeader p n ++ data) := by
  have hflags : flagsOf (gbnHeader p n ++ data) = gbnFlags p.isAck p.isSyn p.isFin := by
    simp only [flagsOf, gbnHeader, List.append_assoc]
    rw [slice_zero_append (by simp)]
    exact fromBytes_toBytes (gbnFlags_lt _ _ _)
  have hannounced : gbnLengthOf (gbnHeader p n ++ data) = p.payloadLength := by
    simp only [gbnLengthOf, gbnHeader, List.append_assoc]
    rw [← List.append_assoc, slice_append (by simp) (by simp)]
    exact fromBytes_toBytes hlen
  constructor
  · rw [versionOf, hflags]
    exact (gbnFlags_bits p.isAck p.isSyn p.isFin).1
  · rw [hflags]
    exact gbnFlags_mod _ _ _
  · rw [hannounced, List.length_append, length_gbnHeader, hdata]
    rfl

section Composed

variable {m : SequenceNumber} {ack : Option SequenceNumber} {isAck isSyn isFin : Bool} {port : UInt16}
  {data raw : Bytes}

theorem encode_saw_cases
    (h : Protocol.encode .stopAndWait m ack isAck isSyn isFin port data = .ok raw) :
    data.length < 2 ^ 16 ∧ raw = sawHeader
      ⟨.stopAndWait, m.value, isAck, isSyn, isFin, port.toNat, data.length, data, none⟩ ++ data := by
  have hcomposed : composePacketSawForNet
      ⟨.stopAndWait, m.value, isAck, isSyn, isFin, port.toNat, data.length, data, none⟩ = .ok raw := h
  have hlen : data.length < 2 ^ 16 := by
    rcases structPack_cases [(2, sawFlags m.value isAck isSyn isFin), (2, port.toNat),
      (2, data.length)] with ⟨hf, -⟩ | herror
    · exact hf (2, data.length) (by simp)
    · rw [composePacketSawForNet, herror] at hcomposed
      cases hcomposed
  rw [composePacketSawForNet_eq_ok port.toNat_lt hlen] at hcomposed
  exact ⟨hlen, (Except.ok.inj hcomposed).symm⟩

theorem encode_gbn_cases (h : Protocol.encode .goBackN m ack isAck isSyn isFin port data = .ok raw) :
    ∃ n : Nat, (data.length < 2 ^ 32 ∧ m.value < 2 ^ 32 ∧ n < 2 ^ 32) ∧ raw = gbnHeader
      ⟨.goBackN, m.value, isAck, isSyn, isFin, port.toNat, data.length, data, some n⟩ n ++ data := by
  cases ack with
  | none => cases h
  | some n =>
      have hcomposed : composePacketGbnForNet ⟨.goBackN, m.value, isAck, isSyn, isFin, port.toNat,
          data.length, data, some n.value⟩ = .ok raw := h
      rcases structPack_cases [(2, gbnFlags isAck isSyn isFin), (2, port.toNat), (4, data.length),
        (4, m.value), (4, n.value)] with ⟨hf, -⟩ | herror
      · have hlen : data.length < 2 ^ 32 := hf (4, data.length) (by simp)
        have hseq : m.value < 2 ^ 32 := hf (4, m.value) (by simp)
        have hack : n.value < 2 ^ 32 := hf (4, n.value) (by simp)
        rw [composePacketGbnForNet_eq_ok rfl port.toNat_lt hlen hseq hack] at hcomposed
        exact ⟨n.value, ⟨hlen, hseq, hack⟩, (Except.ok.inj hcomposed).symm⟩
      · simp only [composePacketGbnForNet, Packet.getAckNumber, Except.bind] at hcomposed
        rw [herror] at hcomposed
        cases hcomposed

/-- The composers raise an exception, or make a frame. -/
theorem isFrame_of_encode {protocol : ProtocolType}
    (h : Protocol.encode protocol m ack isAck isSyn isFin port data = .ok raw) : IsFrame raw := by
  cases protocol with
  | stopAndWait =>
      obtain ⟨hlen, rfl⟩ := encode_saw_cases h
      exact .inl (isSawFrame_sawHeader hlen rfl)
  | goBackN =>
      obtain ⟨n, ⟨hlen, -, -⟩, rfl⟩ := encode_gbn_cases h
      exact .inr (isGbnFrame_gbnHeader hlen rfl)

theorem isSyn_of_encode {protocol : ProtocolType}
    (h : Protocol.encode protocol m ack isAck isSyn isFin port data = .ok raw) :
    (getPacketFromBytes raw).isSyn = isSyn := by
  cases protocol with
  | stopAndWait =>
      obtain ⟨hlen, rfl⟩ := encode_saw_cases h
      rw [getPacketFromBytes_sawHeader port.toNat_lt hlen]
  | goBackN =>
      obtain ⟨n, ⟨hlen, hseq, hack⟩, rfl⟩ := encode_gbn_cases h
      rw [getPacketFromBytes_gbnHeader port.toNat_lt hlen hseq hack]

end Composed

theorem IsFrame.ne_nil {raw : Bytes} (h : IsFrame raw) : raw ≠ [] := by
  rintro rfl
  rcases h with h | h
  · exact absurd h.length (by decide)
  · exact absurd h.version (by decide)

/-- A frame that opens no connection -/
def Plain (raw : Bytes) : Prop := IsFrame raw ∧ (getPacketFromBytes raw).isSyn = false

theorem composes_plain : Composes Plain :=
  fun _ _ _ _ _ _ _ _ h ↦ ⟨isFrame_of_encode h, isSyn_of_encode h⟩

theorem composes_isFrame : Composes IsFrame := fun _ _ _ _ _ _ _ _ h ↦ isFrame_of_encode h

end Rdt.PacketParser
