import Rdt.Common.Packet

/-! # The two frame formats and the packets they carry -/

namespace Rdt

open BigEndian

namespace PacketParser

/-! ## Frames -/

/-- The first two bytes: protocol, flags and the unused bits. -/
def flagsOf (frame : Bytes) : Nat := fromBytes (slice 0 2 frame)

/-- The protocol bits of a frame. -/
def versionOf (frame : Bytes) : Nat := flagsOf frame >>> 14 &&& 0b11

/-- The payload length a Stop-and-Wait header announces. -/
def sawLengthOf (frame : Bytes) : Nat := fromBytes (slice 4 6 frame)

/-- The payload length a Go-Back-N header announces. -/
def gbnLengthOf (frame : Bytes) : Nat := fromBytes (slice 4 8 frame)

/-- A Stop-and-Wait frame: its ten unused bits are zero and it ends where it says. -/
structure IsSawFrame (frame : Bytes) : Prop where
  version : versionOf frame = 0b00
  unused : flagsOf frame % 2 ^ 10 = 0
  length : frame.length = sawProtocolHeaderSize + sawLengthOf frame

/-- A Go-Back-N frame, with eleven unused bits. -/
structure IsGbnFrame (frame : Bytes) : Prop where
  version : versionOf frame = 0b01
  unused : flagsOf frame % 2 ^ 11 = 0
  length : frame.length = gbnProtocolHeaderSize + gbnLengthOf frame

/-- A `PacketSaw` whose fields fit the header. -/
structure IsPacketSaw (p : Packet) : Prop where
  protocol : p.protocol = .stopAndWait
  ackNumber : p.ackNumber = none
  sequenceNumber : p.sequenceNumber = 0 ∨ p.sequenceNumber = 1
  port : p.port < 2 ^ 16
  payloadLength : p.payloadLength < 2 ^ 16
  length : p.payloadLength = p.data.length

/-- A `PacketGbn` whose fields fit the header. -/
structure IsPacketGbn (p : Packet) : Prop where
  protocol : p.protocol = .goBackN
  ackNumber : ∃ n < 2 ^ 32, p.ackNumber = some n
  sequenceNumber : p.sequenceNumber < 2 ^ 32
  port : p.port < 2 ^ 16
  payloadLength : p.payloadLength < 2 ^ 32
  length : p.payloadLength = p.data.length

/-! ## From packets to frames and back -/

theorem IsPacketSaw.parse_compose {p : Packet} (h : IsPacketSaw p) :
    ∃ frame, composePacketSawForNet p = .ok frame ∧ getPacketFromBytes frame = p := by
  refine ⟨sawHeader p ++ p.data, composePacketSawForNet_eq_ok h.port h.payloadLength, ?_⟩
  have hseq : (if p.sequenceNumber = 1 then 1 else 0) = p.sequenceNumber := by
    rcases h.sequenceNumber with h0 | h1
    · simp [h0]
    · simp [h1]
  have hdata : p.data.take p.payloadLength = p.data := by
    rw [h.length, List.take_length]
  rw [getPacketFromBytes_sawHeader h.port h.payloadLength, hseq, hdata, ← h.protocol,
    ← h.ackNumber]

theorem IsPacketGbn.parse_compose {p : Packet} (h : IsPacketGbn p) :
    ∃ frame, composePacketGbnForNet p = .ok frame ∧ getPacketFromBytes frame = p := by
  obtain ⟨n, hn, hack⟩ := h.ackNumber
  refine ⟨gbnHeader p n ++ p.data,
    composePacketGbnForNet_eq_ok hack h.port h.payloadLength h.sequenceNumber hn, ?_⟩
  have hdata : p.data.take p.payloadLength = p.data := by
    rw [h.length, List.take_length]
  rw [getPacketFromBytes_gbnHeader h.port h.payloadLength h.sequenceNumber hn, hdata,
    ← h.protocol, ← hack]

/-! ## From frames to packets and back -/

theorem flagsOf_lt (frame : Bytes) : flagsOf frame < 2 ^ 16 := by
  have hlen : (slice 0 2 frame).length ≤ 2 := by
    simp only [slice, List.length_drop, List.length_take]
    omega
  exact fromBytes_lt_of_length_le hlen

/-- The flags of a Stop-and-Wait frame are those its bits are read as. -/
theorem sawFlags_bits_eq {w : Nat} (hw : w < 2 ^ 16) (hversion : w >>> 14 &&& 0b11 = 0b00)
    (hunused : w % 2 ^ 10 = 0) :
    sawFlags (w >>> 13 &&& 0b1) (bit w 12) (bit w 11) (bit w 10) = w := by
  obtain ⟨k, rfl⟩ := Nat.dvd_of_mod_eq_zero hunused
  have hk : k < 64 := by omega
  clear hunused hw
  revert hversion
  revert k
  decide

theorem gbnFlags_bits_eq {w : Nat} (hw : w < 2 ^ 16) (hversion : w >>> 14 &&& 0b11 = 0b01)
    (hunused : w % 2 ^ 11 = 0) : gbnFlags (bit w 13) (bit w 12) (bit w 11) = w := by
  obtain ⟨k, rfl⟩ := Nat.dvd_of_mod_eq_zero hunused
  have hk : k < 32 := by omega
  clear hunused hw
  revert hversion
  revert k
  decide

/-- A field that is there is the encoding of the number read from it. -/
theorem toBytes_slice {a w : Nat} {frame : Bytes} (h : a + w ≤ frame.length) :
    toBytes w (fromBytes (slice a (a + w) frame)) = slice a (a + w) frame := by
  have hlen : (slice a (a + w) frame).length = w := by
    rw [slice, List.length_drop, List.length_take, min_eq_left h, Nat.add_sub_cancel_left]
  have h := toBytes_fromBytes (slice a (a + w) frame)
  rwa [hlen] at h

theorem fromBytes_slice_lt {a b : Nat} (frame : Bytes) :
    fromBytes (slice a b frame) < 256 ^ (b - a) := by
  apply fromBytes_lt_of_length_le
  simp only [slice, List.length_drop, List.length_take]
  omega

/-- A field and what follows it. -/
theorem slice_append_drop {a b : Nat} {frame : Bytes} (hab : a ≤ b) :
    slice a b frame ++ frame.drop b = frame.drop a := by
  have hdrop : frame.drop b = (frame.drop a).drop (b - a) := by
    rw [List.drop_drop, Nat.add_sub_cancel' hab]
  rw [slice, List.drop_take, hdrop, List.take_append_drop]

theorem getPacketFromBytes_of_gbn {frame : Bytes} (h : versionOf frame = 0b01) :
    getPacketFromBytes frame = parsePacketGbn .goBackN (flagsOf frame) 14 frame :=
  if_pos h

theorem getPacketFromBytes_of_not_gbn {frame : Bytes} (h : versionOf frame ≠ 0b01) :
    getPacketFromBytes frame = parsePacketSaw .stopAndWait (flagsOf frame) 14 frame :=
  if_neg h

theorem IsSawFrame.compose_parse {frame : Bytes} (h : IsSawFrame frame) :
    composePacketSawForNet (getPacketFromBytes frame) = .ok frame := by
  have hlen : frame.length = 6 + sawLengthOf frame := h.length
  have h6 : 6 ≤ frame.length := by omega
  have hnot : versionOf frame ≠ 0b01 := by
    rw [h.version]
    decide
  rw [getPacketFromBytes_of_not_gbn hnot,
    composePacketSawForNet_eq_ok (fromBytes_slice_lt frame) (fromBytes_slice_lt frame)]
  have hdata : slice 6 (6 + sawLengthOf frame) frame = frame.drop 6 := by
    rw [slice, ← hlen, List.take_length]
  have hflags : toBytes 2 (flagsOf frame) = slice 0 2 frame :=
    toBytes_slice (by omega)
  have hport : toBytes 2 (fromBytes (slice 2 4 frame)) = slice 2 4 frame :=
    toBytes_slice (by omega)
  have hpayload : toBytes 2 (sawLengthOf frame) = slice 4 6 frame := toBytes_slice h6
  have hword := sawFlags_bits_eq (flagsOf_lt frame) h.version h.unused
  show Except.ok (toBytes 2 (sawFlags (flagsOf frame >>> 13 &&& 0b1) (bit (flagsOf frame) 12)
      (bit (flagsOf frame) 11) (bit (flagsOf frame) 10)) ++
    (toBytes 2 (fromBytes (slice 2 4 frame)) ++ toBytes 2 (sawLengthOf frame)) ++
      slice 6 (6 + sawLengthOf frame) frame) = _
  rw [hword, hflags, hport, hpayload, hdata, List.append_assoc, List.append_assoc,
    slice_append_drop (by decide), slice_append_drop (by decide), slice_append_drop (by decide),
    List.drop_zero]

theorem IsGbnFrame.compose_parse {frame : Bytes} (h : IsGbnFrame frame) :
    composePacketGbnForNet (getPacketFromBytes frame) = .ok frame := by
  have hlen : frame.length = 16 + gbnLengthOf frame := h.length
  have h16 : 16 ≤ frame.length := by omega
  rw [getPacketFromBytes_of_gbn h.version,
    composePacketGbnForNet_eq_ok rfl (fromBytes_slice_lt frame) (fromBytes_slice_lt frame)
      (fromBytes_slice_lt frame) (fromBytes_slice_lt frame)]
  have hdata : slice 16 (16 + gbnLengthOf frame) frame = frame.drop 16 := by
    rw [slice, ← hlen, List.take_length]
  have hflags : toBytes 2 (flagsOf frame) = slice 0 2 frame :=
    toBytes_slice (by omega)
  have hport : toBytes 2 (fromBytes (slice 2 4 frame)) = slice 2 4 frame :=
    toBytes_slice (by omega)
  have hpayload : toBytes 4 (gbnLengthOf frame) = slice 4 8 frame := toBytes_slice (by omega)
  have hseq : toBytes 4 (fromBytes (slice 8 12 frame)) = slice 8 12 frame :=
    toBytes_slice (by omega)
  have hack : toBytes 4 (fromBytes (slice 12 16 frame)) = slice 12 16 frame := toBytes_slice h16
  have hword := gbnFlags_bits_eq (flagsOf_lt frame) h.version h.unused
  show Except.ok (toBytes 2 (gbnFlags (bit (flagsOf frame) 13) (bit (flagsOf frame) 12)
      (bit (flagsOf frame) 11)) ++ (toBytes 2 (fromBytes (slice 2 4 frame)) ++
    (toBytes 4 (gbnLengthOf frame) ++ (toBytes 4 (fromBytes (slice 8 12 frame)) ++
      toBytes 4 (fromBytes (slice 12 16 frame))))) ++ slice 16 (16 + gbnLengthOf frame) frame) = _
  rw [hword, hflags, hport, hpayload, hseq, hack, hdata]
  simp only [List.append_assoc]
  rw [slice_append_drop (by decide), slice_append_drop (by decide), slice_append_drop (by decide),
    slice_append_drop (by decide), slice_append_drop (by decide), List.drop_zero]

/-- Composing and parsing are inverse to each other, between the packets of either kind and
the frames of its format. -/
theorem parse_compose_roundtrip :
    (∀ p, IsPacketSaw p →
      ∃ frame, composePacketSawForNet p = .ok frame ∧ getPacketFromBytes frame = p) ∧
    (∀ p, IsPacketGbn p →
      ∃ frame, composePacketGbnForNet p = .ok frame ∧ getPacketFromBytes frame = p) ∧
    (∀ frame, IsSawFrame frame →
      composePacketSawForNet (getPacketFromBytes frame) = .ok frame) ∧
    ∀ frame, IsGbnFrame frame → composePacketGbnForNet (getPacketFromBytes frame) = .ok frame :=
  ⟨fun _ ↦ IsPacketSaw.parse_compose, fun _ ↦ IsPacketGbn.parse_compose,
    fun _ ↦ IsSawFrame.compose_parse, fun _ ↦ IsGbnFrame.compose_parse⟩

theorem parse_compose_roundtrip_short :
    (∃ frame, composePacketSawForNet ⟨.stopAndWait, 1, true, false, true, 7777, 2, [72, 105], none⟩
        = .ok frame ∧
      getPacketFromBytes frame =
        ⟨.stopAndWait, 1, true, false, true, 7777, 2, [72, 105], none⟩) ∧
    (∃ frame, composePacketGbnForNet ⟨.goBackN, 300, true, false, false, 7777, 1, [72], some 299⟩
        = .ok frame ∧
      getPacketFromBytes frame = ⟨.goBackN, 300, true, false, false, 7777, 1, [72], some 299⟩) ∧
    composePacketSawForNet (getPacketFromBytes [0x28, 0, 30, 97, 0, 1, 72]) =
      .ok [0x28, 0, 30, 97, 0, 1, 72] ∧
    composePacketGbnForNet (getPacketFromBytes
        [0x68, 0, 30, 97, 0, 0, 0, 1, 0, 0, 1, 44, 0, 0, 1, 43, 72]) =
      .ok [0x68, 0, 30, 97, 0, 0, 0, 1, 0, 0, 1, 44, 0, 0, 1, 43, 72] := by
  obtain ⟨hsaw, hgbn, hsawFrame, hgbnFrame⟩ := parse_compose_roundtrip
  refine ⟨hsaw _ ?_, hgbn _ ?_, hsawFrame _ ?_, hgbnFrame _ ?_⟩
  · constructor <;> decide
  · exact ⟨rfl, ⟨299, by decide, rfl⟩, by decide, by decide, by decide, rfl⟩
  · constructor <;> decide
  · constructor <;> decide

/-! ## What the parser lets through -/

def versionBits : ProtocolType → Nat
  | .stopAndWait => 0b00
  | .goBackN => 0b01

def headerSize : ProtocolType → Nat
  | .stopAndWait => sawProtocolHeaderSize
  | .goBackN => gbnProtocolHeaderSize

theorem slice_take {a b k : Nat} (h : b ≤ k) (raw : Bytes) :
    slice a b (raw.take k) = slice a b raw := by
  rw [slice, slice, List.take_take, min_eq_left h]

theorem take_slice {a b k : Nat} (ha : a ≤ k) (raw : Bytes) :
    slice a b (raw.take k) = (slice a b raw).take (k - a) := by
  rw [slice, slice, List.take_take, List.take_drop, List.take_take, Nat.add_sub_cancel' ha,
    Nat.min_comm]

/-- What a buffer that the header fits in makes of a datagram: only the data is cut. -/
theorem getPacketFromBytes_take {k : Nat} (hk : gbnProtocolHeaderSize ≤ k) (raw : Bytes) :
    getPacketFromBytes (raw.take k) = { getPacketFromBytes raw with
      data := (getPacketFromBytes raw).data.take
        (k - headerSize (getPacketFromBytes raw).protocol) } := by
  have short : ∀ {a b : Nat}, b ≤ gbnProtocolHeaderSize → slice a b (raw.take k) = slice a b raw :=
    fun h ↦ slice_take (le_trans h hk) raw
  have hsaw : 6 ≤ k := le_trans (by decide) hk
  have hgbn : 16 ≤ k := hk
  simp only [getPacketFromBytes, short (show 2 ≤ gbnProtocolHeaderSize by decide)]
  split
  · simp only [parsePacketGbn, short (show 4 ≤ gbnProtocolHeaderSize by decide),
      short (show 8 ≤ gbnProtocolHeaderSize by decide),
      short (show 12 ≤ gbnProtocolHeaderSize by decide),
      short (show 16 ≤ gbnProtocolHeaderSize by decide), take_slice hgbn]
    rfl
  · simp only [parsePacketSaw, short (show 4 ≤ gbnProtocolHeaderSize by decide),
      short (show 6 ≤ gbnProtocolHeaderSize by decide), take_slice hsaw]
    rfl

/-- The packet is one the datagram really carries. -/
structure IsCarried (datagram : Bytes) (p : Packet) : Prop where
  version : versionOf datagram = versionBits p.protocol
  header : headerSize p.protocol ≤ datagram.length
  payload : p.payloadLength = p.data.length

/-- The datagram has a known version and holds its header and the payload it announces. -/
def IsComplete (datagram : Bytes) : Prop :=
  (versionOf datagram = 0b00 ∧
      sawProtocolHeaderSize + sawLengthOf datagram ≤ datagram.length) ∨
    (versionOf datagram = 0b01 ∧
      gbnProtocolHeaderSize + gbnLengthOf datagram ≤ datagram.length)

instance (datagram : Bytes) : Decidable (IsComplete datagram) :=
  inferInstanceAs (Decidable (_ ∨ _))

/-- Cutting a field out of a datagram leaves it whole only if the datagram reaches its end. -/
theorem length_slice_eq_iff {a n : Nat} {datagram : Bytes} (ha : a ≤ datagram.length) :
    n = (slice a (a + n) datagram).length ↔ a + n ≤ datagram.length := by
  rw [slice, List.length_drop, List.length_take]
  omega

theorem isCarried_gbn_iff {datagram : Bytes} (h : versionOf datagram = 0b01) :
    IsCarried datagram (getPacketFromBytes datagram) ↔
      gbnProtocolHeaderSize + gbnLengthOf datagram ≤ datagram.length := by
  rw [getPacketFromBytes_of_gbn h]
  constructor
  · intro hc
    exact (length_slice_eq_iff hc.header).mp hc.payload
  · intro hlen
    have hheader : gbnProtocolHeaderSize ≤ datagram.length := by omega
    exact ⟨h, hheader, (length_slice_eq_iff hheader).mpr hlen⟩

theorem isCarried_saw_iff {datagram : Bytes} (h : versionOf datagram = 0b00) :
    IsCarried datagram (getPacketFromBytes datagram) ↔
      sawProtocolHeaderSize + sawLengthOf datagram ≤ datagram.length := by
  have hnot : versionOf datagram ≠ 0b01 := by
    rw [h]
    decide
  rw [getPacketFromBytes_of_not_gbn hnot]
  constructor
  · intro hc
    exact (length_slice_eq_iff hc.header).mp hc.payload
  · intro hlen
    have hheader : sawProtocolHeaderSize ≤ datagram.length := by omega
    exact ⟨h, hheader, (length_slice_eq_iff hheader).mpr hlen⟩

/-- Any other version is read as Stop-and-Wait. -/
theorem not_isCarried_of_version {datagram : Bytes} (h0 : versionOf datagram ≠ 0b00)
    (h1 : versionOf datagram ≠ 0b01) : ¬ IsCarried datagram (getPacketFromBytes datagram) := by
  rw [getPacketFromBytes_of_not_gbn h1]
  intro hc
  exact h0 hc.version

/-- The parser returns a packet for every datagram, and it is the one the datagram carries
only if that is complete and of a known version. -/
theorem getPacketFromBytes_isCarried_iff (datagram : Bytes) :
    IsCarried datagram (getPacketFromBytes datagram) ↔ IsComplete datagram := by
  unfold IsComplete
  by_cases h0 : versionOf datagram = 0b00
  · rw [isCarried_saw_iff h0]
    simp [h0]
  · by_cases h1 : versionOf datagram = 0b01
    · rw [isCarried_gbn_iff h1]
      simp [h1]
    · simp [h0, h1, not_isCarried_of_version h0 h1]

theorem not_isCarried_of_cut_header :
    ¬ ∀ datagram, datagram ≠ [] → IsCarried datagram (getPacketFromBytes datagram) := by
  intro h
  have hc := (h [0x20] (by decide)).header
  exact absurd hc (by decide)

end PacketParser

end Rdt
