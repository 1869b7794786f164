import Mathlib.Data.Nat.Bitwise
import Rdt.Common.Codec

/-!
# `gbn_and_saw_plugin.lua`

The dissector shows of a datagram what `PacketParser.get_packet_from_bytes` reads in it.
-/

namespace Rdt.Wireshark

open BigEndian PacketParser

/-- What stops a Lua dissector -/
inductive LuaError where
  | outOfBounds
deriving DecidableEq, Repr

/-- `buffer(offset, length)` -/
def range (buffer : Bytes) (offset length : Nat) : Except LuaError Bytes :=
  if offset + length ≤ buffer.length then .ok ((buffer.drop offset).take length)
  else .error .outOfBounds

/-- `buffer(offset)`, which reaches to the end -/
def rangeFrom (buffer : Bytes) (offset : Nat) : Except LuaError Bytes :=
  if offset ≤ buffer.length then .ok (buffer.drop offset) else .error .outOfBounds

/-- `buffer(offset, length):uint()` -/
def uint (buffer : Bytes) (offset length : Nat) : Except LuaError Nat :=
  (range buffer offset length).map fromBytes

/-- The fields of the subtree.  A number that is missing is shown as such, and a packet without
payload shows no data. -/
structure Tree where
  protocol : Nat
  isAck : Bool
  isSyn : Bool
  isFin : Bool
  seqNum : Option Nat
  ackNum : Option Nat
  port : Nat
  payloadLength : Option Nat
  data : Option Bytes
  truncated : Bool
deriving DecidableEq, Repr

/-- `bit.band(byte, mask) ~= 0` -/
def flag (byte mask : Nat) : Bool := byte &&& mask ≠ 0

/-- The bits under the mask `0xC0` -/
def protocolType (byte : Nat) : Nat := (byte &&& 0xC0) >>> 6

def dissectSaw (buffer : Bytes) : Except LuaError Tree := do
  let byte1 ← uint buffer 0 1
  let _ ← range buffer 0 2
  let port ← uint buffer 2 2
  let tree : Tree :=
    { protocol := protocolType byte1
      isAck := flag byte1 0x10
      isSyn := flag byte1 0x08
      isFin := flag byte1 0x04
      seqNum := some (if flag byte1 0x20 then 1 else 0)
      ackNum := none
      port
      payloadLength := none
      data := none
      truncated := false }
  let plenStart := 4
  if plenStart + 2 ≤ buffer.length then
    let plen ← uint buffer plenStart 2
    let dataStart := 6
    if 0 < plen ∧ dataStart + plen ≤ buffer.length then
      let data ← range buffer dataStart plen
      return { tree with payloadLength := some plen, data := some data }
    else if 0 < plen then
      let data ← rangeFrom buffer dataStart
      return { tree with payloadLength := some plen, data := some data, truncated := true }
    else return { tree with payloadLength := some plen }
  else return tree

/-- A number of four bytes, if the buffer reaches to its end -/
def number (buffer : Bytes) (offset : Nat) : Except LuaError (Option Nat) :=
  if offset + 4 ≤ buffer.length then (uint buffer offset 4).map some else .ok none

def dissectGbn (buffer : Bytes) : Except LuaError Tree := do
  let byte1 ← uint buffer 0 1
  let _ ← range buffer 0 2
  let port ← uint buffer 2 2
  let payloadLength ← number buffer 4
  let seqNum ← number buffer 8
  let ackNum ← number buffer 12
  let tree : Tree :=
    { protocol := protocolType byte1
      isAck := flag byte1 0x20
      isSyn := flag byte1 0x10
      isFin := flag byte1 0x08
      seqNum
      ackNum
      port
      payloadLength
      data := none
      truncated := false }
  let dataStart := 16
  let plen := payloadLength.getD 0
  if 0 < plen ∧ dataStart + plen ≤ buffer.length then
    let data ← range buffer dataStart plen
    return { tree with data := some data }
  else if 0 < plen then
    let availableData := max 0 (buffer.length - dataStart)
    let data ← range buffer dataStart availableData
    return { tree with data := some data, truncated := true }
  else return tree

/-- `saw_proto_format.dissector`; `none` is its `false`. -/
def dissector (buffer : Bytes) : Except LuaError (Option Tree) := do
  if buffer.length < 2 then return none
  else
    let byte1 ← uint buffer 0 1
    if protocolType byte1 = 0b00 then
      if buffer.length < 6 then return none
      else return some (← dissectSaw buffer)
    else if protocolType byte1 = 0b01 then
      if buffer.length < 16 then return none
      else return some (← dissectGbn buffer)
    else return none

/-! ## The two ways to read a header -/

variable {buffer : Bytes} {offset length : Nat}

theorem range_eq (h : offset + length ≤ buffer.length) :
    range buffer offset length = .ok (slice offset (offset + length) buffer) := by
  rw [range, if_pos h, slice, List.drop_take, Nat.add_sub_cancel_left]

theorem uint_eq (h : offset + length ≤ buffer.length) :
    uint buffer offset length = .ok (fromBytes (slice offset (offset + length) buffer)) := by
  rw [uint, range_eq h]
  rfl

theorem number_eq (h : offset + 4 ≤ buffer.length) :
    number buffer offset = .ok (some (fromBytes (slice offset (offset + 4) buffer))) := by
  rw [number, if_pos h, uint_eq h]
  rfl

/-- The upper byte of the flags is the first byte of the datagram. -/
theorem flagsOf_shiftRight (h : 2 ≤ buffer.length) (k : Nat) :
    flagsOf buffer >>> (8 + k) = fromBytes (slice 0 1 buffer) >>> k := by
  obtain ⟨b, rest, rfl⟩ := List.exists_cons_of_length_pos (lt_of_lt_of_le Nat.two_pos h)
  obtain ⟨b', rest, rfl⟩ := List.exists_cons_of_length_pos (Nat.le_of_succ_le_succ h)
  have hflags : flagsOf (b :: b' :: rest) = 256 * b.toNat + b'.toNat := by
    simp [flagsOf, slice, fromBytes]
  have hbyte : fromBytes (slice 0 1 (b :: b' :: rest)) = b.toNat := by
    simp [slice, fromBytes]
  have hlow : b'.toNat < 256 := b'.toNat_lt
  rw [hflags, hbyte, Nat.shiftRight_add]
  congr 1
  rw [Nat.shiftRight_eq_div_pow]
  omega

/-- A mask of one bit and a shift tell the same. -/
theorem flag_eq (byte k : Nat) : flag byte (2 ^ k) = bit byte k := by
  rw [flag, bit, Nat.and_comm, Nat.two_pow_and, Nat.testBit_eq_decide_div_mod_eq,
    Nat.shiftRight_eq_div_pow, Nat.and_one_is_mod]
  rcases Nat.mod_two_eq_zero_or_one (byte / 2 ^ k) with h | h <;> simp [h]

theorem bit_flagsOf (h : 2 ≤ buffer.length) (k : Nat) :
    bit (flagsOf buffer) (8 + k) = flag (fromBytes (slice 0 1 buffer)) (2 ^ k) := by
  rw [flag_eq, bit, flagsOf_shiftRight h, bit]

theorem versionOf_eq (h : 2 ≤ buffer.length) :
    versionOf buffer = protocolType (fromBytes (slice 0 1 buffer)) := by
  have hshift : flagsOf buffer >>> 14 = _ := flagsOf_shiftRight h 6
  rw [versionOf, hshift, protocolType, Nat.shiftRight_and_distrib]
  rfl

/-! ## What the dissector shows -/

/-- The subtree shows the packet. -/
structure Shows (tree : Tree) (p : Packet) : Prop where
  protocol : tree.protocol = versionBits p.protocol
  isAck : tree.isAck = p.isAck
  isSyn : tree.isSyn = p.isSyn
  isFin : tree.isFin = p.isFin
  seqNum : tree.seqNum = some p.sequenceNumber
  ackNum : tree.ackNum = p.ackNumber
  port : tree.port = p.port
  payloadLength : tree.payloadLength = some p.payloadLength
  data : tree.data.getD [] = p.data
  truncated : tree.truncated = true ↔ p.data.length < p.payloadLength

section Payload

variable {start plen : Nat}

/-- A payload that reaches behind the end of the datagram is read as far as it is there. -/
theorem slice_truncated (h : ¬start + plen ≤ buffer.length) :
    slice start (start + plen) buffer = buffer.drop start := by
  rw [slice, List.take_of_length_le (not_le.mp h).le]

theorem length_slice_lt (hs : start ≤ buffer.length) :
    (slice start (start + plen) buffer).length < plen ↔ ¬start + plen ≤ buffer.length := by
  rw [slice, List.length_drop, List.length_take]
  omega

theorem slice_empty (start : Nat) (buffer : Bytes) : slice start (start + 0) buffer = [] := by
  rw [slice, Nat.add_zero, List.drop_eq_nil_of_le (List.length_take_le _ _)]

/-- The end of both dissectors, which differ in how they ask for what is left of the buffer -/
theorem payload_shown (plen : Nat) (tree : Tree) {rest : Except LuaError Bytes} (hs : start ≤ buffer.length)
    (hrest : rest = .ok (buffer.drop start)) (hdata : tree.data = none)
    (htruncated : tree.truncated = false) :
    ∃ data truncated,
      (if 0 < plen ∧ start + plen ≤ buffer.length then
          (range buffer start plen).bind fun data ↦ .ok { tree with data := some data }
        else if 0 < plen then
          rest.bind fun data ↦ .ok { tree with data := some data, truncated := true }
        else .ok tree) = Except.ok { tree with data, truncated } ∧
      data.getD [] = slice start (start + plen) buffer ∧
      (truncated = true ↔ (slice start (start + plen) buffer).length < plen) := by
  by_cases hpos : 0 < plen
  · by_cases hfits : start + plen ≤ buffer.length
    · refine ⟨some (slice start (start + plen) buffer), false, ?_, rfl, ?_⟩
      · rw [if_pos ⟨hpos, hfits⟩, range_eq hfits, ← htruncated]
        rfl
      · exact iff_of_false Bool.false_ne_true (fun h ↦ (length_slice_lt hs).mp h hfits)
    · refine ⟨some (buffer.drop start), true, ?_, (slice_truncated hfits).symm, ?_⟩
      · rw [if_neg fun h ↦ hfits h.2, if_pos hpos, hrest]
        rfl
      · exact iff_of_true rfl ((length_slice_lt hs).mpr hfits)
  · obtain rfl := Nat.eq_zero_of_not_pos hpos
    refine ⟨none, false, ?_, (slice_empty start buffer).symm, ?_⟩
    · rw [if_neg fun h ↦ hpos h.1, if_neg hpos, ← hdata, ← htruncated]
    · exact iff_of_false Bool.false_ne_true (Nat.not_lt_zero _)

end Payload

theorem dissectSaw_shows (hlen : 6 ≤ buffer.length) (hversion : versionOf buffer = 0b00) :
    ∃ tree, dissectSaw buffer = .ok tree ∧ Shows tree (getPacketFromBytes buffer) := by
  have h2 : 2 ≤ buffer.length := le_trans (by decide) hlen
  have hnot : versionOf buffer ≠ 0b01 := by
    rw [hversion]
    decide
  have hseq : (if flag (fromBytes (slice 0 1 buffer)) 0x20 then 1 else 0) =
      flagsOf buffer >>> 13 &&& 0b1 := by
    have hbit : bit (flagsOf buffer) 13 = flag _ 0x20 := bit_flagsOf h2 5
    rw [← hbit, bit, Nat.and_one_is_mod]
    rcases Nat.mod_two_eq_zero_or_one (flagsOf buffer >>> 13) with h | h <;> simp [h]
  let tree : Tree :=
    { protocol := protocolType (fromBytes (slice 0 1 buffer))
      isAck := flag (fromBytes (slice 0 1 buffer)) 0x10
      isSyn := flag (fromBytes (slice 0 1 buffer)) 0x08
      isFin := flag (fromBytes (slice 0 1 buffer)) 0x04
      seqNum := some (if flag (fromBytes (slice 0 1 buffer)) 0x20 then 1 else 0)
      ackNum := none
      port := fromBytes (slice 2 4 buffer)
      payloadLength := some (fromBytes (slice 4 6 buffer))
      data := none
      truncated := false }
  have hrest : rangeFrom buffer 6 = .ok (buffer.drop 6) := if_pos hlen
  obtain ⟨data, truncated, hshown, hdata, htruncated⟩ :=
    payload_shown (fromBytes (slice 4 6 buffer)) tree hlen hrest rfl rfl
  refine ⟨{ tree with data, truncated }, ?_, ?_⟩
  · have hbyte : uint buffer 0 1 = _ := uint_eq (le_trans (by decide) hlen)
    have hunused : range buffer 0 2 = _ := range_eq h2
    have hport : uint buffer 2 2 = _ := uint_eq (le_trans (by decide) hlen)
    have hplen : uint buffer 4 2 = _ := uint_eq hlen
    simp only [dissectSaw, hbyte, hunused, hport, hplen, bind, Except.bind]
    rw [if_pos hlen]
    exact hshown
  · rw [getPacketFromBytes_of_not_gbn hnot]
    exact
      { protocol := (versionOf_eq h2).symm.trans hversion
        isAck := (bit_flagsOf h2 4).symm
        isSyn := (bit_flagsOf h2 3).symm
        isFin := (bit_flagsOf h2 2).symm
        seqNum := congrArg some hseq
        ackNum := rfl
        port := rfl
        payloadLength := rfl
        data := hdata
        truncated := htruncated }

theorem dissectGbn_shows (hlen : 16 ≤ buffer.length) (hversion : versionOf buffer = 0b01) :
    ∃ tree, dissectGbn buffer = .ok tree ∧ Shows tree (getPacketFromBytes buffer) := by
  have h2 : 2 ≤ buffer.length := le_trans (by decide) hlen
  let tree : Tree :=
    { protocol := protocolType (fromBytes (slice 0 1 buffer))
      isAck := flag (fromBytes (slice 0 1 buffer)) 0x20
      isSyn := flag (fromBytes (slice 0 1 buffer)) 0x10
      isFin := flag (fromBytes (slice 0 1 buffer)) 0x08
      seqNum := some (fromBytes (slice 8 12 buffer))
      ackNum := some (fromBytes (slice 12 16 buffer))
      port := fromBytes (slice 2 4 buffer)
      payloadLength := some (fromBytes (slice 4 8 buffer))
      data := none
      truncated := false }
  have hrest : range buffer 16 (max 0 (buffer.length - 16)) = .ok (buffer.drop 16) := by
    rw [Nat.zero_max, range, if_pos (Nat.add_sub_cancel' hlen).le, List.take_of_length_le]
    exact List.length_drop.le
  obtain ⟨data, truncated, hshown, hdata, htruncated⟩ :=
    payload_shown (fromBytes (slice 4 8 buffer)) tree hlen hrest rfl rfl
  refine ⟨{ tree with data, truncated }, ?_, ?_⟩
  · have hbyte : uint buffer 0 1 = _ := uint_eq (le_trans (by decide) hlen)
    have hunused : range buffer 0 2 = _ := range_eq h2
    have hport : uint buffer 2 2 = _ := uint_eq (le_trans (by decide) hlen)
    have hplen : number buffer 4 = _ := number_eq (le_trans (by decide) hlen)
    have hseq : number buffer 8 = _ := number_eq (le_trans (by decide) hlen)
    have hack : number buffer 12 = _ := number_eq hlen
    simp only [dissectGbn, hbyte, hunused, hport, hplen, hseq, hack, bind, Except.bind]
    exact hshown
  · rw [getPacketFromBytes_of_gbn hversion]
    exact
      { protocol := (versionOf_eq h2).symm.trans hversion
        isAck := (bit_flagsOf h2 5).symm
        isSyn := (bit_flagsOf h2 4).symm
        isFin := (bit_flagsOf h2 3).symm
        seqNum := rfl
        ackNum := rfl
        port := rfl
        payloadLength := rfl
        data := hdata
        truncated := htruncated }

/-- What the dissector does with a buffer, by its protocol bits -/
theorem dissector_cases (buffer : Bytes) :
    dissector buffer = .ok none ∨
      ∃ tree, dissector buffer = .ok (some tree) ∧ Shows tree (getPacketFromBytes buffer) := by
  by_cases h2 : 2 ≤ buffer.length
  · have hbyte : uint buffer 0 1 = _ := uint_eq (le_trans (by decide) h2)
    have hversion := versionOf_eq h2
    simp only [dissector, if_neg (not_lt.mpr h2), hbyte, bind, Except.bind, Nat.zero_add, ← hversion]
    by_cases h0 : versionOf buffer = 0b00
    · rw [if_pos h0]
      by_cases hlen : 6 ≤ buffer.length
      · obtain ⟨tree, htree, hshows⟩ := dissectSaw_shows hlen h0
        rw [if_neg (not_lt.mpr hlen), htree]
        exact .inr ⟨tree, rfl, hshows⟩
      · exact .inl (if_pos (not_le.mp hlen))
    · rw [if_neg h0]
      by_cases h1 : versionOf buffer = 0b01
      · rw [if_pos h1]
        by_cases hlen : 16 ≤ buffer.length
        · obtain ⟨tree, htree, hshows⟩ := dissectGbn_shows hlen h1
          rw [if_neg (not_lt.mpr hlen), htree]
          exact .inr ⟨tree, rfl, hshows⟩
        · exact .inl (if_pos (not_le.mp hlen))
      · exact .inl (if_neg h1)
  · exact .inl (if_pos (not_le.mp h2))

/-- The dissector runs into no error, and what it accepts it shows as the program reads it. -/
theorem dissector_shows (buffer : Bytes) :
    ∃ shown, dissector buffer = .ok shown ∧
      ∀ tree, shown = some tree → Shows tree (getPacketFromBytes buffer) := by
  rcases dissector_cases buffer with h | ⟨tree, h, hshows⟩
  · exact ⟨none, h, fun tree ht ↦ (by cases ht)⟩
  · refine ⟨some tree, h, ?_⟩
    rintro _ ⟨⟩
    exact hshows

/-- A Go-Back-N ACK that announces three bytes and has one -/
theorem dissector_shows_truncated :
    ∃ tree, dissector [0x60, 0, 30, 97, 0, 0, 0, 3, 0, 0, 1, 44, 0, 0, 1, 43, 72] =
        .ok (some tree) ∧ tree.truncated = true ∧
      Shows tree (getPacketFromBytes [0x60, 0, 30, 97, 0, 0, 0, 3, 0, 0, 1, 44, 0, 0, 1, 43, 72]) := by
  obtain ⟨shown, heq, hshows⟩ :=
    dissector_shows [0x60, 0, 30, 97, 0, 0, 0, 3, 0, 0, 1, 44, 0, 0, 1, 43, 72]
  have hshown : dissector [0x60, 0, 30, 97, 0, 0, 0, 3, 0, 0, 1, 44, 0, 0, 1, 43, 72] =
      .ok (some ⟨1, true, false, false, some 300, some 299, 7777, some 3, some [72], true⟩) := by
    decide
  obtain rfl := Except.ok.inj (heq.symm.trans hshown)
  exact ⟨_, hshown, rfl, hshows _ rfl⟩

end Rdt.Wireshark
