import Rdt.Common.Basic
import Rdt.Lib.BigEndian

/-! # Packets, exceptions and the packet parser -/

namespace Rdt

open BigEndian

/-- `Packet` with its two subclasses: only a `PacketGbn` has the attribute `ack_number`. -/
structure Packet where
  protocol : ProtocolType
  sequenceNumber : Nat
  isAck : Bool
  isSyn : Bool
  isFin : Bool
  port : Nat
  payloadLength : Nat
  data : Bytes
  ackNumber : Option Nat
deriving DecidableEq, Repr

/-- The classes under `lib/*/exceptions`, then the Python errors the code can run into. -/
inductive ExnClass where
  | connectionLost
  | invalidAckNumber
  | invalidFilename
  | invalidSequenceNumber
  | messageIsNotAck
  | messageIsNotFin
  | messageIsNotFinAck
  | messageIsNotSyn
  | messageNotFinNorAck
  | retransmissionNeeded
  | socketShutdown
  | unexpectedFinMessage
  | connectionRefused
  | fileAlreadyExists
  | fileDoesNotExist
  | fileTooBig
  | missingServerAddress
  | clientAlreadyConnected
  | missingClientAddress
  | protocolMismatch
  | unexpectedOperation
  | connectionClosingNeeded
  | attributeError
  | keyError
  | osError
  | overflowError
  | structError
  | typeError
  | unboundLocalError
  | unicodeDecodeError
  | valueError
deriving DecidableEq, Repr

/-- An exception object; some are raised with `packet=`. -/
structure Exn where
  cls : ExnClass
  packet : Option Packet
deriving DecidableEq, Repr

/-- `raise Cls()` -/
def ExnClass.exn (c : ExnClass) : Exn := ⟨c, none⟩

/-- `raise Cls(packet=packet)` -/
def ExnClass.carrying (c : ExnClass) (p : Packet) : Exn := ⟨c, some p⟩

@[simp] theorem ExnClass.exn_cls (c : ExnClass) : c.exn.cls = c := rfl

@[simp] theorem ExnClass.carrying_cls (c : ExnClass) (p : Packet) : (c.carrying p).cls = c := rfl

@[simp] theorem ExnClass.carrying_packet (c : ExnClass) (p : Packet) :
    (c.carrying p).packet = some p := rfl

/-- `packet.ack_number`, which only a `PacketGbn` has. -/
def Packet.getAckNumber (p : Packet) : Except Exn Nat :=
  match p.ackNumber with
  | some n => .ok n
  | none => .error ExnClass.attributeError.exn

/-! ## Sequencing -/

section Except

variable {ε α β : Type} {x : Except ε α} {f : α → Except ε β}

theorem except_bind_eq_ok {b : β} : x >>= f = .ok b ↔ ∃ a, x = .ok a ∧ f a = .ok b := by
  cases x <;> simp [bind, Except.bind]

theorem except_bind_eq_error {e : ε} :
    x >>= f = .error e ↔ x = .error e ∨ ∃ a, x = .ok a ∧ f a = .error e := by
  cases x <;> simp [bind, Except.bind]

theorem except_pure_eq_ok {a b : α} : (pure a : Except ε α) = .ok b ↔ a = b := by
  simp [pure, Except.pure]

theorem except_pure_ne_error {a : α} {e : ε} : (pure a : Except ε α) ≠ .error e := nofun

end Except

namespace PacketParser

/-- `packet[a:b]` -/
def slice (a b : Nat) (bs : Bytes) : Bytes := (bs.take b).drop a

/-- `struct.pack` of unsigned big-endian fields given as (width, value). -/
def structPack : List (Nat × Nat) → Except Exn Bytes
  | [] => .ok []
  | (w, n) :: fields =>
      if n < 256 ^ w then (structPack fields).map (toBytes w n ++ ·) else .error ExnClass.structError.exn

def sawFlags (sequenceNumber : Nat) (isAck isSyn isFin : Bool) : Nat :=
  0b00 <<< 14 ||| (if sequenceNumber = 1 then 0b1 else 0b0) <<< 13 ||| isAck.toNat <<< 12 |||
    isSyn.toNat <<< 11 ||| isFin.toNat <<< 10

def composePacketSawForNet (p : Packet) : Except Exn Bytes :=
  (structPack [(2, sawFlags p.sequenceNumber p.isAck p.isSyn p.isFin), (2, p.port),
    (2, p.payloadLength)]).map (· ++ p.data)

def gbnFlags (isAck isSyn isFin : Bool) : Nat :=
  0b01 <<< 14 ||| isAck.toNat <<< 13 ||| isSyn.toNat <<< 12 ||| isFin.toNat <<< 11

def composePacketGbnForNet (p : Packet) : Except Exn Bytes :=
  p.getAckNumber.bind fun ackNumber ↦
    (structPack [(2, gbnFlags p.isAck p.isSyn p.isFin), (2, p.port), (4, p.payloadLength),
      (4, p.sequenceNumber), (4, ackNumber)]).map (· ++ p.data)

/-- `header >> pos & 0b1 == 0b1` -/
def bit (header pos : Nat) : Bool := header >>> pos &&& 0b1 == 0b1

def parsePacketSaw (protocol : ProtocolType) (header pos : Nat) (packet : Bytes) : Packet :=
  let payloadLength := fromBytes (slice 4 6 packet)
  { protocol
    sequenceNumber := header >>> (pos - 1) &&& 0b1
    isAck := bit header (pos - 2)
    isSyn := bit header (pos - 3)
    isFin := bit header (pos - 4)
    port := fromBytes (slice 2 4 packet)
    payloadLength
    data := slice 6 (6 + payloadLength) packet
    ackNumber := none }

def parsePacketGbn (protocol : ProtocolType) (header pos : Nat) (packet : Bytes) : Packet :=
  let payloadLength := fromBytes (slice 4 8 packet)
  { protocol
    sequenceNumber := fromBytes (slice 8 12 packet)
    isAck := bit header (pos - 1)
    isSyn := bit header (pos - 2)
    isFin := bit header (pos - 3)
    port := fromBytes (slice 2 4 packet)
    payloadLength
    data := slice 16 (16 + payloadLength) packet
    ackNumber := some (fromBytes (slice 12 16 packet)) }

/-- The source returns the protocol next to the packet that already carries it. -/
def getPacketFromBytes (packet : Bytes) : Packet :=
  let header := fromBytes (slice 0 2 packet)
  let pos := 16 - 2
  if header >>> pos &&& 0b11 = 0b01 then parsePacketGbn .goBackN header pos packet
  else parsePacketSaw .stopAndWait header pos packet

/-! ## Reading back what a composer wrote -/

theorem structPack_eq_ok {fields : List (Nat × Nat)} (h : ∀ f ∈ fields, f.2 < 256 ^ f.1) :
    structPack fields = .ok (fields.flatMap fun f ↦ toBytes f.1 f.2) := by
  induction fields with
  | nil => rfl
  | cons f fields ih =>
      have hf := h f List.mem_cons_self
      have ih := ih fun g hg ↦ h g (List.mem_cons_of_mem f hg)
      simp [structPack, hf, ih, Except.map]

theorem structPack_error {fields : List (Nat × Nat)} (h : ∃ f ∈ fields, 256 ^ f.1 ≤ f.2) :
    structPack fields = .error ExnClass.structError.exn := by
  induction fields with
  | nil => exact absurd h (by simp)
  | cons f fields ih =>
      by_cases hf : f.2 < 256 ^ f.1
      · have hrest : ∃ g ∈ fields, 256 ^ g.1 ≤ g.2 := by
          obtain ⟨g, hg, hle⟩ := h
          rcases List.mem_cons.mp hg with rfl | hg
          · omega
          · exact ⟨g, hg, hle⟩
        simp [structPack, hf, ih hrest, Except.map]
      · simp [structPack, hf]

/-- Packing fails on a field that does not fit, and only then. -/
theorem structPack_cases (fields : List (Nat × Nat)) :
    ((∀ f ∈ fields, f.2 < 256 ^ f.1) ∧
        structPack fields = .ok (fields.flatMap fun f ↦ toBytes f.1 f.2)) ∨
      structPack fields = .error ExnClass.structError.exn := by
  by_cases h : ∀ f ∈ fields, f.2 < 256 ^ f.1
  · exact .inl ⟨h, structPack_eq_ok h⟩
  · push Not at h
    exact .inr (structPack_error h)

/-- A slice that spans exactly the field after a prefix. -/
theorem slice_append {pre field post : Bytes} {a b : Nat} (ha : pre.length = a)
    (hb : a + field.length = b) : slice a b (pre ++ (field ++ post)) = field := by
  subst ha hb
  rw [slice, List.take_length_add_append, List.drop_left, List.take_left]

theorem slice_zero_append {field post : Bytes} {b : Nat} (hb : field.length = b) :
    slice 0 b (field ++ post) = field := by
  subst hb
  rw [slice, List.take_left, List.drop_zero]

theorem sawFlags_lt (n : Nat) (a s f : Bool) : sawFlags n a s f < 256 ^ 2 := by
  unfold sawFlags
  cases a <;> cases s <;> cases f <;> split <;> decide

theorem gbnFlags_lt (a s f : Bool) : gbnFlags a s f < 256 ^ 2 := by
  cases a <;> cases s <;> cases f <;> decide

theorem sawFlags_bits (n : Nat) (a s f : Bool) :
    sawFlags n a s f >>> 14 &&& 0b11 = 0b00 ∧
      sawFlags n a s f >>> 13 &&& 0b1 = (if n = 1 then 1 else 0) ∧
      bit (sawFlags n a s f) 12 = a ∧ bit (sawFlags n a s f) 11 = s ∧
      bit (sawFlags n a s f) 10 = f := by
  unfold sawFlags
  cases a <;> cases s <;> cases f <;> split <;> decide

theorem gbnFlags_bits (a s f : Bool) :
    gbnFlags a s f >>> 14 &&& 0b11 = 0b01 ∧ bit (gbnFlags a s f) 13 = a ∧
      bit (gbnFlags a s f) 12 = s ∧ bit (gbnFlags a s f) 11 = f := by
  cases a <;> cases s <;> cases f <;> decide

/-- The header `compose_packet_saw_for_net` writes before the data. -/
def sawHeader (p : Packet) : Bytes :=
  toBytes 2 (sawFlags p.sequenceNumber p.isAck p.isSyn p.isFin) ++
    (toBytes 2 p.port ++ toBytes 2 p.payloadLength)

/-- The header `compose_packet_gbn_for_net` writes before the data. -/
def gbnHeader (p : Packet) (ackNumber : Nat) : Bytes :=
  toBytes 2 (gbnFlags p.isAck p.isSyn p.isFin) ++ (toBytes 2 p.port ++
    (toBytes 4 p.payloadLength ++ (toBytes 4 p.sequenceNumber ++ toBytes 4 ackNumber)))

@[simp] theorem length_sawHeader (p : Packet) : (sawHeader p).length = 6 := by
  simp [sawHeader]

@[simp] theorem length_gbnHeader (p : Packet) (n : Nat) : (gbnHeader p n).length = 16 := by
  simp [gbnHeader]

theorem composePacketSawForNet_eq_ok {p : Packet} (hport : p.port < 2 ^ 16)
    (hlen : p.payloadLength < 2 ^ 16) :
    composePacketSawForNet p = .ok (sawHeader p ++ p.data) := by
  rw [composePacketSawForNet, structPack_eq_ok]
  · simp [sawHeader, Except.map]
  · simp only [List.mem_cons, List.not_mem_nil, or_false, forall_eq_or_imp, forall_eq]
    exact ⟨sawFlags_lt _ _ _ _, hport, hlen⟩

theorem composePacketGbnForNet_eq_ok {p : Packet} {n : Nat} (hack : p.ackNumber = some n)
    (hport : p.port < 2 ^ 16) (hlen : p.payloadLength < 2 ^ 32)
    (hseq : p.sequenceNumber < 2 ^ 32) (hn : n < 2 ^ 32) :
    composePacketGbnForNet p = .ok (gbnHeader p n ++ p.data) := by
  simp only [composePacketGbnForNet, Packet.getAckNumber, hack, Except.bind]
  rw [structPack_eq_ok]
  · simp [gbnHeader, Except.map]
  · simp only [List.mem_cons, List.not_mem_nil, or_false, forall_eq_or_imp, forall_eq]
    exact ⟨gbnFlags_lt _ _ _, hport, hlen, hseq, hn⟩

/-- A Go-Back-N packet is composed if its fields fit. -/
theorem composePacketGbnForNet_cases (p : Packet) {n : Nat} (hack : p.ackNumber = some n) :
    (p.port < 2 ^ 16 ∧ p.payloadLength < 2 ^ 32 ∧ p.sequenceNumber < 2 ^ 32 ∧ n < 2 ^ 32 ∧
        composePacketGbnForNet p = .ok (gbnHeader p n ++ p.data)) ∨
      composePacketGbnForNet p = .error ExnClass.structError.exn := by
  rcases structPack_cases [(2, gbnFlags p.isAck p.isSyn p.isFin), (2, p.port),
    (4, p.payloadLength), (4, p.sequenceNumber), (4, n)] with ⟨h, -⟩ | h
  · simp only [List.mem_cons, List.not_mem_nil, or_false, forall_eq_or_imp, forall_eq] at h
    obtain ⟨-, hport, hlen, hseq, hn⟩ := h
    exact .inl ⟨hport, hlen, hseq, hn, composePacketGbnForNet_eq_ok hack hport hlen hseq hn⟩
  · right
    simp [composePacketGbnForNet, Packet.getAckNumber, hack, Except.bind, h, Except.map]

theorem composePacketSawForNet_error {p : Packet} {e : Exn}
    (h : composePacketSawForNet p = .error e) : e = ExnClass.structError.exn := by
  rcases structPack_cases [(2, sawFlags p.sequenceNumber p.isAck p.isSyn p.isFin), (2, p.port),
    (2, p.payloadLength)] with ⟨-, hok⟩ | herr
  · rw [composePacketSawForNet, hok] at h
    cases h
  · rw [composePacketSawForNet, herr] at h
    exact (Except.error.inj h).symm

theorem composePacketGbnForNet_error {p : Packet} {e : Exn}
    (h : composePacketGbnForNet p = .error e) :
    e = ExnClass.structError.exn ∨ e = ExnClass.attributeError.exn := by
  cases hack : p.ackNumber with
  | none =>
      simp only [composePacketGbnForNet, Packet.getAckNumber, hack, Except.bind] at h
      exact .inr (Except.error.inj h).symm
  | some n =>
      rcases composePacketGbnForNet_cases p hack with ⟨-, -, -, -, hok⟩ | herr
      · rw [hok] at h
        cases h
      · rw [herr] at h
        exact .inl (Except.error.inj h).symm

/-- Parsing a Stop-and-Wait header followed by any bytes: the data is what the header
announces, as far as it is there. -/
theorem getPacketFromBytes_sawHeader {p : Packet} (hport : p.port < 2 ^ 16)
    (hlen : p.payloadLength < 2 ^ 16) (d : Bytes) :
    getPacketFromBytes (sawHeader p ++ d) =
      { p with
        protocol := .stopAndWait
        sequenceNumber := if p.sequenceNumber = 1 then 1 else 0
        data := d.take p.payloadLength
        ackNumber := none } := by
  obtain ⟨hproto, hseq, hack, hsyn, hfin⟩ := sawFlags_bits p.sequenceNumber p.isAck p.isSyn p.isFin
  have e1 : fromBytes (slice 0 2 (sawHeader p ++ d)) =
      sawFlags p.sequenceNumber p.isAck p.isSyn p.isFin := by
    simp only [sawHeader, List.append_assoc]
    rw [slice_zero_append (by simp)]
    exact fromBytes_toBytes (sawFlags_lt _ _ _ _)
  have e2 : fromBytes (slice 2 4 (sawHeader p ++ d)) = p.port := by
    simp only [sawHeader, List.append_assoc]
    rw [slice_append (by simp) (by simp)]
    exact fromBytes_toBytes hport
  have e3 : fromBytes (slice 4 6 (sawHeader p ++ d)) = p.payloadLength := by
    simp only [sawHeader, List.append_assoc]
    rw [← List.append_assoc, slice_append (by simp) (by simp)]
    exact fromBytes_toBytes hlen
  have e4 : slice 6 (6 + p.payloadLength) (sawHeader p ++ d) = d.take p.payloadLength := by
    rw [slice, List.take_append, List.drop_append]
    simp
  simp only [getPacketFromBytes, e1, hproto, parsePacketSaw, e2, e3, e4, hseq, hack, hsyn, hfin]
  simp

/-- Parsing a Go-Back-N header followed by any bytes. -/
theorem getPacketFromBytes_gbnHeader {p : Packet} {n : Nat} (hport : p.port < 2 ^ 16)
    (hlen : p.payloadLength < 2 ^ 32) (hseq : p.sequenceNumber < 2 ^ 32) (hn : n < 2 ^ 32)
    (d : Bytes) :
    getPacketFromBytes (gbnHeader p n ++ d) =
      { p with
        protocol := .goBackN
        data := d.take p.payloadLength
        ackNumber := some n } := by
  obtain ⟨hproto, hack, hsyn, hfin⟩ := gbnFlags_bits p.isAck p.isSyn p.isFin
  have e1 : fromBytes (slice 0 2 (gbnHeader p n ++ d)) = gbnFlags p.isAck p.isSyn p.isFin := by
    simp only [gbnHeader, List.append_assoc]
    rw [slice_zero_append (by simp)]
    exact fromBytes_toBytes (gbnFlags_lt _ _ _)
  have e2 : fromBytes (slice 2 4 (gbnHeader p n ++ d)) = p.port := by
    simp only [gbnHeader, List.append_assoc]
    rw [slice_append (by simp) (by simp)]
    exact fromBytes_toBytes hport
  have e3 : fromBytes (slice 4 8 (gbnHeader p n ++ d)) = p.payloadLength := by
    simp only [gbnHeader, List.append_assoc]
    rw [← List.append_assoc, slice_append (by simp) (by simp)]
    exact fromBytes_toBytes hlen
  have e4 : fromBytes (slice 8 12 (gbnHeader p n ++ d)) = p.sequenceNumber := by
    simp only [gbnHeader, List.append_assoc]
    rw [← List.append_assoc, ← List.append_assoc, slice_append (by simp) (by simp)]
    exact fromBytes_toBytes hseq
  have e5 : fromBytes (slice 12 16 (gbnHeader p n ++ d)) = n := by
    simp only [gbnHeader, List.append_assoc]
    rw [← List.append_assoc, ← List.append_assoc, ← List.append_assoc,
      slice_append (by simp) (by simp)]
    exact fromBytes_toBytes hn
  have e6 : slice 16 (16 + p.payloadLength) (gbnHeader p n ++ d) = d.take p.payloadLength := by
    rw [slice, List.take_append, List.drop_append]
    simp
  simp only [getPacketFromBytes, e1, hproto, parsePacketGbn, e2, e3, e4, e5, e6, hack, hsyn, hfin]
  simp

/-- A parsed packet is one of the two kinds. -/
theorem getPacketFromBytes_protocol (bs : Bytes) :
    ((getPacketFromBytes bs).protocol = .stopAndWait ∧ (getPacketFromBytes bs).ackNumber = none ∧
        (getPacketFromBytes bs).sequenceNumber < 2) ∨
      ((getPacketFromBytes bs).protocol = .goBackN ∧ ∃ n, (getPacketFromBytes bs).ackNumber = some n) := by
  unfold getPacketFromBytes
  dsimp only
  split
  · exact .inr ⟨rfl, _, rfl⟩
  · exact .inl ⟨rfl, rfl, lt_of_le_of_lt Nat.and_le_right (by decide)⟩

/-- Whatever the bytes, the numbers of a parsed packet fit their header fields. -/
theorem getPacketFromBytes_bounds (bs : Bytes) :
    (getPacketFromBytes bs).sequenceNumber < 2 ^ 32 ∧
      ∀ n ∈ (getPacketFromBytes bs).ackNumber, n < 2 ^ 32 := by
  have hfour : ∀ a, fromBytes (slice a (a + 4) bs) < 2 ^ 32 := by
    intro a
    have hlen : (slice a (a + 4) bs).length ≤ 4 := by
      simp only [slice, List.length_drop, List.length_take]
      omega
    exact lt_of_lt_of_eq (fromBytes_lt_of_length_le hlen) (by norm_num)
  unfold getPacketFromBytes
  dsimp only
  split
  · exact ⟨hfour 8, fun n hn ↦ Option.some.inj hn ▸ hfour 12⟩
  · refine ⟨?_, fun n hn ↦ nomatch hn⟩
    exact lt_of_le_of_lt Nat.and_le_right (by decide)

/-- A packet that announces no data has none. -/
theorem data_eq_nil_of_payloadLength {raw : Bytes}
    (h : (getPacketFromBytes raw).payloadLength = 0) : (getPacketFromBytes raw).data = [] := by
  unfold getPacketFromBytes at h ⊢
  dsimp only at h ⊢
  split at h
  · rename_i hgbn
    rw [if_pos hgbn]
    simp only [parsePacketGbn] at h ⊢
    rw [h, slice, Nat.add_zero]
    simp
  · rename_i hsaw
    rw [if_neg hsaw]
    simp only [parsePacketSaw] at h ⊢
    rw [h, slice, Nat.add_zero]
    simp

end PacketParser

end Rdt
