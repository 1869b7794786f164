import Rdt.Common.Codec
import Rdt.Common.GoBackN
import Rdt.Common.Protocol

/-!
# Integers and the fields they go into

What the composers take, and which bounds the sender and the receiver of Go-Back-N keep their
numbers within.
-/

namespace Rdt

open PacketParser

/-- What `to_bytes` and `struct.pack` raise on an integer that does not fit -/
def ExnClass.OutOfRange (e : ExnClass) : Prop := e = .overflowError ∨ e = .structError

instance (e : ExnClass) : Decidable e.OutOfRange := inferInstanceAs (Decidable (_ ∨ _))

/-! ## Code that may raise -/

section Raising

variable {α β : Type}

/-- Whatever is raised, it is no integer that does not fit. -/
def InRange (x : Except Exn α) : Prop := ∀ e, x = .error e → ¬e.cls.OutOfRange

theorem InRange.ok (a : α) : InRange (.ok a) := fun _ h ↦ (by cases h)

theorem InRange.error {e : Exn} (h : ¬e.cls.OutOfRange) : InRange (.error e : Except Exn α) :=
  fun _ he ↦ Except.error.inj he ▸ h

theorem InRange.bind {x : Except Exn α} {f : α → Except Exn β} (hx : InRange x)
    (hf : ∀ a, InRange (f a)) : InRange (x >>= f) := by
  intro e h
  rcases except_bind_eq_error.mp h with h | ⟨a, -, h⟩
  · exact hx e h
  · exact hf a e h

theorem InRange.map {x : Except Exn α} (hx : InRange x) (f : α → β) : InRange (x.map f) := by
  cases x with
  | ok a => exact .ok _
  | error e => exact .error (hx e rfl)

theorem inRange_validateInboundPacket {missing : ExnClass} (h : ¬missing.OutOfRange) (raw : Bytes)
    (source : Option Address) : InRange (Protocol.validateInboundPacket missing raw source) := by
  intro e he
  rcases Protocol.validateInboundPacket_error he with hcls | hcls
  · rw [hcls]
    decide
  · rwa [hcls]

theorem inRange_validateSequenceNumber {exn : Exn} (h : ¬exn.cls.OutOfRange) (packet : Packet)
    (n : SequenceNumber) : InRange (Protocol.validateSequenceNumber exn packet n) :=
  fun _ he ↦ (Protocol.validateSequenceNumber_error he).1 ▸ h

theorem inRange_validateAck {exn : Exn} (h : ¬exn.cls.OutOfRange) (packet : Packet) :
    InRange (Protocol.validateAck exn packet) :=
  fun _ he ↦ (Protocol.validateAck_error he).1 ▸ h

theorem inRange_validateNotFin (packet : Packet) : InRange (Protocol.validateNotFin packet) := by
  intro e he
  rw [(Protocol.validateNotFin_error he).1, ExnClass.carrying_cls]
  decide

theorem inRange_getAckNumber (packet : Packet) : InRange packet.getAckNumber := by
  unfold Packet.getAckNumber
  split
  · exact .ok _
  · exact .error (by decide)

theorem inRange_openFileWrite (handler : FileHandler) (disk : Disk) (path : String) :
    InRange (handler.openFileWrite disk path) := by
  unfold FileHandler.openFileWrite
  split
  · exact .error (by decide)
  · split
    · exact .error (by decide)
    · split
      · exact .ok _
      · exact .error (by decide)

theorem inRange_openFileRead (handler : FileHandler) (disk : Disk) (path : String) :
    InRange (handler.openFileRead disk path) := by
  unfold FileHandler.openFileRead
  split
  · exact .error (by decide)
  · split
    · exact .error (by decide)
    · split
      · exact .ok _
      · exact .error (by decide)

/-- The receive and the check of the operation raise nothing of the kind. -/
def Operation.InRange (op : Operation α) : Prop := ∀ e, op.Raises e → ¬e.cls.OutOfRange

theorem Operation.InRange.of_check {op : Operation α}
    (hc : ∀ raw source, Rdt.InRange (op.check raw source))
    (hf : ∀ cls ∈ [ExnClass.connectionLost, .socketShutdown],
      ¬(op.onFailure cls.exn).cls.OutOfRange) : op.InRange := by
  rintro e (⟨raw, source, h⟩ | rfl | rfl)
  · exact hc raw source e h
  · exact hf _ (by simp)
  · exact hf _ (by simp)

theorem Operation.InRange.of_check_id {op : Operation α} (hf : op.onFailure = id)
    (hc : ∀ raw source, Rdt.InRange (op.check raw source)) : op.InRange := by
  refine .of_check hc ?_
  rw [hf]
  decide

abbrev AllInRange (es : List ExnClass) : Prop := ∀ e ∈ es, ¬e.OutOfRange

/-- A stretch of a thread: what it raises is no integer that does not fit, and what it leaves
behind keeps `I`; if nothing is raised it has `P`. -/
def Fits {σ : Type} (I P : σ → Prop) : Except (Exn × σ) σ → Prop
  | .ok c => I c ∧ P c
  | .error (e, c) => ¬e.cls.OutOfRange ∧ I c

variable {σ : Type} {I P Q : σ → Prop} {x : Except (Exn × σ) σ}

theorem Fits.bind {k : σ → Except (Exn × σ) σ} (hx : Fits I P x)
    (hk : ∀ c, I c → P c → Fits I Q (k c)) : Fits I Q (x >>= k) := by
  cases x with
  | ok c => exact hk c hx.1 hx.2
  | error e => exact hx

theorem Fits.mono (hx : Fits I P x) (h : ∀ c, I c → P c → Q c) : Fits I Q x := by
  cases x with
  | ok c => exact ⟨hx.1, h c hx.1 hx.2⟩
  | error e => exact hx

end Raising

/-! ## What the composers take -/

/-- The last number a counter reaches -/
def lastNumber : Nat := maxSequenceNumber + 1

theorem SequenceNumber.step_le (n : SequenceNumber) : n.step.value ≤ lastNumber := by
  unfold SequenceNumber.step
  split
  · exact le_trans (Nat.le_of_lt_succ (stepSaw_lt n.value)) (by decide)
  · exact stepGbn_le n.value

theorem lastNumber_lt : lastNumber < 2 ^ 32 := by decide

/-- The ACK number, if there is one, is a number that a counter reaches. -/
def Counted (raw : Bytes) : Prop := ∀ n ∈ (getPacketFromBytes raw).ackNumber, n ≤ lastNumber

instance (raw : Bytes) : Decidable (Counted raw) :=
  inferInstanceAs (Decidable (∀ n ∈ (getPacketFromBytes raw).ackNumber, n ≤ lastNumber))

/-- The header is in the part that a buffer takes. -/
theorem Counted.take {raw : Bytes} (h : Counted raw) {k : Nat} (hk : gbnProtocolHeaderSize ≤ k) :
    Counted (raw.take k) := by
  unfold Counted
  rw [getPacketFromBytes_take hk]
  exact h

/-- What arrives, if anything, is such a datagram. -/
def Event.Counts (ev : Event) : Prop := ∀ raw source now, ev = .datagram raw source now → Counted raw

namespace Protocol

/-- The payloads whose length has a value in the header are the shorter ones. -/
def payloadLimit : ProtocolType → Nat
  | .stopAndWait => 256 ^ 2
  | .goBackN => 256 ^ 4

theorem le_payloadLimit (protocol : ProtocolType) : 256 ^ 2 ≤ payloadLimit protocol := by
  cases protocol <;> decide

theorem nil_lt_payloadLimit (protocol : ProtocolType) : ([] : Bytes).length < payloadLimit protocol :=
  lt_of_lt_of_le (show _ < 256 ^ 2 by decide) (le_payloadLimit protocol)

theorem toBytes_lt_payloadLimit (protocol : ProtocolType) {w : Nat} (hw : w ≤ 4) (n : Nat) :
    (BigEndian.toBytes w n).length < payloadLimit protocol := by
  rw [BigEndian.length_toBytes]
  exact lt_of_lt_of_le (lt_of_le_of_lt hw (by decide)) (le_payloadLimit protocol)

theorem chunk_lt_payloadLimit (protocol : ProtocolType) {chunk : Bytes}
    (h : chunk.length ≤ fileChunkSizeSaw) : chunk.length < payloadLimit protocol :=
  lt_of_lt_of_le (lt_of_le_of_lt h (by decide)) (le_payloadLimit protocol)

/-- A packet whose numbers and data fit is composed; only its ACK number may be missing. -/
theorem encode_fits {protocol : ProtocolType} {n : SequenceNumber} {ack : Option SequenceNumber}
    (hn : n.value < 2 ^ 32) (hack : ∀ m ∈ ack, m.value ≤ lastNumber) (a s f : Bool)
    (port : UInt16) {data : Bytes} (hdata : data.length < payloadLimit protocol) :
    (∃ raw, encode protocol n ack a s f port data = .ok raw ∧ Counted raw ∧
        raw.length ≤ gbnProtocolHeaderSize + data.length ∧ (getPacketFromBytes raw).data = data) ∨
      protocol = .goBackN ∧ ack = none ∧
        encode protocol n ack a s f port data = .error ExnClass.attributeError.exn := by
  have hport : port.toNat < 2 ^ 16 := port.toNat_lt
  cases protocol with
  | stopAndWait =>
      let p : Packet := ⟨.stopAndWait, n.value, a, s, f, port.toNat, data.length, data, none⟩
      have hlen : p.payloadLength < 2 ^ 16 := hdata
      have hparse := getPacketFromBytes_sawHeader (p := p) hport hlen p.data
      refine .inl ⟨_, composePacketSawForNet_eq_ok (p := p) hport hlen, ?_, ?_, ?_⟩
      · intro m hm
        rw [hparse] at hm
        cases hm
      · rw [List.length_append, length_sawHeader]
        exact Nat.add_le_add_right (by decide) _
      · rw [hparse]
        exact List.take_length
  | goBackN =>
      cases ack with
      | none => exact .inr ⟨rfl, rfl, rfl⟩
      | some m =>
          have hm := hack m rfl
          have hm32 : m.value < 2 ^ 32 := lt_of_le_of_lt hm lastNumber_lt
          let p : Packet := ⟨.goBackN, n.value, a, s, f, port.toNat, data.length, data, some m.value⟩
          have hlen : p.payloadLength < 2 ^ 32 := hdata
          have hparse := getPacketFromBytes_gbnHeader (p := p) hport hlen hn hm32 p.data
          refine .inl ⟨_, composePacketGbnForNet_eq_ok (p := p) rfl hport hlen hn hm32, ?_, ?_, ?_⟩
          · intro k hk
            rw [hparse] at hk
            exact Option.some.inj hk ▸ hm
          · rw [List.length_append, length_gbnHeader]
            exact le_refl _
          · rw [hparse]
            exact List.take_length

/-- A payload whose length has no value in the header is not sent. -/
theorem encode_long {protocol : ProtocolType} {n : SequenceNumber} {ack : Option SequenceNumber}
    (hack : protocol = .goBackN → ack ≠ none) (a s f : Bool) (port : UInt16) {data : Bytes}
    (hdata : payloadLimit protocol ≤ data.length) :
    encode protocol n ack a s f port data = .error ExnClass.structError.exn := by
  cases protocol with
  | stopAndWait =>
      show composePacketSawForNet _ = _
      rw [composePacketSawForNet, structPack_error ⟨(2, data.length), by simp, hdata⟩]
      rfl
  | goBackN =>
      obtain ⟨m, rfl⟩ := Option.ne_none_iff_exists'.mp (hack rfl)
      simp only [encode, buildPacket, composePacket, composePacketGbnForNet, Packet.getAckNumber,
        Except.bind]
      rw [structPack_error ⟨(4, data.length), by simp, hdata⟩]
      rfl

end Protocol

/-- The number that `receive_filesize` reads off a datagram -/
def filesizeIn (raw : Bytes) : Nat :=
  BigEndian.fromBytes (getPacketFromBytes (raw.take commsBufferSize)).data

/-! ## The sender -/

namespace GoBackNSender

/-- A chunk that is read is no longer than one. -/
theorem length_le_of_mem_readChunks {n : Nat} {file : File} {chunk : Bytes}
    (h : chunk ∈ (readChunks n file).1) : chunk.length ≤ fileChunkSizeGbn := by
  induction n generalizing file with
  | zero => cases h
  | succ n ih =>
      have hread : (FileHandler.read file fileChunkSizeGbn).1.length ≤ fileChunkSizeGbn := by
        rw [FileHandler.read, List.length_take]
        exact min_le_left _ _
      simp only [readChunks] at h
      split at h
      · rcases List.mem_cons.mp h with rfl | h
        · exact hread
        · exact ih h
      · exact ih h

theorem content_readChunks (n : Nat) (file : File) :
    (readChunks n file).2.content = file.content := by
  induction n generalizing file with
  | zero => rfl
  | succ n ih => exact ih (FileHandler.read file fileChunkSizeGbn).2

/-- The numbers of a sender: `base` and `next_seq_num` follow the ACK numbers received, which are
numbers of a counter. -/
structure Bounded (s : GoBackNSender) : Prop where
  base : s.base ≤ s.ackNumber.value + 1
  ackNumber : s.ackNumber.value ≤ lastNumber
  nextSeqNum : s.nextSeqNum.value ≤ lastNumber + 1
  offset : s.offsetInitialSeqNumber.value ≤ lastNumber
  chunks : ∀ chunk ∈ s.chunks, chunk.length ≤ fileChunkSizeGbn
  lastRawPacket : ∀ raw ∈ s.lastRawPacket, Counted raw
  packet : ∀ raw, s.point = .sendPacketsInWindow (some raw) → Counted raw

/-- How `send_file` goes on with a bounded sender -/
def Result.Bounded : Result → Prop
  | .running s sent => s.Bounded ∧ ∀ raw ∈ sent, Counted raw
  | .returned s => s.Bounded
  | .raised e => ¬e.cls.OutOfRange

/-- What `wait_for_ack` hands over, or raises an exception with -/
structure Heard (received : Except Exn Packet) : Prop where
  inRange : InRange received
  ackNumber : ∀ packet, (received = .ok packet ∨ ∃ cls, received = .error ⟨cls, some packet⟩) →
    ∀ n, packet.getAckNumber = .ok n → n ≤ lastNumber

variable {s : GoBackNSender}

theorem bounded_initClient (n ack : SequenceNumber) {chunks : List Bytes}
    (h : ∀ chunk ∈ chunks, chunk.length ≤ fileChunkSizeGbn) : (initClient n ack chunks).Bounded :=
  ⟨Nat.zero_le _, ack.step_le, Nat.zero_le _, n.step_le, h, fun _ hr ↦ (by cases hr),
    fun _ hp ↦ (by cases hp)⟩

theorem bounded_initServer {n : SequenceNumber} (hn : n.value ≤ lastNumber) (ack : SequenceNumber)
    {chunks : List Bytes} (h : ∀ chunk ∈ chunks, chunk.length ≤ fileChunkSizeGbn) :
    (initServer n ack chunks).Bounded :=
  ⟨Nat.le_add_left _ _, ack.step_le, Nat.le_add_left _ _, hn, h, fun _ hr ↦ (by cases hr),
    fun _ hp ↦ (by cases hp)⟩

theorem Heard.of_error {e : Exn} (h : ¬e.cls.OutOfRange) (he : e.packet = none) :
    Heard (.error e) := by
  refine ⟨.error h, ?_⟩
  rintro packet (heq | ⟨cls, heq⟩)
  · cases heq
  · rw [Except.error.inj heq] at he
    cases he

/-- The packet is the one that was parsed. -/
theorem Heard.of_parsed {received : Except Exn Packet} {raw : Bytes} (hraw : Counted raw)
    (h : InRange received)
    (hp : ∀ packet, (received = .ok packet ∨ ∃ cls, received = .error ⟨cls, some packet⟩) →
      packet = getPacketFromBytes raw) : Heard received := by
  refine ⟨h, fun packet hr n hn ↦ hraw n ?_⟩
  obtain rfl := hp packet hr
  unfold Packet.getAckNumber at hn
  split at hn
  · rename_i m hm
    rwa [Except.ok.inj hn] at hm
  · cases hn

theorem Bounded.loop (h : s.Bounded) (isLastChunkAcked : Bool) :
    (s.loop isLastChunkAcked).Bounded := by
  unfold GoBackNSender.loop
  split
  · refine ⟨⟨h.base, h.ackNumber, h.nextSeqNum, h.offset, h.chunks, h.lastRawPacket, ?_⟩, ?_⟩
    · intro raw hp
      cases hp
    · intro raw hr
      cases hr
  · exact h

/-- The sum of two counters fits, the more so the length of a chunk. -/
theorem Bounded.compose (h : s.Bounded) (port : UInt16) :
    ∃ raw, composePacketGbnForNet (s.chunkPacket port) = .ok raw ∧ Counted raw := by
  have hlast : lastNumber = 2000000001 := rfl
  have hnext := h.nextSeqNum
  have hoffset := h.offset
  have hseq : (s.chunkPacket port).sequenceNumber < 2 ^ 32 := by
    show s.nextSeqNum.value + s.offsetInitialSeqNumber.value < 2 ^ 32
    omega
  have hchunk : (s.chunks.getD s.nextSeqNum.value []).length ≤ fileChunkSizeGbn := by
    rw [List.getD_eq_getElem?_getD]
    cases hc : s.chunks[s.nextSeqNum.value]? with
    | none => exact Nat.zero_le _
    | some chunk => exact h.chunks chunk (List.mem_of_getElem? hc)
  have hlen : (s.chunkPacket port).payloadLength < 2 ^ 32 := lt_of_le_of_lt hchunk (by decide)
  have hack : s.ackNumber.value < 2 ^ 32 := lt_of_le_of_lt h.ackNumber lastNumber_lt
  refine ⟨_, composePacketGbnForNet_eq_ok rfl port.toNat_lt hlen hseq hack, ?_⟩
  intro n hn
  rw [getPacketFromBytes_gbnHeader (p := s.chunkPacket port) port.toNat_lt hlen hseq hack] at hn
  exact Option.some.inj hn ▸ h.ackNumber

theorem Bounded.sendPacketsInWindow (h : s.Bounded) {packet : Option Bytes}
    (hp : ∀ raw ∈ packet, Counted raw) (port : UInt16) :
    (s.sendPacketsInWindow packet port).Bounded := by
  unfold GoBackNSender.sendPacketsInWindow
  split
  · obtain ⟨raw, hok, hcounted⟩ := h.compose port
    rw [hok]
    refine ⟨⟨h.base, h.ackNumber, Nat.le_succ_of_le s.nextSeqNum.step_le, h.offset, h.chunks,
      h.lastRawPacket, ?_⟩, ?_⟩
    · intro raw' hp'
      cases hp'
      exact hcounted
    · intro raw' hr
      exact Option.some.inj hr ▸ hcounted
  · refine ⟨⟨h.base, h.ackNumber, h.nextSeqNum, h.offset, h.chunks, hp, ?_⟩, ?_⟩
    · intro raw hp'
      cases hp'
    · intro raw hr
      cases hr

theorem Bounded.proceed (h : s.Bounded) (port : UInt16) (now : Time) :
    (s.proceed port now).Bounded := by
  unfold GoBackNSender.proceed
  split
  · rename_i packet hpoint
    refine h.sendPacketsInWindow ?_ port
    intro raw hr
    exact h.packet raw (by rw [hpoint, Option.mem_def.mp hr])
  · split
    · exact h.loop true
    · refine ⟨⟨h.base, h.ackNumber, h.nextSeqNum, h.offset, h.chunks, h.lastRawPacket, ?_⟩, ?_⟩
      · intro raw hp
        cases hp
      · intro raw hr
        cases hr
  · refine ⟨h, ?_⟩
    intro raw hr
    cases hr

theorem Bounded.retransmissionNeeded (h : s.Bounded) : s.retransmissionNeeded.Bounded := by
  have hreset : s.resetWindow.Bounded :=
    ⟨h.base, h.ackNumber, le_trans h.base (Nat.add_le_add_right h.ackNumber 1), h.offset, h.chunks,
      h.lastRawPacket, h.packet⟩
  exact hreset.loop false

theorem Bounded.accumulate (h : s.Bounded) (d : Time) (isLastChunkAcked : Bool) :
    (s.accumulate d isLastChunkAcked).Bounded := by
  have hspent : { s with spentInReception := s.spentInReception + d }.Bounded :=
    ⟨h.base, h.ackNumber, h.nextSeqNum, h.offset, h.chunks, h.lastRawPacket, h.packet⟩
  unfold GoBackNSender.accumulate
  dsimp only
  split
  · exact hspent.retransmissionNeeded
  · exact hspent.loop isLastChunkAcked

theorem Bounded.acknowledge (h : s.Bounded) {n : Nat} (hle : s.ackNumber.value ≤ n)
    (hn : n ≤ lastNumber) : (s.acknowledge n).Bounded := by
  have hbase := h.base
  refine ⟨?_, hn, h.nextSeqNum, h.offset, h.chunks, h.lastRawPacket, h.packet⟩
  show s.base + (n - s.ackNumber.value) ≤ n + 1
  omega

/-- A bare FIN is noted. -/
theorem Bounded.finBack (h : s.Bounded) (b : Bool) :
    { s with alreadyReceivedFinBack := b }.Bounded :=
  ⟨h.base, h.ackNumber, h.nextSeqNum, h.offset, h.chunks, h.lastRawPacket, h.packet⟩

theorem Bounded.answered (h : s.Bounded) {n : Nat} (hn : n ≤ lastNumber) (isLastChunkAcked : Bool)
    {otherwise : Result} (ho : otherwise.Bounded) :
    (if s.ackNumber.value ≤ n then (s.acknowledge n).loop isLastChunkAcked else otherwise).Bounded := by
  split
  · rename_i hle
    exact (h.acknowledge hle hn).loop isLastChunkAcked
  · exact ho

theorem Bounded.awaitAckPhaseClient (h : s.Bounded) {received : Except Exn Packet}
    (hr : Heard received) (d : Time) : (s.awaitAckPhaseClient received d).Bounded := by
  unfold GoBackNSender.awaitAckPhaseClient
  dsimp only
  split
  · rename_i packet
    cases hn : packet.getAckNumber with
    | error e => exact inRange_getAckNumber packet e hn
    | ok n => exact h.answered (hr.ackNumber packet (.inl rfl) n hn) _ (h.accumulate d _)
  · rename_i packet
    split
    · cases hn : packet.getAckNumber with
      | error e => exact inRange_getAckNumber packet e hn
      | ok n =>
          exact (h.finBack true).answered (hr.ackNumber packet (.inr ⟨_, rfl⟩) n hn) _
            ((h.finBack true).accumulate d _)
    · cases hn : packet.getAckNumber with
      | error e => exact inRange_getAckNumber packet e hn
      | ok n => exact h.answered (hr.ackNumber packet (.inr ⟨_, rfl⟩) n hn) _ (h.accumulate d _)
  · split
    · exact h.retransmissionNeeded
    · exact hr.inRange _ rfl

theorem Bounded.awaitAckPhaseServer (h : s.Bounded) {received : Except Exn Packet}
    (hr : Heard received) (d : Time) : (s.awaitAckPhaseServer received d).Bounded := by
  unfold GoBackNSender.awaitAckPhaseServer
  dsimp only
  split
  · rename_i packet
    cases hn : packet.getAckNumber with
    | error e => exact inRange_getAckNumber packet e hn
    | ok n => exact h.answered (hr.ackNumber packet (.inl rfl) n hn) _ (h.accumulate d false)
  · rename_i packet
    cases hn : packet.getAckNumber with
    | error e => exact inRange_getAckNumber packet e hn
    | ok n =>
        have hunbound : (Result.raised ExnClass.unboundLocalError.exn).Bounded := by
          show ¬ExnClass.unboundLocalError.OutOfRange
          decide
        exact (h.finBack (s.alreadyReceivedFinBack || isFinBack packet)).answered
          (hr.ackNumber packet (.inr ⟨_, rfl⟩) n hn) _ hunbound
  · split
    · exact h.accumulate d false
    · split
      · exact h.retransmissionNeeded
      · exact hr.inRange _ rfl

theorem Bounded.returned (h : s.Bounded) : s.returnedSequenceNumber.value < 2 ^ 32 := by
  have hlast : lastNumber = 2000000001 := rfl
  have hnext := h.nextSeqNum
  have hoffset := h.offset
  show s.nextSeqNum.value + s.offsetInitialSeqNumber.value - 1 < 2 ^ 32
  omega

end GoBackNSender

/-! ## The receiver -/

namespace GoBackNReceiver

/-- The numbers of a receiver, and what it resends -/
structure Bounded (r : GoBackNReceiver) : Prop where
  sqnNumber : r.sqnNumber.value < 2 ^ 32
  ackNumber : r.ackNumber.value ≤ lastNumber
  lastTransmittedPacket : ∀ raw ∈ r.lastTransmittedPacket, Counted raw

variable {r : GoBackNReceiver}

theorem Bounded.step (h : r.Bounded) (point : ReceiverPoint) : { r.step with point }.Bounded :=
  ⟨lt_of_le_of_lt r.sqnNumber.step_le lastNumber_lt, r.ackNumber.step_le, h.lastTransmittedPacket⟩

/-- A packet leaves the numbers alone, or steps both. -/
theorem Bounded.onPacket (h : r.Bounded) (packet : Packet) : (r.onPacket packet).receiver.Bounded := by
  unfold GoBackNReceiver.onPacket
  split
  · unfold onFirstPacket
    split
    · exact h.step .receiveLoop
    · exact h
  · unfold onLoopPacket
    split
    · dsimp only
      split
      · exact h
      · exact h.step r.point
    · exact h

/-- Every ACK has the numbers the receiver had. -/
theorem replies_onPacket (r : GoBackNReceiver) (packet : Packet) :
    ∀ reply ∈ (r.onPacket packet).replies,
      reply = .sendAck r.sqnNumber r.ackNumber ∨ reply = .resendLast := by
  have hchunk : ∀ reply ∈ r.chunkReplies packet, reply = .sendAck r.sqnNumber r.ackNumber := by
    unfold chunkReplies
    intro reply hr
    split at hr
    · exact List.mem_singleton.mp hr
    · cases hr
  intro reply hr
  unfold onPacket at hr
  split at hr
  · unfold onFirstPacket at hr
    split at hr
    · exact .inl (hchunk reply hr)
    · rcases List.mem_append.mp hr with hr | hr
      · exact .inl (hchunk reply hr)
      · exact .inr (List.mem_singleton.mp hr)
  · unfold onLoopPacket at hr
    split at hr
    · exact .inl (hchunk reply hr)
    · exact .inl (List.mem_singleton.mp hr)

end GoBackNReceiver

end Rdt
