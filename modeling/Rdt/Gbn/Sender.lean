import Rdt.Gbn.Wire
import Rdt.Server.Protocol
import Rdt.Client.Protocol

/-! # `GoBackNSender` follows the window of the sliding window -/

namespace Rdt.Gbn

open PacketParser SlidingWindow

/-- A packet kept for later retransmission is a chunk of the window. -/
def Kept (P : Transfer UInt8) (base : Nat) (packet : Option Bytes) : Prop :=
  ∀ raw ∈ packet, ∃ i, i < base + P.window ∧ i < P.total ∧ toData raw = some (P.chunk i)

theorem Kept.mono {P : Transfer UInt8} {base base' : Nat} {packet : Option Bytes}
    (h : Kept P base packet) (hb : base ≤ base') : Kept P base' packet := by
  intro raw hraw
  obtain ⟨i, hi, hn, hd⟩ := h raw hraw
  exact ⟨i, by omega, hn, hd⟩

def phaseOf : SenderPoint → SenderPhase
  | .sendPacketsInWindow _ => .window
  | .awaitAckPhase => .await
  | .waitForAck _ => .blocked

/-- The packet `send_packets_in_window` has sent last. -/
def lastPacket (g : GoBackNSender) : Option Bytes :=
  match g.point with
  | .sendPacketsInWindow packet => packet
  | _ => g.lastRawPacket

/-- The fields of a `GoBackNSender` that the window is read off. -/
structure Fields (P : Transfer UInt8) (g : GoBackNSender) (s : Sender) : Prop where
  base : g.base = s.base
  next : g.nextSeqNum = ⟨s.next, .goBackN⟩
  ack : g.ackNumber.value = P.offset + s.base
  offset : g.offsetInitialSeqNumber.value = P.offset
  chunks : g.chunks = P.chunks

/-- A sender in `send_file` and its window. -/
structure Tracks (P : Transfer UInt8) (g : GoBackNSender) (s : Sender) : Prop
    extends Fields P g s where
  fresh : g.alreadyReceivedFinBack = false
  kept : Kept P s.base (lastPacket g)
  phase : s.phase = phaseOf g.point

/-- How `send_file` may return: with the last chunk sent, or acknowledged if it `stops` on
that, or told by a bare FIN that all is done; then its caller goes on sending at once. -/
inductive Returns (P : Transfer UInt8) (stops : Bool) (s : Sender) (i : Option (Option Reply))
    (g : GoBackNSender) : Prop
  | done {s' : Sender} (early : Bool) (he : early = true → stops = true)
      (hs : Sender.Step P s i s' []) (hp : s'.phase = .closing early)
      (hr : s'.reported = s.reported) (hf : Fields P g s')
      (hk : Kept P s'.base g.lastRawPacket) (hfin : g.alreadyReceivedFinBack = false)
  | told {s' : Sender} (hs : ∀ reported outs,
        (∀ o ∈ outs, Sender.Says P { s' with reported } o) →
          Sender.Step P s i { s' with reported } outs)
      (hp : s'.phase = .closing false) (hf : Fields P g s') (hk : Kept P s'.base g.lastRawPacket)
      (hfin : g.alreadyReceivedFinBack = true)

/-- The exceptions that get out of `send_file`. -/
def senderRaises : List ExnClass :=
  [.socketShutdown, .missingServerAddress, .missingClientAddress, .messageIsNotAck,
    .attributeError, .structError, .unboundLocalError]

/-- What a step of `send_file` is to the window. -/
inductive Follows (P : Transfer UInt8) (stops : Bool) (s : Sender)
    (i : Option (Option Reply)) : GoBackNSender.Result → Prop
  | running {g : GoBackNSender} {s' : Sender} {sent : Option Bytes}
      (hs : Sender.Step P s i s' (sent.map toData).toList) (hr : s'.reported = s.reported)
      (h : Tracks P g s') : Follows P stops s i (.running g sent)
  | returned {g : GoBackNSender} (h : Returns P stops s i g) : Follows P stops s i (.returned g)
  | raised {e : Exn} (h : e.cls ∈ senderRaises) : Follows P stops s i (.raised e)
  | chaos {r : GoBackNSender.Result}
      (hs : ∀ outs, Sender.Step P s i { s with phase := .chaos } outs) : Follows P stops s i r

variable {content : Bytes} {first offset : Nat} {stops : Bool} {g : GoBackNSender} {s : Sender}

theorem Fields.totalChunks {P : Transfer UInt8} (h : Fields P g s) : g.totalChunks = P.total := by
  rw [GoBackNSender.totalChunks, h.chunks, Transfer.total]

/-! ## Sending -/

theorem Tracks.sendPacketsInWindow (h : Tracks (transfer content first offset) g s)
    {packet : Option Bytes} (hg : g.point = .sendPacketsInWindow packet) (port : UInt16) :
    Follows (transfer content first offset) stops s none (g.sendPacketsInWindow packet port) := by
  have hp : s.phase = .window := by rw [h.phase, hg, phaseOf]
  have hkept : Kept (transfer content first offset) s.base packet := by
    have := h.kept
    rwa [lastPacket, hg] at this
  have htotal := h.totalChunks
  unfold GoBackNSender.sendPacketsInWindow
  split
  · rename_i hcond
    rw [h.next, h.base, htotal] at hcond
    cases hok : composePacketGbnForNet (g.chunkPacket port) with
    | ok raw =>
        have hdata := of_chunkPacket h.chunks h.offset hok
        rw [h.next] at hdata
        let s' : Sender := { s with next := SequenceNumber.stepGbn s.next }
        refine .running ?_ (rfl : s'.reported = s.reported) ?_
        · simp only [Option.map_some, Option.toList_some, hdata]
          exact .send hp hcond.1 hcond.2
        · refine ⟨⟨h.base, ?_, h.ack, h.offset, h.chunks⟩, h.fresh, ?_, hp⟩
          · rw [h.next]
            rfl
          · rintro _ ⟨⟩
            exact ⟨s.next, hcond.1, hcond.2, hdata⟩
    | error e =>
        rcases composePacketGbnForNet_cases (g.chunkPacket port) rfl with ⟨-, -, -, -, hok'⟩ | herr
        · rw [hok'] at hok
          cases hok
        · rw [herr] at hok
          cases hok
          exact .raised (by decide)
  · rename_i hcond
    rw [h.next, h.base, htotal] at hcond
    exact .running (.await hp hcond) rfl
      ⟨⟨h.base, h.next, h.ack, h.offset, h.chunks⟩, h.fresh, hkept, rfl⟩

/-- The loop of `send_file` goes on below its first condition. -/
theorem loop_eq (g : GoBackNSender) (acked : Bool) :
    g.loop acked = if g.base < g.totalChunks ∧ acked = false then
      .running { g with point := .sendPacketsInWindow none } none else .returned g := by
  simp [GoBackNSender.loop]

theorem Tracks.proceed (h : Tracks (transfer content first offset) g s) (port : UInt16)
    (now : Time) : Follows (transfer content first offset) stops s none (g.proceed port now) := by
  cases hg : g.point with
  | sendPacketsInWindow packet =>
      simp only [GoBackNSender.proceed, hg]
      exact h.sendPacketsInWindow hg port
  | awaitAckPhase =>
      have hp : s.phase = .await := by rw [h.phase, hg, phaseOf]
      have hkept := h.kept
      rw [lastPacket, hg] at hkept
      simp only [GoBackNSender.proceed, hg, h.base, h.totalChunks]
      split
      · rename_i hb
        rw [loop_eq, if_neg (by simp)]
        exact .returned (.done false nofun (.complete hp hb) rfl
          rfl ⟨h.base, h.next, h.ack, h.offset, h.chunks⟩ hkept h.fresh)
      · rename_i hb
        exact .running (.block hp hb) rfl
          ⟨⟨rfl, h.next, h.ack, h.offset, h.chunks⟩, h.fresh, hkept, rfl⟩
  | waitForAck t =>
      simp only [GoBackNSender.proceed, hg]
      exact .running (.stutter s none) rfl h

/-! ## The answer of `wait_for_ack` -/

/-- The window reset of `send_file` -/
theorem Fields.retransmissionNeeded (h : Fields (transfer content first offset) g s)
    (hfresh : g.alreadyReceivedFinBack = false) (hp : s.phase = .blocked)
    {i : Option (Option Reply)} {s' : Sender} (hbase : s'.base = s.base) (hnext : s'.next = s.base)
    (hphase : s'.phase = .window) (hreported : s'.reported = s.reported)
    (hstep : Sender.Step (transfer content first offset) s i s' []) :
    Follows (transfer content first offset) stops s i g.retransmissionNeeded := by
  unfold GoBackNSender.retransmissionNeeded
  rw [loop_eq]
  split
  · refine .running hstep hreported ⟨⟨?_, ?_, ?_, h.offset, h.chunks⟩, hfresh, nofun, hphase⟩
    · rw [hbase]
      exact h.base
    · simp [GoBackNSender.resetWindow, h.next, h.base, hnext]
    · rw [hbase]
      exact h.ack
  · rename_i hcond
    have htotal := h.totalChunks
    refine .chaos (.overshoot i hp (.inl ?_))
    have hge : ¬g.base < g.totalChunks := fun hlt ↦ hcond ⟨hlt, rfl⟩
    rw [h.base, htotal] at hge
    omega

theorem Fields.acknowledge (h : Fields (transfer content first offset) g s) {r : Reply}
    (hr : offset + s.base ≤ r.ack) {s' : Sender}
    (hb : s'.base = s.advance (transfer content first offset) r) (hn : s'.next = s.next) :
    Fields (transfer content first offset) (g.acknowledge r.ack) s' := by
  have hadv : s.advance (transfer content first offset) r = r.ack - offset := if_pos hr
  have hack : g.ackNumber.value = offset + s.base := h.ack
  refine ⟨?_, ?_, ?_, h.offset, h.chunks⟩
  · simp only [GoBackNSender.acknowledge, h.base, hack, hb, hadv]
    omega
  · rw [hn]
    exact h.next
  · show r.ack = offset + s'.base
    omega

theorem Fields.acknowledge_base (h : Fields (transfer content first offset) g s) {r : Reply}
    (hr : offset + s.base ≤ r.ack) :
    (g.acknowledge r.ack).base = s.advance (transfer content first offset) r := by
  have hf : Fields (transfer content first offset) (g.acknowledge r.ack)
      { s with base := s.advance (transfer content first offset) r } := h.acknowledge hr rfl rfl
  exact hf.base

/-- A new ACK moves the window. -/
theorem Tracks.acknowledge (h : Tracks (transfer content first offset) g s)
    (hp : s.phase = .blocked) (hk : Kept (transfer content first offset) s.base g.lastRawPacket)
    {r : Reply} (hr : offset + s.base ≤ r.ack) (acked : Bool) (hstops : acked = true → stops = true)
    (hacked : acked = true → s.advance (transfer content first offset) r + 1 =
      (transfer content first offset).total) :
    Follows (transfer content first offset) stops s (some (some r)) ((g.acknowledge r.ack).loop acked) := by
  rw [loop_eq]
  split
  · let s' : Sender := { s with base := s.advance (transfer content first offset) r, phase := .window }
    have hf : Fields (transfer content first offset) (g.acknowledge r.ack) s' :=
      h.toFields.acknowledge hr rfl rfl
    exact .running (.answer r hp) rfl
      ⟨⟨hf.base, hf.next, hf.ack, hf.offset, hf.chunks⟩, h.fresh, nofun, rfl⟩
  · rename_i hcond
    have hf : Fields (transfer content first offset) (g.acknowledge r.ack)
        { s with base := s.advance (transfer content first offset) r, phase := .closing true } :=
      h.toFields.acknowledge hr rfl rfl
    rw [hf.base, hf.totalChunks] at hcond
    cases acked with
    | true =>
        exact .returned (.done true (fun _ ↦ hstops rfl) (.stop r hp (hacked rfl)) rfl rfl hf
          (hk.mono (s.le_advance r)) h.fresh)
    | false => exact .chaos (.overshoot _ hp (.inr ⟨r, rfl, by simpa using hcond⟩))

/-- An old ACK only costs time. -/
theorem Tracks.accumulate (h : Tracks (transfer content first offset) g s)
    (hp : s.phase = .blocked) {r : Reply} (hr : r.ack < offset + s.base) (d : Time) :
    Follows (transfer content first offset) stops s (some (some r)) (g.accumulate d false) := by
  have hadv : s.advance (transfer content first offset) r = s.base := if_neg (by
    show ¬(offset + s.base ≤ r.ack)
    omega)
  unfold GoBackNSender.accumulate
  dsimp only
  split
  · have hf : Fields (transfer content first offset)
        { g with spentInReception := g.spentInReception + d } s :=
      ⟨h.base, h.next, h.ack, h.offset, h.chunks⟩
    let s' : Sender := { s with
      base := s.advance (transfer content first offset) r
      next := s.advance (transfer content first offset) r
      phase := .window }
    have hbase : s'.base = s.base := hadv
    exact hf.retransmissionNeeded h.fresh hp hbase hadv rfl rfl (.again r hp)
  · rw [loop_eq]
    split
    · let s' : Sender := { s with base := s.advance (transfer content first offset) r, phase := .window }
      have hs' : s'.base = s.base := hadv
      exact .running (.answer r hp) rfl
        ⟨⟨hs' ▸ h.base, h.next, hs' ▸ h.ack, h.offset, h.chunks⟩, h.fresh, nofun, rfl⟩
    · rename_i hcond
      refine .chaos (.overshoot _ hp (.inl ?_))
      have hge : ¬g.base < g.totalChunks := fun hlt ↦ hcond ⟨hlt, rfl⟩
      rw [h.base, h.totalChunks] at hge
      omega

/-- A bare FIN ends the transfer, if it names the last chunk. -/
theorem Tracks.finBack (h : Tracks (transfer content first offset) g s)
    (hp : s.phase = .blocked) (hk : Kept (transfer content first offset) s.base g.lastRawPacket)
    {r : Reply} (hbare : r.bare = true) (hr : offset + s.base ≤ r.ack) (acked : Bool)
    (hacked : r.ack + 1 = offset + (transfer content first offset).total → acked = true) :
    Follows (transfer content first offset) stops s (some (some r))
      ((({ g with alreadyReceivedFinBack := true } : GoBackNSender).acknowledge r.ack).loop acked) := by
  by_cases hlast : r.ack + 1 = offset + (transfer content first offset).total
  · rw [hacked hlast, loop_eq, if_neg (by simp)]
    have hf : Fields (transfer content first offset)
        { g with alreadyReceivedFinBack := true } s :=
      ⟨h.base, h.next, h.ack, h.offset, h.chunks⟩
    let s' : Sender :=
      { s with base := s.advance (transfer content first offset) r, phase := .closing false }
    have hs : ∀ reported outs, (∀ o ∈ outs, Sender.Says (transfer content first offset)
        { s' with reported } o) → Sender.Step (transfer content first offset) s (some (some r))
          { s' with reported } outs :=
      fun reported outs houts ↦ .told r reported hp hbare houts
    exact .returned (.told hs rfl (hf.acknowledge hr rfl rfl) (hk.mono (s.le_advance r)) rfl)
  · exact .chaos (.lie s r ⟨hbare, hlast⟩)

/-- A bare FIN never names a chunk below the window. -/
theorem follows_staleFin (hp : s.phase = .blocked) {r : Reply} (hbare : r.bare = true)
    (hr : r.ack < offset + s.base)
    (result : GoBackNSender.Result) :
    Follows (transfer content first offset) stops s (some (some r)) result := by
  by_cases hlast : r.ack + 1 = offset + (transfer content first offset).total
  · exact .chaos (.overshoot _ hp (.inl (by omega)))
  · exact .chaos (.lie s r ⟨hbare, hlast⟩)

theorem take_comms_eq_nil {raw : Bytes} : raw.take commsBufferSize = [] ↔ raw = [] := by
  simp [List.take_eq_nil_iff, commsBufferSize]

theorem Tracks.timeoutStep (h : Tracks (transfer content first offset) g s)
    (hp : s.phase = .blocked) :
    Follows (transfer content first offset) stops s none g.retransmissionNeeded := by
  let s' : Sender := { s with next := s.base, phase := .window }
  exact h.toFields.retransmissionNeeded h.fresh hp (rfl : s'.base = s.base) rfl rfl rfl
    (.timeout hp)

/-! ### The client -/

theorem clientWaitForAck (raw : Bytes) (peer : Address) :
    ClientProtocolGbn.waitForAck raw (some peer) =
      if raw = [] then .error ExnClass.socketShutdown.exn
      else if (getPacketFromBytes raw).isFin then
        .error (ExnClass.unexpectedFinMessage.carrying (getPacketFromBytes raw))
      else .ok (getPacketFromBytes raw) := by
  by_cases hraw : raw = []
  · subst hraw
    rfl
  · have hlen : raw.length ≠ 0 := fun hl ↦ hraw (List.length_eq_zero_iff.mp hl)
    cases hfin : (getPacketFromBytes raw).isFin <;>
      simp [ClientProtocolGbn.waitForAck, ClientProtocolGbn.validateInboundPacket,
        Protocol.validateInboundPacket, Protocol.validateNotFin, hraw, hfin, bind, Except.bind, pure,
        Except.pure]

theorem Tracks.awaitAckPhaseClient (h : Tracks (transfer content first offset) g s) {t : Time}
    (hg : g.point = .waitForAck t) (raw : Bytes) (peer : Address) (d : Time) :
    Follows (transfer content first offset) stops s (some (toReply raw))
      (g.awaitAckPhaseClient
        (ClientProtocolGbn.waitForAck (raw.take commsBufferSize) (some peer)) d) := by
  have hp : s.phase = .blocked := by rw [h.phase, hg, phaseOf]
  have hk : Kept (transfer content first offset) s.base g.lastRawPacket := by
    have := h.kept
    rwa [lastPacket, hg] at this
  have hack : g.ackNumber.value = offset + s.base := h.ack
  rw [clientWaitForAck]
  by_cases hraw : raw = []
  · rw [if_pos (take_comms_eq_nil.mpr hraw)]
    exact .raised (by decide)
  rw [if_neg (mt take_comms_eq_nil.mp hraw), toReply, if_neg hraw]
  dsimp only
  generalize getPacketFromBytes (raw.take commsBufferSize) = packet
  cases hn : packet.ackNumber with
  | none =>
      cases hfin : packet.isFin <;> cases hisAck : packet.isAck <;>
        simpa [GoBackNSender.awaitAckPhaseClient, Packet.getAckNumber, hn, ExnClass.carrying,
          GoBackNSender.isFinBack, hfin, hisAck] using
          Follows.raised (e := ExnClass.attributeError.exn) (by decide)
  | some n =>
      cases hbare : GoBackNSender.isFinBack packet with
      | true =>
          have hfin : packet.isFin = true := by
            simp only [GoBackNSender.isFinBack, Bool.and_eq_true] at hbare
            exact hbare.2
          have hrun : g.awaitAckPhaseClient
              (.error (ExnClass.unexpectedFinMessage.carrying packet)) d =
                if g.ackNumber.value ≤ n then
                  (({ g with alreadyReceivedFinBack := true } : GoBackNSender).acknowledge n).loop true
                else ({ g with alreadyReceivedFinBack := true } : GoBackNSender).accumulate d true := by
            simp [GoBackNSender.awaitAckPhaseClient, Packet.getAckNumber, hn, ExnClass.carrying, hbare]
          simp only [hfin, if_true, Option.map_some, hrun]
          split
          · rename_i hle
            exact h.finBack hp hk (r := ⟨packet.sequenceNumber, n, true⟩) rfl (hack ▸ hle) true fun _ ↦ rfl
          · rename_i hlt
            rw [hack] at hlt
            exact follows_staleFin hp (r := ⟨packet.sequenceNumber, n, true⟩) rfl (Nat.lt_of_not_le hlt) _
      | false =>
          have hrun : g.awaitAckPhaseClient (if packet.isFin then
              .error (ExnClass.unexpectedFinMessage.carrying packet) else .ok packet) d =
                if g.ackNumber.value ≤ n then (g.acknowledge n).loop false
                else g.accumulate d false := by
            cases hfin : packet.isFin <;>
              simp [GoBackNSender.awaitAckPhaseClient, Packet.getAckNumber, hn, ExnClass.carrying,
                hbare]
          simp only [hrun, Option.map_some]
          split
          · rename_i hle
            exact h.acknowledge hp hk (r := ⟨packet.sequenceNumber, n, false⟩) (hack ▸ hle) false
              (fun h ↦ absurd h Bool.false_ne_true) fun h ↦ absurd h Bool.false_ne_true
          · rename_i hlt
            rw [hack] at hlt
            exact h.accumulate hp (r := ⟨packet.sequenceNumber, n, false⟩) (Nat.lt_of_not_le hlt) d

/-! ### The server -/

theorem serverWaitForAck (ackNumber : SequenceNumber) {raw : Bytes} (hraw : raw ≠ [])
    (peer : Address) :
    ServerProtocolGbn.waitForAck ackNumber raw (some peer) =
      let packet := getPacketFromBytes raw
      if packet.isAck then
        match packet.ackNumber with
        | none => .error ExnClass.attributeError.exn
        | some n =>
            if ackNumber.value ≤ n then
              if packet.isFin then .error (ExnClass.unexpectedFinMessage.carrying packet)
              else .ok packet
            else .error ExnClass.invalidAckNumber.exn
      else if packet.isFin then .error (ExnClass.unexpectedFinMessage.carrying packet)
      else .error (ExnClass.messageIsNotAck.carrying packet) := by
  have hlen : raw.length ≠ 0 := fun hl ↦ hraw (List.length_eq_zero_iff.mp hl)
  simp only [ServerProtocolGbn.waitForAck, ServerProtocolGbn.validateInboundAck,
    ServerProtocolGbn.validateInboundPacket, Protocol.validateInboundPacket, if_neg hlen, bind,
    Except.bind, pure, Except.pure, Protocol.validateAck, ServerProtocolGbn.validateAckNumber,
    Packet.getAckNumber, Protocol.validateNotFin]
  generalize getPacketFromBytes raw = packet
  cases packet.isAck with
  | false => cases hfin : packet.isFin <;> simp [ExnClass.carrying, hfin]
  | true =>
      cases packet.ackNumber with
      | none => simp [ExnClass.exn]
      | some n =>
          by_cases hle : ackNumber.value ≤ n <;> cases hfin : packet.isFin <;>
            simp [hle, hfin, ExnClass.exn, ExnClass.carrying]

theorem Tracks.awaitAckPhaseServer (h : Tracks (transfer content first offset) g s) {t : Time}
    (hg : g.point = .waitForAck t) (raw : Bytes) (peer : Address) (d : Time) :
    Follows (transfer content first offset) true s (some (toReply raw))
      (g.awaitAckPhaseServer
        (ServerProtocolGbn.waitForAck g.ackNumber (raw.take commsBufferSize) (some peer)) d) := by
  have hp : s.phase = .blocked := by rw [h.phase, hg, phaseOf]
  have hk : Kept (transfer content first offset) s.base g.lastRawPacket := by
    have := h.kept
    rwa [lastPacket, hg] at this
  have hack : g.ackNumber.value = offset + s.base := h.ack
  by_cases hraw : raw = []
  · subst hraw
    exact .raised (by decide)
  rw [serverWaitForAck g.ackNumber (mt take_comms_eq_nil.mp hraw) peer, toReply, if_neg hraw]
  dsimp only
  generalize getPacketFromBytes (raw.take commsBufferSize) = packet
  cases hisAck : packet.isAck with
  | false =>
      cases hfin : packet.isFin with
      | false =>
          simp only [Bool.false_eq_true, if_false]
          exact .raised (e := ⟨.messageIsNotAck, some packet⟩) (by simp [senderRaises])
      | true =>
          simp only [Bool.false_eq_true, if_false, if_true]
          cases hn : packet.ackNumber with
          | none =>
              simpa [GoBackNSender.awaitAckPhaseServer, Packet.getAckNumber, hn,
                ExnClass.carrying] using
                Follows.raised (e := ExnClass.attributeError.exn) (by decide)
          | some n =>
              have hbare : GoBackNSender.isFinBack packet = true := by
                simp [GoBackNSender.isFinBack, hisAck, hfin]
              have hrun : g.awaitAckPhaseServer
                  (.error (ExnClass.unexpectedFinMessage.carrying packet)) d =
                    if g.ackNumber.value ≤ n then
                      (({ g with alreadyReceivedFinBack := true } : GoBackNSender).acknowledge
                        n).loop ((g.acknowledge n).base + 1 = (g.acknowledge n).totalChunks)
                    else .raised ExnClass.unboundLocalError.exn := by
                simp [GoBackNSender.awaitAckPhaseServer, Packet.getAckNumber, hn,
                  ExnClass.carrying, hbare, GoBackNSender.acknowledge, GoBackNSender.totalChunks]
                rfl
              rw [hrun, Option.map_some, hbare]
              split
              · rename_i hle
                have hle' : offset + s.base ≤ n := hack ▸ hle
                refine h.finBack hp hk (r := ⟨packet.sequenceNumber, n, true⟩) rfl hle' _ fun hl ↦ ?_
                rw [h.toFields.acknowledge_base (r := ⟨packet.sequenceNumber, n, true⟩) hle']
                have hadv : s.advance (transfer content first offset) ⟨packet.sequenceNumber, n, true⟩ =
                    n - offset := if_pos hle'
                have htotal : (g.acknowledge n).totalChunks = _ := h.totalChunks
                rw [hadv, htotal]
                exact decide_eq_true (by dsimp only at hl; omega)
              · exact .raised (by decide)
  | true =>
      have hbare : GoBackNSender.isFinBack packet = false := by
        simp [GoBackNSender.isFinBack, hisAck]
      simp only [if_true]
      cases hn : packet.ackNumber with
      | none => exact .raised (by decide)
      | some n =>
          dsimp only
          rw [Option.map_some, hbare]
          split
          · rename_i hle
            have hrun : g.awaitAckPhaseServer (if packet.isFin = true then
                .error (ExnClass.unexpectedFinMessage.carrying packet) else .ok packet) d =
                  (g.acknowledge n).loop
                    ((g.acknowledge n).base + 1 = (g.acknowledge n).totalChunks) := by
              cases hfin : packet.isFin <;>
                simp [GoBackNSender.awaitAckPhaseServer, Packet.getAckNumber, hn,
                  ExnClass.carrying, hbare, hle]
            rw [hrun]
            have hle' : offset + s.base ≤ n := hack ▸ hle
            refine h.acknowledge hp hk (r := ⟨packet.sequenceNumber, n, false⟩) hle' _ (fun _ ↦ rfl)
              fun hl ↦ ?_
            rw [← h.toFields.acknowledge_base (r := ⟨packet.sequenceNumber, n, false⟩) hle',
              ← h.totalChunks]
            exact of_decide_eq_true hl
          · rename_i hlt
            rw [hack] at hlt
            exact h.accumulate hp (r := ⟨packet.sequenceNumber, n, false⟩) (Nat.lt_of_not_le hlt) d

end Rdt.Gbn
