import Mathlib.Data.List.Nodup
import Rdt.Server.Accepter

/-!
# What a step of the accepter can do

The pool keeps every connection under its own address, so that `rip_finished_clients` finds
what it removes; then one lemma lists the outcomes of a step.
-/

namespace Rdt.Server

open AccepterProtocol PacketParser

/-! ## The pool -/

namespace ClientPool

/-- Every connection is kept under its own address, and under no other. -/
structure Keyed (p : ClientPool) : Prop where
  key : ∀ e ∈ p, e.1 = e.2.cfg.address.toCombined
  nodup : (p.map Prod.fst).Nodup

theorem contains_iff {p : ClientPool} {key : String} : p.contains key ↔ key ∈ p.map Prod.fst := by
  simp [contains]

theorem Keyed.filter {p : ClientPool} (h : p.Keyed) (f : String × Connection → Bool) :
    Keyed (p.filter f) where
  key e he := h.key e (List.mem_of_mem_filter he)
  nodup := h.nodup.sublist (List.filter_sublist.map _)

/-- Two entries with one key are one entry. -/
theorem Keyed.eq_of_key {p : ClientPool} (h : p.Keyed) {e e' : String × Connection} (he : e ∈ p)
    (he' : e' ∈ p) (heq : e.1 = e'.1) : e = e' :=
  List.inj_on_of_nodup_map h.nodup he he' heq

theorem remove_eq_ok {p : ClientPool} {a : Address} (h : a.toCombined ∈ p.map Prod.fst) :
    p.remove a = .ok (p.filter fun e ↦ e.1 ≠ a.toCombined) := if_pos (contains_iff.mpr h)

/-- Removing distinct addresses that all are keys -/
theorem foldlM_remove {as : List Address} {p : ClientPool} (hnodup : as.Nodup)
    (h : ∀ a ∈ as, a.toCombined ∈ p.map Prod.fst) :
    as.foldlM ClientPool.remove p = .ok (p.filter fun e ↦ e.1 ∉ as.map Address.toCombined) := by
  induction as generalizing p with
  | nil => simp [pure, Except.pure]
  | cons a as ih =>
      obtain ⟨hfresh, hnodup⟩ := List.nodup_cons.mp hnodup
      rw [List.foldlM_cons, remove_eq_ok (h a List.mem_cons_self)]
      refine (ih hnodup fun b hb ↦ ?_).trans ?_
      · obtain ⟨e, he, heq⟩ := List.mem_map.mp (h b (List.mem_cons_of_mem a hb))
        refine List.mem_map.mpr ⟨e, List.mem_filter.mpr ⟨he, ?_⟩, heq⟩
        have hne : b ≠ a := fun hba ↦ hfresh (hba ▸ hb)
        simpa [heq] using hne
      · rw [List.filter_filter]
        congr 2
        funext e
        by_cases hea : e.1 = a.toCombined <;> simp [hea]

/-- `rip_finished_clients` removes what is ready to die. -/
theorem Keyed.ripFinishedClients {p : ClientPool} (h : p.Keyed) :
    Accepter.ripFinishedClients p = .ok (p.filter fun e ↦ !e.2.isReadyToDie) := by
  have hkeys : ∀ q : ClientPool, (∀ e ∈ q, e ∈ p) →
      (q.map fun e ↦ e.2.cfg.address).map Address.toCombined = q.map Prod.fst := by
    intro q hq
    rw [List.map_map]
    exact List.map_congr_left fun e he ↦ (h.key e (hq e he)).symm
  have hsub : ∀ e ∈ p.filter fun e ↦ e.2.isReadyToDie, e ∈ p := fun e he ↦ List.mem_of_mem_filter he
  unfold Accepter.ripFinishedClients
  rw [foldlM_remove]
  · rw [hkeys _ hsub]
    congr 1
    refine List.filter_congr fun e he ↦ ?_
    cases hready : e.2.isReadyToDie with
    | true =>
        have : e.1 ∈ (p.filter fun e ↦ e.2.isReadyToDie).map Prod.fst :=
          List.mem_map_of_mem (List.mem_filter.mpr ⟨he, hready⟩)
        simp [this]
    | false =>
        have : e.1 ∉ (p.filter fun e ↦ e.2.isReadyToDie).map Prod.fst := by
          rintro hmem
          obtain ⟨e', he', heq⟩ := List.mem_map.mp hmem
          obtain ⟨he', hready'⟩ := List.mem_filter.mp he'
          rw [h.eq_of_key he' he heq, hready] at hready'
          cases hready'
        simp [this]
  · refine List.Nodup.of_map Address.toCombined ?_
    rw [hkeys _ hsub]
    exact h.nodup.sublist (List.filter_sublist.map _)
  · intro a ha
    obtain ⟨e, he, rfl⟩ := List.mem_map.mp ha
    rw [← h.key e (hsub e he)]
    exact List.mem_map_of_mem (hsub e he)

theorem mem_add {p : ClientPool} {key : String} {value : Connection} {e : String × Connection} :
    e ∈ p.add key value ↔ e = (key, value) ∨ (e ∈ p ∧ e.1 ≠ key) := by
  unfold add
  split
  · rename_i hc
    rw [List.mem_map]
    constructor
    · rintro ⟨e', he', rfl⟩
      split
      · exact .inl rfl
      · exact .inr ⟨he', by assumption⟩
    · rintro (rfl | ⟨he, hne⟩)
      · obtain ⟨e', he', heq⟩ := List.mem_map.mp (contains_iff.mp hc)
        exact ⟨e', he', if_pos heq⟩
      · exact ⟨e, he, if_neg hne⟩
  · rename_i hc
    rw [List.mem_append, List.mem_singleton]
    constructor
    · rintro (he | rfl)
      · exact .inr ⟨he, fun heq ↦ hc (contains_iff.mpr (heq ▸ List.mem_map_of_mem he))⟩
      · exact .inl rfl
    · rintro (rfl | ⟨he, -⟩)
      · exact .inr rfl
      · exact .inl he

theorem Keyed.add {p : ClientPool} (h : p.Keyed) (value : Connection) :
    Keyed (p.add value.cfg.address.toCombined value) where
  key e he := by
    rcases mem_add.mp he with rfl | ⟨he, -⟩
    · rfl
    · exact h.key e he
  nodup := by
    unfold ClientPool.add
    split
    · rw [List.map_map]
      have : p.map (Prod.fst ∘ fun e ↦ if e.1 = value.cfg.address.toCombined then
          (value.cfg.address.toCombined, value) else e) = p.map Prod.fst := by
        refine List.map_congr_left fun e _ ↦ ?_
        dsimp only [Function.comp]
        split
        · exact Eq.symm (by assumption)
        · rfl
      rw [this]
      exact h.nodup
    · rename_i hc
      rw [List.map_append]
      refine List.nodup_append.mpr ⟨h.nodup, List.nodup_singleton _, ?_⟩
      rintro a ha b hb rfl
      obtain rfl := List.mem_singleton.mp hb
      exact hc (contains_iff.mpr ha)

end ClientPool

/-! ## The packet that should complete a handshake -/

/-- What `expect_handshake_completion` finds wrong with a packet. -/
def handshakeFault (ack : Option SequenceNumber) (packet : Packet) : Option ExnClass :=
  if packet.isAck then
    match ack, packet.ackNumber with
    | some _, none => some .attributeError
    | some n, some m =>
        if n.value ≠ m then some .invalidAckNumber
        else if packet.isFin then some .unexpectedFinMessage
        else none
    | none, _ => if packet.isFin then some .unexpectedFinMessage else none
  else some .messageIsNotAck

theorem handshakeFault_mem {ack : Option SequenceNumber} {packet : Packet} {cls : ExnClass}
    (h : handshakeFault ack packet = some cls) : cls = .attributeError ∨ cls = .messageIsNotAck ∨
      cls = .invalidAckNumber ∨ cls = .unexpectedFinMessage := by
  unfold handshakeFault at h
  grind

theorem messageIsNotAck_fault {ack : Option SequenceNumber} {packet : Packet}
    (h : handshakeFault ack packet = some .messageIsNotAck) : packet.isAck = false := by
  unfold handshakeFault at h
  grind

/-- An ACK without FIN that carries the number waited for -/
def Continues (ack : Option SequenceNumber) (packet : Packet) : Prop :=
  packet.isAck = true ∧ packet.isFin = false ∧ ∀ n ∈ ack, packet.ackNumber = some n.value

instance (ack : Option SequenceNumber) (packet : Packet) : Decidable (Continues ack packet) :=
  inferInstanceAs (Decidable (_ ∧ _ ∧ _))

theorem handshakeFault_eq_none {ack : Option SequenceNumber} {packet : Packet} :
    handshakeFault ack packet = none ↔ Continues ack packet := by
  unfold handshakeFault Continues
  cases ack with
  | none => cases packet.isAck <;> cases packet.isFin <;> simp
  | some n =>
      cases packet.ackNumber with
      | none => cases packet.isAck <;> simp
      | some m =>
          rcases eq_or_ne n.value m with rfl | hnm
          · cases packet.isAck <;> cases packet.isFin <;> simp
          · cases packet.isAck <;> simp [hnm, hnm.symm]

theorem expectHandshakeCompletion_check (ack : Option SequenceNumber) {raw : Bytes} (hraw : raw ≠ [])
    (A : Address) :
    (expectHandshakeCompletion ack).check raw (some A) =
      match handshakeFault ack (getPacketFromBytes raw) with
      | some c => .error c.exn
      | none => .ok (getPacketFromBytes raw, A) := by
  simp only [expectHandshakeCompletion, validateInboundAck, AccepterProtocol.validateInboundPacket,
    Protocol.validateInboundPacket_of_ne_nil hraw, handshakeFault, Protocol.validateAck,
    AccepterProtocol.validateAckNumber, Packet.getAckNumber, bind, Except.bind, pure, Except.pure]
  generalize getPacketFromBytes raw = packet
  cases packet.isAck with
  | false => rfl
  | true =>
      cases ack with
      | none => cases packet.isFin <;> rfl
      | some n =>
          cases packet.ackNumber with
          | none => rfl
          | some m =>
              by_cases hnm : n.value = m <;> cases packet.isFin <;> simp [hnm]

@[simp] theorem expectHandshakeCompletion_bufferSize (ack : Option SequenceNumber) :
    (expectHandshakeCompletion ack).bufferSize = commsBufferSize := rfl

/-- Nothing is let through that the wrapper can catch. -/
@[simp] theorem expectHandshakeCompletion_catches (ack : Option SequenceNumber) :
    configureWantedExceptionsToCatch (expectHandshakeCompletion ack).exceptionsToLetThrough =
      wantToCatchAll := by
  show configureWantedExceptionsToCatch [] = wantToCatchAll
  decide

theorem expectHandshakeCompletion_none (ack : Option SequenceNumber) {raw : Bytes} (hraw : raw ≠ []) :
    (expectHandshakeCompletion ack).check raw none = .error ExnClass.missingClientAddress.exn := by
  simp only [expectHandshakeCompletion, validateInboundAck, AccepterProtocol.validateInboundPacket,
    Protocol.validateInboundPacket, if_neg (mt List.length_eq_zero_iff.mp hraw), bind, Except.bind]

/-- The ways the receive of `expect_handshake_completion` fails. -/
inductive HandshakeFails (ack : Option SequenceNumber) : Event → Exn → Prop
  | empty {source : Option Address} {now : Time} :
      HandshakeFails ack (.datagram [] source now) ExnClass.socketShutdown.exn
  | noSource {raw : Bytes} {now : Time} (hraw : raw ≠ []) :
      HandshakeFails ack (.datagram raw none now) ExnClass.missingClientAddress.exn
  | fault {raw : Bytes} {A : Address} {now : Time} {cls : ExnClass} (hraw : raw ≠ [])
      (h : handshakeFault ack (getPacketFromBytes (raw.take commsBufferSize)) = some cls) :
      HandshakeFails ack (.datagram raw (some A) now) cls.exn
  | lost {ev : Event} (h : ∀ raw source now, ev ≠ .datagram raw source now) :
      HandshakeFails ack ev ExnClass.connectionLost.exn
  | shutdown {now : Time} : HandshakeFails ack (.osError now) ExnClass.socketShutdown.exn

theorem take_comms_ne_nil {raw : Bytes} (h : raw ≠ []) : raw.take commsBufferSize ≠ [] := by
  simp [List.take_eq_nil_iff, commsBufferSize, h]

theorem handshakeFails_of_fails {ack : Option SequenceNumber} {s : SocketSaw} {r : ReListen}
    {ev : Event} {e : Exn} (h : (expectHandshakeCompletion ack).Fails s r ev e) :
    HandshakeFails ack ev e := by
  rcases h with ⟨raw, source, hrecv, hc⟩ | ⟨e, hrecv, rfl⟩
  · obtain ⟨raw, now, rfl, rfl⟩ := ReListen.recvfrom_packet hrecv
    by_cases hraw : raw = []
    · subst hraw
      obtain rfl := Except.error.inj hc
      exact .empty
    · cases source with
      | none =>
          rw [expectHandshakeCompletion_bufferSize,
            expectHandshakeCompletion_none ack (take_comms_ne_nil hraw)] at hc
          obtain rfl := Except.error.inj hc
          exact .noSource hraw
      | some A =>
          rw [expectHandshakeCompletion_bufferSize,
            expectHandshakeCompletion_check ack (take_comms_ne_nil hraw)] at hc
          split at hc
          · rename_i cls hfault
            obtain rfl := Except.error.inj hc
            exact .fault hraw hfault
          · cases hc
  · cases ev with
    | datagram => cases hrecv
    | proceed => cases hrecv
    | timeout now =>
        unfold ReListen.recvfrom at hrecv
        dsimp only at hrecv
        split at hrecv
        · obtain rfl := Received.failed.inj hrecv
          exact .lost nofun
        · split at hrecv
          · cases hrecv
          · split at hrecv
            · cases hrecv
            · obtain rfl := Received.failed.inj hrecv
              exact .lost nofun
    | osError now =>
        unfold ReListen.recvfrom at hrecv
        dsimp only at hrecv
        split at hrecv
        · obtain rfl := Received.failed.inj hrecv
          exact .lost nofun
        · obtain rfl := Received.failed.inj hrecv
          exact .shutdown

/-- The ACKs that end the accepter: one in the other protocol's format and, when the receive
gives up on it, one with a FIN or a wrong number. -/
def fatalAck (ack : Option SequenceNumber) (gaveUp : Bool) (packet : Packet) : Bool :=
  packet.isAck && (ack.isSome && packet.ackNumber.isNone ||
    gaveUp && (packet.isFin || ack.any fun n ↦ packet.ackNumber != some n.value))

theorem fatalAck_iff {ack : Option SequenceNumber} {gaveUp : Bool} {packet : Packet} :
    fatalAck ack gaveUp packet = true ↔ handshakeFault ack packet = some .attributeError ∨
      gaveUp = true ∧ (handshakeFault ack packet = some .invalidAckNumber ∨
        handshakeFault ack packet = some .unexpectedFinMessage) := by
  unfold fatalAck handshakeFault
  cases packet.isAck with
  | false => simp
  | true =>
      cases ack with
      | none => cases packet.isFin <;> simp
      | some n =>
          cases packet.ackNumber with
          | none => simp
          | some m =>
              rcases eq_or_ne n.value m with rfl | hnm
              · cases packet.isFin <;> simp
              · cases packet.isFin <;> simp [hnm, hnm.symm]

namespace Accepter

/-- The datagrams that end the accepter; among them every SYN that is answered, and whose answer
cannot be sent. -/
def fatal (a : Accepter) : ServerEvent → Bool
  | .welcoming (.datagram raw source now) _ =>
      raw.isEmpty || match a.point with
        | .acceptConnection => source.any fun A ↦ A.port = 0 &&
            (getPacketFromBytes (raw.take commsBufferSize)).isSyn && !a.clients.isClientConnected A
        | .handshake _ _ ack r =>
            source.isSome &&
              fatalAck ack (r.Exhausted now) (getPacketFromBytes (raw.take commsBufferSize))
  | _ => false

def Running (a : Accepter) : Prop := a.isAlive = true ∧ a.escaped = none

instance (a : Accepter) : Decidable a.Running := inferInstanceAs (Decidable (_ ∧ _))

/-- The event is the packet that completes the handshake in progress. -/
def completes (a : Accepter) : ServerEvent → Bool
  | .welcoming (.datagram raw (some _) _) _ =>
      match a.point with
      | .acceptConnection => false
      | .handshake _ _ ack _ =>
          a.Running && !raw.isEmpty &&
            handshakeFault ack (getPacketFromBytes (raw.take commsBufferSize)) = none
  | _ => false

theorem completes_of_acceptConnection {a : Accepter} (h : a.point = .acceptConnection)
    (e : ServerEvent) : a.completes e = false := by
  unfold completes
  split
  · rw [h]
  · rfl

theorem completes_nil {a : Accepter} (source : Option Address) (now : Time) {bound : Peer} :
    a.completes (.welcoming (.datagram [] source now) bound) = false := by
  cases source with
  | none => rfl
  | some A =>
      simp only [completes]
      split <;> simp

theorem fatal_of_not_datagram {a : Accepter} {ev : Event} {bound : Peer}
    (h : ∀ raw source now, ev ≠ .datagram raw source now) :
    a.fatal (.welcoming ev bound) = false := by
  cases ev with
  | datagram => exact absurd rfl (h _ _ _)
  | timeout | osError | proceed => rfl

theorem completes_of_fault {a : Accepter} {B : Address} {A c bound : Peer} {ack : Option SequenceNumber}
    {r : ReListen} (hp : a.point = .handshake A c ack r) {raw : Bytes} {now : Time} {cls : ExnClass}
    (h : handshakeFault ack (getPacketFromBytes (raw.take commsBufferSize)) = some cls) :
    a.completes (.welcoming (.datagram raw (some B) now) bound) = false := by
  simp [completes, hp, h]

theorem completes_of_not_datagram {a : Accepter} {ev : Event} {bound : Peer}
    (h : ∀ raw source now, ev ≠ .datagram raw source now) :
    a.completes (.welcoming ev bound) = false := by
  cases ev with
  | datagram => exact absurd rfl (h _ _ _)
  | timeout | osError | proceed => rfl

/-- All that one event can do. -/
inductive Does (cfg : AccepterConfig) (a : Accepter) : ServerEvent → Accepter → Prop
  | thread {key : String} {ev : Event} (disk : Disk) (f : String × Connection → ClientConnection) :
      Does cfg a (.connection key ev)
        { a with
          outbox := []
          clients := a.clients.map fun e ↦ (e.1, { e.2 with thread := f e })
          disk }
  | nothing {ev : Event} {bound : Peer} (h : ¬a.Running ∨ a.point = .acceptConnection ∧
        ∀ raw source now, ev ≠ .datagram raw source now) :
      Does cfg a (.welcoming ev bound) { a with outbox := [] }
  | halted {ev : Event} {bound : Peer} {a' : Accepter} (hr : a.Running)
      (hf : a.fatal (.welcoming ev bound) = true ∨ ∃ now, ev = .osError now)
      (hc : a.completes (.welcoming ev bound) = false) (ho : ¬a'.Running)
      (hclients : a'.clients = a.clients) (hpoint : a'.point = a.point) : Does cfg a (.welcoming ev bound) a'
  | returns {ev : Event} {bound : Peer} (outbox : Outbox) (welcomingSocket : SocketSaw)
      (hr : a.Running) (hf : a.fatal (.welcoming ev bound) = false)
      (hc : a.completes (.welcoming ev bound) = false) :
      Does cfg a (.welcoming ev bound) { a with outbox, welcomingSocket, point := .acceptConnection }
  | answers {raw raw' : Bytes} {A bound : Peer} {now : Time} (welcomingSocket : SocketSaw)
      (hr : a.Running) (hp : a.point = .acceptConnection) (hraw : raw ≠ [])
      (hsyn : (getPacketFromBytes (raw.take commsBufferSize)).isSyn = true)
      (hfree : a.clients.isClientConnected A = false) :
      Does cfg a (.welcoming (.datagram raw (some A) now) bound)
        { a with
          outbox := [(raw', A)]
          welcomingSocket
          point := .handshake A bound ((getPacketFromBytes (raw.take commsBufferSize)).ackNumber.map
            fun n ↦ SequenceNumber.step
              ⟨n, (getPacketFromBytes (raw.take commsBufferSize)).protocol⟩) (.start now) }
  | waits {ev : Event} {bound A c : Peer} {ack : Option SequenceNumber} {r : ReListen}
      (r' : ReListen) (outbox : Outbox) (hr : a.Running) (hp : a.point = .handshake A c ack r)
      (hf : a.fatal (.welcoming ev bound) = false)
      (hc : a.completes (.welcoming ev bound) = false) :
      Does cfg a (.welcoming ev bound) { a with outbox, point := .handshake A c ack r' }
  | completes {raw : Bytes} {B : Address} {bound A c : Peer} {now : Time} {ack : Option SequenceNumber}
      {r : ReListen} (hr : a.Running) (hp : a.point = .handshake A c ack r) (hraw : raw ≠ [])
      (hack : handshakeFault ack (getPacketFromBytes (raw.take commsBufferSize)) = none) :
      Does cfg a (.welcoming (.datagram raw (some B) now) bound)
        { a with
          outbox := []
          welcomingSocket := a.welcomingSocket.resetState
          clients := ClientPool.add (a.clients.filter fun e ↦ !e.2.isReadyToDie) c.toCombined
            (createConnection cfg c A (getPacketFromBytes (raw.take commsBufferSize)) a.disk now)
          disk := (createConnection cfg c A (getPacketFromBytes (raw.take commsBufferSize)) a.disk
            now).thread.disk
          point := .acceptConnection }

variable {cfg : AccepterConfig} {a : Accepter}

theorem onConnection_does (hk : a.clients.Keyed) (key : String) (ev : Event) :
    Does cfg a (.connection key ev) (onConnection { a with outbox := [] } key ev) := by
  unfold onConnection
  split
  · have h : Does cfg a (.connection key ev) _ := .thread a.disk fun e ↦ e.2.thread
    simpa using h
  · rename_i k c hfind
    have hkey : k = key := by simpa using List.find?_some hfind
    have hmem : (k, c) ∈ a.clients := List.mem_of_find?_eq_some hfind
    let thread := ClientConnection.step c.cfg { c.thread with disk := a.disk } ev
    have hmap : (a.clients.map fun e ↦ if e.1 = key then (key, { c with thread }) else e) =
        a.clients.map fun e ↦
          (e.1, { e.2 with thread := if e.1 = key then thread else e.2.thread }) := by
      refine List.map_congr_left fun e he ↦ ?_
      by_cases hek : e.1 = key
      · obtain rfl := hk.eq_of_key he hmem (hek.trans hkey.symm)
        simp [hkey]
      · simp [hek]
    have h : Does cfg a (.connection key ev) _ := .thread thread.disk
      fun e ↦ if e.1 = key then thread else e.2.thread
    rw [← hmap] at h
    exact h

theorem send_eq (a : Accepter) {protocol : ProtocolType} {n : Nat} {ack : Option Nat}
    {isAck isSyn isFin : Bool} {port : UInt16} {raw : Bytes} (A : Peer)
    (h : Protocol.encode protocol ⟨n, protocol⟩ (ack.map (⟨·, protocol⟩)) isAck isSyn isFin port [] =
      .ok raw) :
    a.send protocol n ack isAck isSyn isFin port A =
      .ok ({ a with
        welcomingSocket := a.welcomingSocket.saveState (some raw) A
        outbox := a.outbox ++ [(raw, A.toAddress)] }, A) := by
  rw [send, h, sendto_eq A.reachable]
  rfl

/-- A packet without data that repeats the numbers of one received is sent to every port but 0. -/
theorem send_parsed (a : Accepter) (raw : Bytes) (isAck isSyn isFin : Bool) (port : UInt16)
    (A : Peer) :
    ∃ raw', a.send (getPacketFromBytes raw).protocol (getPacketFromBytes raw).sequenceNumber
        (getPacketFromBytes raw).ackNumber isAck isSyn isFin port A =
      .ok ({ a with
        welcomingSocket := a.welcomingSocket.saveState (some raw') A
        outbox := a.outbox ++ [(raw', A.toAddress)] }, A) ∧ raw'.length ≤ gbnProtocolHeaderSize ∧
      getPacketFromBytes raw' =
        { getPacketFromBytes raw with
          isAck, isSyn, isFin, port := port.toNat, payloadLength := 0, data := [] } := by
  obtain ⟨raw', hok, hlen, hparse⟩ := Protocol.encode_parsed raw isAck isSyn isFin port
  exact ⟨raw', send_eq a A hok, hlen, hparse⟩

theorem send_unreachable (a : Accepter) (raw : Bytes) (isAck isSyn isFin : Bool) (port : UInt16)
    {A : Address} (hA : A.port = 0) :
    a.send (getPacketFromBytes raw).protocol (getPacketFromBytes raw).sequenceNumber
      (getPacketFromBytes raw).ackNumber isAck isSyn isFin port A =
        .error ExnClass.socketShutdown.exn := by
  obtain ⟨raw', hok, -⟩ := Protocol.encode_parsed raw isAck isSyn isFin port
  rw [send, hok, sendto, dif_pos hA]
  rfl

/-- A SYN of a client that is not in the pool is answered, if it can be. -/
theorem answer_does (hr : a.Running) (hp : a.point = .acceptConnection) {raw : Bytes} (hraw : raw ≠ [])
    (hsyn : (getPacketFromBytes (raw.take commsBufferSize)).isSyn = true) {A : Address}
    (hfree : a.clients.isClientConnected A = false) (now : Time) (bound : Peer) :
    Does cfg a (.welcoming (.datagram raw (some A) now) bound)
      (handshake cfg { a with outbox := [] } (getPacketFromBytes (raw.take commsBufferSize)) A bound
        now) := by
  have hc := completes_of_acceptConnection hp (.welcoming (.datagram raw (some A) now) bound)
  simp only [handshake, hfree, Bool.false_eq_true, if_false]
  by_cases hport : A.port = 0
  · have hf : a.fatal (.welcoming (.datagram raw (some A) now) bound) = true := by
      simp [fatal, hp, hport, hsyn, hfree]
    have stops : Does cfg a (.welcoming (.datagram raw (some A) now) bound)
        (handle { a with outbox := [] } ExnClass.socketShutdown.exn) :=
      .halted hr (.inl hf) hc (fun h ↦ absurd h.1 nofun) rfl rfl
    split
    · rw [rejectConnection, send_unreachable _ _ _ _ _ _ hport]
      exact stops
    · rename_i hproto
      have hsend := send_unreachable { a with outbox := [] } (raw.take commsBufferSize) true true false
        bound.port hport
      rw [not_not.mp hproto] at hsend
      rw [sendConnectionAccepted, hsend]
      exact stops
  · have hf : a.fatal (.welcoming (.datagram raw (some A) now) bound) = false := by
      simp [fatal, hp, hraw, hport]
    let peer : Peer := ⟨A, hport⟩
    split
    · obtain ⟨raw', hok, -⟩ := send_parsed { a with outbox := [] } (raw.take commsBufferSize) false false
        true A.port peer
      rw [rejectConnection, show A = peer.toAddress from rfl, hok]
      exact .returns _ _ hr hf hc
    · rename_i hproto
      obtain ⟨raw', hok, -⟩ := send_parsed { a with outbox := [] } (raw.take commsBufferSize) true true
        false bound.port peer
      rw [not_not.mp hproto] at hok
      rw [sendConnectionAccepted, show A = peer.toAddress from rfl, hok]
      exact .answers _ hr hp hraw hsyn hfree

/-- An event in the receive of `accept_connection` -/
theorem onAcceptConnection_does (hr : a.Running) (hp : a.point = .acceptConnection) (ev : Event)
    (bound : Peer) :
    Does cfg a (.welcoming ev bound) (onAcceptConnection cfg { a with outbox := [] } ev bound) := by
  have back : ∀ ev outbox ws, a.fatal (.welcoming ev bound) = false →
      Does cfg a (.welcoming ev bound) (loop { a with outbox, welcomingSocket := ws }) :=
    fun ev outbox ws hf ↦ .returns outbox ws.resetState hr hf (completes_of_acceptConnection hp _)
  cases ev with
  | timeout now => exact .nothing (.inr ⟨hp, nofun⟩)
  | proceed now => exact .nothing (.inr ⟨hp, nofun⟩)
  | osError now => exact back _ [] a.welcomingSocket rfl
  | datagram raw source now =>
      by_cases hraw : raw = []
      · subst hraw
        exact .halted hr (.inl rfl) (completes_of_acceptConnection hp _) (fun h ↦ absurd h.1 nofun)
          rfl rfl
      · cases source with
        | none =>
            have hf : a.fatal (.welcoming (.datagram raw none now) bound) = false := by
              simp [fatal, hp, hraw]
            simp only [onAcceptConnection, acceptConnection, AccepterProtocol.validateInboundPacket,
              Protocol.validateInboundPacket, if_neg (mt List.length_eq_zero_iff.mp
                (take_comms_ne_nil hraw)), bind, Except.bind]
            exact back _ [] a.welcomingSocket hf
        | some A =>
            simp only [onAcceptConnection, acceptConnection, AccepterProtocol.validateInboundPacket,
              Protocol.validateInboundPacket_of_ne_nil (take_comms_ne_nil hraw), bind, Except.bind]
            cases hsyn : (getPacketFromBytes (raw.take commsBufferSize)).isSyn with
            | false => exact back _ [] a.welcomingSocket (by simp [fatal, hp, hraw, hsyn])
            | true =>
                cases hfree : a.clients.isClientConnected A with
                | true => exact back _ [] a.welcomingSocket (by simp [fatal, hp, hraw, hfree])
                | false => exact answer_does hr hp hraw hsyn hfree now bound

/-- An event in the receive of `expect_handshake_completion` -/
theorem onHandshake_does (hk : a.clients.Keyed) (hr : a.Running) {A c : Peer}
    {ack : Option SequenceNumber} {r : ReListen} (hp : a.point = .handshake A c ack r) (ev : Event)
    (bound : Peer) :
    Does cfg a (.welcoming ev bound) (onHandshake cfg { a with outbox := [] } A c ack r ev) := by
  have hspec := reListens (expectHandshakeCompletion ack) a.welcomingSocket r ev
  unfold onHandshake
  dsimp only
  generalize reListenIfFailed (expectHandshakeCompletion ack) a.welcomingSocket r ev = l at hspec
  cases hspec with
  | @blocked r' b h =>
      have hev : ∀ raw source now, ev ≠ .datagram raw source now := by
        rintro raw source now rfl
        cases h
      exact .waits r' _ hr hp (fatal_of_not_datagram hev) (completes_of_not_datagram hev)
  | @returned raw source p h hc =>
      obtain ⟨raw, now, rfl, rfl⟩ := ReListen.recvfrom_packet h
      have hraw : raw ≠ [] := by
        rintro rfl
        cases hc
      cases source with
      | none =>
          rw [expectHandshakeCompletion_bufferSize,
            expectHandshakeCompletion_none ack (take_comms_ne_nil hraw)] at hc
          cases hc
      | some B =>
          rw [expectHandshakeCompletion_bufferSize,
            expectHandshakeCompletion_check ack (take_comms_ne_nil hraw)] at hc
          split at hc
          · cases hc
          · rename_i hfault
            obtain rfl := Except.ok.inj hc
            simp only [addClient, hk.ripFinishedClients, bind, Except.bind, pure, Except.pure]
            exact .completes hr hp hraw hfault
  | letThrough h he =>
      have halted : ∀ a' : Accepter, a'.clients = a.clients → a'.point = a.point → ¬a'.Running →
          (a.fatal (.welcoming ev bound) = true ∨ ∃ now, ev = .osError now) →
          a.completes (.welcoming ev bound) = false → Does cfg a (.welcoming ev bound) a' :=
        fun a' hc hpoint ho hf hcomp ↦ .halted hr hf hcomp ho hc hpoint
      cases handshakeFails_of_fails h with
      | empty =>
          exact halted _ rfl rfl (fun h ↦ absurd h.1 nofun) (.inl rfl) (completes_nil _ _)
      | noSource hraw =>
          exact .returns [] a.welcomingSocket.resetState hr (by simp [fatal, hp, hraw]) rfl
      | @fault raw B now cls hraw hfault =>
          rcases handshakeFault_mem hfault with rfl | rfl | rfl | rfl
          · refine halted _ rfl rfl (fun h ↦ absurd h.2 nofun) (.inl ?_)
              (completes_of_fault hp hfault)
            simp [fatal, hp, fatalAck_iff, hfault]
          all_goals exact absurd (by simp [wantToCatchAll]) he
      | lost hev => exact absurd (by simp [wantToCatchAll]) he
      | shutdown => exact halted _ rfl rfl (fun h ↦ absurd h.1 nofun) (.inr ⟨_, rfl⟩) rfl
  | exhausted h he hx =>
      cases handshakeFails_of_fails h with
      | empty => exact absurd he (by simp [wantToCatchAll])
      | noSource => exact absurd he (by simp [wantToCatchAll])
      | @fault raw B now cls hraw hfault =>
          have halted : cls = .invalidAckNumber ∨ cls = .unexpectedFinMessage → ∀ a' : Accepter,
              a'.clients = a.clients → a'.point = a.point → ¬a'.Running →
              Does cfg a (.welcoming (.datagram raw (some B) now) bound) a' := by
            intro hcls a' hc hpoint ho
            refine .halted hr (.inl ?_) (completes_of_fault hp hfault) ho hc hpoint
            have hx' : decide (r.Exhausted now) = true := decide_eq_true hx
            rcases hcls with rfl | rfl <;> simp [fatal, hp, fatalAck_iff, hfault, hx']
          rcases handshakeFault_mem hfault with rfl | rfl | rfl | rfl
          · exact absurd he (by simp [wantToCatchAll])
          · exact .returns _ a.welcomingSocket.resetState hr
              (by simp [fatal, hp, hraw, fatalAck, messageIsNotAck_fault hfault])
              (completes_of_fault hp hfault)
          · exact halted (.inl rfl) _ rfl rfl (fun h ↦ absurd h.2 nofun)
          · exact halted (.inr rfl) _ rfl rfl (fun h ↦ absurd h.2 nofun)
      | lost hev =>
          exact .returns _ a.welcomingSocket.resetState hr (fatal_of_not_datagram hev)
            (completes_of_not_datagram hev)
      | shutdown => exact absurd he (by simp [wantToCatchAll])
  | @again e r' h he hx =>
      cases handshakeFails_of_fails h with
      | empty => exact absurd he (by simp [wantToCatchAll])
      | noSource => exact absurd he (by simp [wantToCatchAll])
      | @fault raw B now cls hraw hfault =>
          have hx' : decide (r.Exhausted now) = false := decide_eq_false hx
          have hne : handshakeFault ack (getPacketFromBytes (raw.take commsBufferSize)) ≠
              some .attributeError := by
            rintro hattr
            obtain rfl := Option.some.inj (hfault.symm.trans hattr)
            exact absurd he (by simp [wantToCatchAll])
          have := mt fatalAck_iff.mp (not_or.mpr ⟨hne, fun h ↦ absurd (hx'.symm.trans h.1) nofun⟩)
          exact .waits r' _ hr hp (by simp [fatal, hp, hraw, Bool.eq_false_iff.mpr this])
            (completes_of_fault hp hfault)
      | lost hev =>
          exact .waits r' _ hr hp (fatal_of_not_datagram hev) (completes_of_not_datagram hev)
      | shutdown => exact absurd he (by simp [wantToCatchAll])

/-- Every step is one of these. -/
theorem step_does (hk : a.clients.Keyed) (e : ServerEvent) : Does cfg a e (step cfg a e) := by
  cases e with
  | connection key ev => exact onConnection_does hk key ev
  | welcoming ev bound =>
      unfold step
      dsimp only
      split
      · rename_i hr
        split
        · rename_i hp
          exact onAcceptConnection_does hr hp ev bound
        · rename_i hp
          exact onHandshake_does hk hr hp ev bound
      · rename_i hr
        exact .nothing (.inl hr)

end Accepter

end Rdt.Server
