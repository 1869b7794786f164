import Rdt.Gbn.Sender
import Rdt.Link

/-! # The ends that send a file refine the sender of the sliding window -/

namespace Rdt.Gbn

open Duplex SlidingWindow

variable {content : Bytes} {first offset : Nat} {stops : Bool}

/-- Sent packets that may be sent again. -/
def Repeats (P : Transfer UInt8) (s : Sender) (socket : SocketSaw) : Prop :=
  ∀ raw ∈ socket.lastRawPacket, Sender.Says P s (toData raw)

theorem Repeats.of_kept {P : Transfer UInt8} {s : Sender} {packet : Option Bytes} {a : Address}
    (socket : SocketSaw) (h : Kept P s.base packet) : Repeats P s (socket.saveState packet a) := by
  intro raw hraw
  obtain ⟨i, hi, hn, hd⟩ := h raw hraw
  rw [hd]
  exact .chunk hi hn

/-- A retransmission to the peer says nothing new. -/
theorem Repeats.retransmission {P : Transfer UInt8} {s : Sender} {socket : SocketSaw}
    (h : Repeats P s socket) (b : Bool) (peer : Address) :
    ∀ o ∈ ((if b then socket.retransmission else []).to peer).map toData, Sender.Says P s o := by
  intro o ho
  obtain ⟨raw, hraw, rfl⟩ := List.mem_map.mp ho
  exact h raw (SocketSaw.mem_retransmission hraw)

/-! ## The client of an upload -/

/-- Where a client stands once `send_file` is entered. -/
inductive ClientSendsAt (P : Transfer UInt8) (c : Client) (s : Sender) : Prop
  | sending {g : GoBackNSender} (hp : c.point = .sendFileGbn g) (h : Tracks P g s)
  | waiting (hp : c.point = .initiateCloseConnection) (hs : s.phase = .closing false)
      (hseq : c.sequenceNumber = ⟨P.offset + s.next - 1, .goBackN⟩)
      (hack : ∃ a, c.ackNumber = some a) (hr : Repeats P s c.socket)
  | finalizing (hp : c.point = .handleConnectionFinalization .exceptClause)
      (hs : s.phase = .closing false) (hr : Repeats P s c.socket)
  | ended (hp : c.point = .ended)

structure ClientSends (P : Transfer UInt8) (peer : Address) (c : Client) (s : Sender) : Prop where
  told : .uploadCompleted ∈ c.reports → s.reported = true
  peer : c.serverAddress = peer
  at_point : ClientSendsAt P c s

/-- The answer of a machine step to the window's question. -/
def ClientAnswers (P : Transfer UInt8) (peer : Address) (s : Sender) (i : Option (Option Reply))
    (c : Client) : Prop :=
  ∃ s', Sender.Step P s i s' ((c.outbox.to peer).map toData) ∧
    (ClientSends P peer c s' ∨ s'.phase = .chaos)

section Client

variable {cfg : Client.Config} {peer : Address} {c : Client} {s : Sender}
  {i : Option (Option Reply)} {now : Time}

/-- Sending a packet without data. -/
theorem client_send (hproto : cfg.protocolVersion = .goBackN) (hport : c.serverAddress.port ≠ 0)
    {a : SequenceNumber} (hack : c.ackNumber = some a) (isAck isFin : Bool) (port : UInt16) :
    (∃ raw, c.send cfg isAck false isFin port [] = .ok (c.handed raw) ∧
        Protocol.encode .goBackN c.sequenceNumber (some a) isAck false isFin port [] = .ok raw) ∨
      c.send cfg isAck false isFin port [] = .error (ExnClass.structError.exn, c) := by
  rw [Client.send_eq_encode cfg hport, hproto, hack]
  rcases Protocol.encode_gbn c.sequenceNumber a isAck false isFin port [] with
    ⟨raw, hok, -, -⟩ | herr
  · exact .inl ⟨raw, by rw [hok], hok⟩
  · exact .inr (by rw [herr])

/-- A packet handed over adds itself to what is said to the peer. -/
theorem client_handed {β : Type} {f : Bytes → β} {Q : β → Prop} {raw : Bytes}
    (hpeer : c.serverAddress = peer) (hout : ∀ o ∈ (c.outbox.to peer).map f, Q o) (hraw : Q (f raw)) :
    ∀ o ∈ ((c.handed raw).outbox.to peer).map f, Q o := by
  intro o ho
  simp only [Client.handed, hpeer, Outbox.to_append, Outbox.to_cons_self, Outbox.to_nil,
    List.map_append, List.map_cons, List.map_nil, List.mem_append, List.mem_singleton] at ho
  exact ho.elim (hout o) fun ho ↦ ho ▸ hraw

/-- A client that gives up without a word. -/
theorem client_dies (h : ClientSends (transfer content first offset) peer c s) {e : Exn}
    (hout : c.outbox = []) (he : e.cls ∈ senderRaises) (htask : ∃ src name, cfg.task = .upload src name) :
    ClientAnswers (transfer content first offset) peer s i
      (Client.handle cfg now (.error (e, c))) := by
  obtain ⟨src, name, htask⟩ := htask
  have hclose : Client.closesConnection cfg e.cls = false := by
    simp only [Client.closesConnection, htask]
    simp only [senderRaises, List.mem_cons, List.not_mem_nil, or_false] at he
    rcases he with he | he | he | he | he | he | he <;> rw [he] <;> rfl
  simp only [Client.handle, hclose, Client.fileCleanupAfterError, htask, Client.finish]
  refine ⟨{ s with phase := .dead }, ?_, .inl ⟨h.told, h.peer, .ended rfl⟩⟩
  simpa [hout] using Sender.Step.die s i

/-- The last word of a client that is told, or takes it, that all is done. -/
theorem client_completes (hproto : cfg.protocolVersion = .goBackN) (hport : peer.port ≠ 0)
    (htask : ∃ src name, cfg.task = .upload src name) (hout : c.outbox = [])
    (hpeer : c.serverAddress = peer) (hack : ∃ a, c.ackNumber = some a)
    (hseq : c.sequenceNumber = ⟨offset + s.next - 1, .goBackN⟩) :
    (Client.handle cfg now (Client.completeUpload cfg c)).point = .ended ∧
      (Client.handle cfg now (Client.completeUpload cfg c)).serverAddress = peer ∧
      ∀ o ∈ ((Client.handle cfg now (Client.completeUpload cfg c)).outbox.to peer).map toData,
        Sender.Says (transfer content first offset) s o := by
  obtain ⟨src, name, htask⟩ := htask
  obtain ⟨a, hack⟩ := hack
  have hsend := client_send (c := (c.report .uploadCompleted).stepSequence) hproto (hpeer ▸ hport)
    hack true false cfg.myAddress.port
  rcases hsend with ⟨raw, hok, henc⟩ | herr
  · have hdata := (of_encode henc).1
    simp only [Client.completeUpload, Client.sendAck, hok, bind, Except.bind, pure, Except.pure,
      Client.handle, Client.finish]
    refine ⟨trivial, hpeer, ?_⟩
    simp only [Client.handed, Client.stepSequence, Client.report, hout, hpeer, List.nil_append,
      Outbox.to_cons_self, Outbox.to_nil, List.map_cons, List.map_nil, List.mem_singleton]
    rintro o rfl
    rw [hdata]
    refine .control ?_ rfl fun h ↦ absurd h Bool.false_ne_true
    simp only [Client.stepSequence, Client.report, hseq]
    rfl
  · simp only [Client.completeUpload, Client.sendAck, herr, bind, Except.bind, Client.handle]
    have hclose : Client.closesConnection cfg ExnClass.structError.exn.cls = false := by
      simp only [Client.closesConnection, htask]
      rfl
    simp only [hclose, Client.fileCleanupAfterError, htask, Client.finish, Client.stepSequence,
      Client.report]
    exact ⟨rfl, hpeer, by simp [hout]⟩

/-- The client goes on with `send_file`, or with closing the connection. -/
theorem client_onSender (hproto : cfg.protocolVersion = .goBackN) (hport : peer.port ≠ 0)
    (htask : ∃ src name, cfg.task = .upload src name)
    (h : ClientSends (transfer content first offset) peer c s) (hout : c.outbox = [])
    {result : GoBackNSender.Result}
    (hf : Follows (transfer content first offset) false s i result) :
    ClientAnswers (transfer content first offset) peer s i
      (Client.handle cfg now (Client.onSender cfg now c result)) := by
  cases hf with
  | @running g s' sent hs hr ht =>
      refine ⟨s', ?_, .inl ⟨fun hu ↦ hr ▸ h.told hu, h.peer, .sending rfl ht⟩⟩
      simp only [Client.onSender, Client.handle, hout, List.nil_append, h.peer]
      cases sent with
      | none => simpa using hs
      | some raw => simpa using hs
  | @returned g hret =>
      cases hret with
      | @done s' early he hs hp hr hfields hk hfin =>
          have hearly : early = false := by
            cases early with
            | false => rfl
            | true => exact absurd (he rfl) Bool.false_ne_true
          rw [hearly] at hp
          simp only [Client.onSender, hfin, Client.initiateCloseConnection, Bool.false_eq_true,
            if_false, Client.handle, Client.block]
          refine ⟨s', by simpa [hout] using hs, .inl ⟨fun hu ↦ hr ▸ h.told hu, h.peer, ?_⟩⟩
          refine .waiting rfl hp ?_ ⟨_, rfl⟩ (.of_kept c.socket hk)
          rw [GoBackNSender.returnedSequenceNumber, hfields.next, hfields.offset, Nat.add_comm]
      | @told s' hs hp hfields hk hfin =>
          simp only [Client.onSender, hfin, Client.initiateCloseConnection, if_true]
          have hseq : g.returnedSequenceNumber = ⟨offset + s'.next - 1, .goBackN⟩ := by
            rw [GoBackNSender.returnedSequenceNumber, hfields.next, hfields.offset, Nat.add_comm]
            rfl
          obtain ⟨hended, hpeer, htells⟩ := client_completes
            (s := { s' with reported := true })
            (c := { c with
              sequenceNumber := g.returnedSequenceNumber
              ackNumber := some g.ackNumber
              file := FileHandler.close c.file
              socket := c.socket.saveState g.lastRawPacket c.serverAddress })
            hproto hport htask hout h.peer ⟨_, rfl⟩ hseq
          exact ⟨_, hs true _ htells, .inl ⟨fun _ ↦ rfl, hpeer, .ended hended⟩⟩
  | raised he => exact client_dies h hout he htask
  | chaos hs => exact ⟨_, hs _, .inr rfl⟩

/-- A client that closes the connection in its turn. -/
theorem client_finalizes (hproto : cfg.protocolVersion = .goBackN) (hport : peer.port ≠ 0)
    (hs : s.phase = .closing false) (hpeer : c.serverAddress = peer)
    (hack : ∃ a, c.ackNumber = some a)
    (hseq : c.sequenceNumber = ⟨SequenceNumber.stepGbn (offset + s.next - 1), .goBackN⟩)
    (hout : ∀ o ∈ (c.outbox.to peer).map toData, Sender.Says (transfer content first offset) s o) :
    ∃ c', Client.swallow (Client.handleConnectionFinalization cfg now .exceptClause c) = c' ∧
      c'.reports = c.reports ∧ c'.serverAddress = peer ∧
      (∀ o ∈ (c'.outbox.to peer).map toData, Sender.Says (transfer content first offset) s o) ∧
      ClientSendsAt (transfer content first offset) c' s := by
  obtain ⟨a, hack⟩ := hack
  have htells : ∀ isFin raw, toData raw = some ⟨c.sequenceNumber.value, isFin, []⟩ →
      Sender.Says (transfer content first offset) s (toData raw) := by
    intro isFin raw hdata
    rw [hdata, hseq]
    exact .control rfl rfl fun _ ↦ by rw [hs]; nofun
  have hserver : c.serverAddress.port ≠ 0 := hpeer ▸ hport
  rw [Client.handleConnectionFinalization_eq hserver, Client.sendFinalization]
  rcases client_send hproto hserver hack true false cfg.myAddress.port with ⟨raw, hok, henc⟩ | herr
  · have hdata := (of_encode henc).1
    have hout₁ : ∀ o ∈ ((c.handed raw).outbox.to peer).map toData,
        Sender.Says (transfer content first offset) s o :=
      client_handed hpeer hout (htells false raw hdata)
    simp only [Client.sendAck, hok, Client.sendFin, bind, Except.bind]
    rcases client_send (c := c.handed raw) hproto hserver hack false true
      (c.handed raw).serverAddress.port with ⟨raw', hok', henc'⟩ | herr'
    · have hsaid := htells true raw' (of_encode henc').1
      refine ⟨_, rfl, ?_⟩
      rw [hok']
      refine ⟨rfl, hpeer, client_handed (c := c.handed raw) hpeer hout₁ hsaid, .finalizing rfl hs ?_⟩
      rintro _ ⟨⟩
      exact hsaid
    · refine ⟨_, rfl, ?_⟩
      rw [herr']
      exact ⟨rfl, hpeer, hout₁, .ended rfl⟩
  · refine ⟨_, rfl, ?_⟩
    simp only [Client.sendAck, herr, bind, Except.bind, Client.swallow]
    exact ⟨rfl, hpeer, hout, .ended rfl⟩

theorem client_stutters (h : ClientSends (transfer content first offset) peer c s)
    (hout : c.outbox = []) : ClientAnswers (transfer content first offset) peer s i c :=
  ⟨s, by simpa [hout] using Sender.Step.stutter s i, .inl h⟩

/-- What an event makes of `send_file`, if anything. -/
def clientSendFile (cfg : Client.Config) (g : GoBackNSender) (ev : Event) :
    Option GoBackNSender.Result :=
  match g.point with
  | .waitForAck startTime =>
      (SocketGbn.recvfrom commsBufferSize ev).map fun received ↦
        g.awaitAckPhaseClient (received.bind fun r ↦ ClientProtocolGbn.waitForAck r.1 r.2)
          (ev.now - startTime)
  | _ =>
      match ev with
      | .proceed now => some (g.proceed cfg.myAddress.port now)
      | _ => none

theorem client_listenSender_eq (g : GoBackNSender) (c : Client) (ev : Event) :
    Client.listenSender cfg g c ev =
      (clientSendFile cfg g ev).elim (.ok c) (Client.onSender cfg ev.now c) := by
  unfold Client.listenSender clientSendFile
  cases g.point with
  | waitForAck t => cases SocketGbn.recvfrom commsBufferSize ev <;> rfl
  | sendPacketsInWindow | awaitAckPhase => cases ev <;> rfl

theorem Tracks.clientSendFile {g : GoBackNSender}
    (ht : Tracks (transfer content first offset) g s) {j : Option Bytes} {ev : Event}
    (hev : ev ∈ arrivals peer j) {r : GoBackNSender.Result}
    (hr : Gbn.clientSendFile cfg g ev = some r) :
    Follows (transfer content first offset) false s (j.map toReply) r := by
  unfold Gbn.clientSendFile at hr
  cases hg : g.point with
  | waitForAck t =>
      rw [hg] at hr
      cases j with
      | some raw =>
          obtain ⟨now, rfl⟩ := hev
          obtain rfl := Option.some.inj hr
          exact ht.awaitAckPhaseClient hg raw peer _
      | none =>
          obtain ⟨now, rfl | rfl⟩ := hev
          · obtain rfl := Option.some.inj hr
            exact ht.timeoutStep (by rw [ht.phase, hg, phaseOf])
          · cases hr
  | sendPacketsInWindow | awaitAckPhase =>
      rw [hg] at hr
      cases j with
      | some raw =>
          obtain ⟨now, rfl⟩ := hev
          cases hr
      | none =>
          obtain ⟨now, rfl | rfl⟩ := hev
          · cases hr
          · obtain rfl := Option.some.inj hr
            exact ht.proceed _ now

/-- A step inside `send_file`. -/
theorem client_listenSender (hproto : cfg.protocolVersion = .goBackN) (hport : peer.port ≠ 0)
    (htask : ∃ src name, cfg.task = .upload src name)
    (h : ClientSends (transfer content first offset) peer c s) (hout : c.outbox = [])
    {g : GoBackNSender} (ht : Tracks (transfer content first offset) g s) {j : Option Bytes}
    {ev : Event} (hev : ev ∈ arrivals peer j) :
    ClientAnswers (transfer content first offset) peer s (j.map toReply)
      (Client.handle cfg ev.now (Client.listenSender cfg g c ev)) := by
  rw [client_listenSender_eq]
  cases hr : clientSendFile cfg g ev with
  | none => exact client_stutters h hout
  | some r => exact client_onSender hproto hport htask h hout (ht.clientSendFile hev hr)

/-- A packet that a wrapped receive gets is the one that arrived. -/
theorem arrival {peer : Address} {j : Option Bytes} {ev : Event} (hev : ev ∈ arrivals peer j)
    {r : ReListen} {socket : SocketSaw} {n : Nat} {raw : Bytes} {source : Option Address}
    (h : r.recvfrom socket n ev = .packet raw source) :
    ∃ raw', j = some raw' ∧ raw = raw'.take n ∧ source = some peer := by
  obtain ⟨raw', now, rfl, rfl⟩ := ReListen.recvfrom_packet h
  cases j with
  | some raw'' =>
      obtain ⟨now', heq⟩ := hev
      obtain ⟨rfl, rfl, rfl⟩ := Event.datagram.inj heq
      exact ⟨_, rfl, rfl, rfl⟩
  | none =>
      obtain ⟨now', heq | heq⟩ := hev <;> cases heq

/-- The answer an end that closes has waited for. -/
theorem toReply_of_ack {raw : Bytes} (hraw : raw.take commsBufferSize ≠ []) {n : Nat}
    (hn : (PacketParser.getPacketFromBytes (raw.take commsBufferSize)).ackNumber = some n) :
    ∃ bare, toReply raw = some
      ⟨(PacketParser.getPacketFromBytes (raw.take commsBufferSize)).sequenceNumber, n, bare⟩ := by
  rw [toReply, if_neg (mt take_comms_eq_nil.mpr hraw)]
  simp only [hn, Option.map_some]
  exact ⟨_, rfl⟩

/-- A step in `initiate_close_connection`. -/
theorem client_initiateClose (hproto : cfg.protocolVersion = .goBackN) (hport : peer.port ≠ 0)
    (htask : ∃ src name, cfg.task = .upload src name)
    (h : ClientSends (transfer content first offset) peer c s) (hout : c.outbox = [])
    (hp : c.point = .initiateCloseConnection) (hs : s.phase = .closing false)
    (hseq : c.sequenceNumber = ⟨offset + s.next - 1, .goBackN⟩) {a : SequenceNumber}
    (hack : c.ackNumber = some a) (hr : Repeats (transfer content first offset) s c.socket)
    {j : Option Bytes} {ev : Event} (hev : ev ∈ arrivals peer j) :
    ClientAnswers (transfer content first offset) peer s (j.map toReply)
      (Client.handle cfg ev.now (c.listen (ClientProtocol.waitForFinOrAck c.sequenceNumber
        c.ackNumber) ev (Client.onFinOrAck cfg))) := by
  have hspec := reListens (ClientProtocol.waitForFinOrAck c.sequenceNumber c.ackNumber) c.socket
    c.listening ev
  have htells := fun b ↦ hr.retransmission b peer
  unfold Client.listen
  generalize reListenIfFailed (ClientProtocol.waitForFinOrAck c.sequenceNumber c.ackNumber) c.socket
    c.listening ev = l at hspec
  have hboth : ∀ b, ∀ o ∈ ((c.retransmit b).outbox.to peer).map toData,
      Sender.Says (transfer content first offset) s o := by
    intro b o ho
    simp only [Client.retransmit, hout, List.nil_append] at ho
    exact htells b o ho
  have listening : ∀ b r, ClientAnswers (transfer content first offset) peer s (j.map toReply)
      (Client.handle cfg ev.now (.ok { c.retransmit b with listening := r })) := fun b r ↦
    ⟨s, .say _ hs (hboth b), .inl ⟨h.told, h.peer, .waiting hp hs hseq ⟨a, hack⟩ hr⟩⟩
  have failed : ∀ b e, (ClientProtocol.waitForFinOrAck c.sequenceNumber c.ackNumber).Raises e →
      ClientAnswers (transfer content first offset) peer s (j.map toReply)
        (Client.handle cfg ev.now (Client.onFinOrAck cfg (c.retransmit b) (.error e))) := by
    intro b e he
    have hcls := ClientProtocol.waitForFinOrAck_raises he
    obtain ⟨src, name, htask⟩ := htask
    unfold Client.onFinOrAck
    dsimp only
    split
    · exact ⟨s, .say _ hs (hboth b), .inl ⟨h.told, h.peer, .ended rfl⟩⟩
    · by_cases hlost : e.cls = .connectionLost
      · have hclose : Client.closesConnection cfg e.cls = true := by
          simp [Client.closesConnection, htask, hlost]
        simp only [Client.handle, hclose, if_true]
        obtain ⟨c', hc', hrep, hpeer, hsaid, hat⟩ := client_finalizes
          (c := (c.retransmit b).stepSequence.stepAck) hproto hport hs h.peer
          ⟨a.step, by simp [Client.stepAck, Client.stepSequence, Client.retransmit, hack]⟩
          (by simp [Client.stepAck, Client.stepSequence, Client.retransmit, hseq]) (hboth b)
        rw [hc']
        exact ⟨s, .say _ hs hsaid, .inl ⟨fun hu ↦ h.told (by rwa [hrep] at hu), hpeer, hat⟩⟩
      · have hclose : Client.closesConnection cfg e.cls = false := by
          simp only [Client.closesConnection, htask]
          simp only [List.mem_cons, List.not_mem_nil, or_false] at hcls
          rcases hcls with he | he | he | he | he | he | he <;> simp_all
        simp only [Client.handle, hclose, Bool.false_eq_true, if_false, Client.fileCleanupAfterError,
          htask, Client.finish]
        exact ⟨s, .say _ hs (hboth b), .inl ⟨h.told, h.peer, .ended rfl⟩⟩
  cases hspec with
  | blocked => exact listening _ _
  | @returned raw source _ hrecv hc =>
      obtain ⟨raw', rfl, rfl, -⟩ := arrival hev hrecv
      obtain ⟨hne, hnum, -, hackN⟩ := ClientProtocol.waitForFinOrAck_eq_ok hc
      obtain ⟨bare, hreply⟩ := toReply_of_ack hne (hackN a (by simp [hack]))
      obtain ⟨hended, hpeer, hsaid⟩ := client_completes
        hproto hport htask hout h.peer ⟨a, hack⟩ hseq
      refine ⟨{ s with reported := true }, ?_, .inl ⟨fun _ ↦ rfl, hpeer, .ended hended⟩⟩
      rw [Option.map_some, hreply]
      exact .report _ hs (hnum.trans (by rw [hseq]; rfl)) hsaid
  | letThrough hf _ => exact failed false _ hf.raises
  | exhausted hf _ _ => exact failed true _ hf.raises
  | again => exact listening _ _

/-- A step in the receive of `handle_connection_finalization`, from an `except` clause. -/
theorem client_finalization (op : Operation Unit) (ev : Event)
    (htask : ∃ src name, cfg.task = .upload src name)
    (h : ClientSends (transfer content first offset) peer c s) (hout : c.outbox = [])
    (hp : c.point = .handleConnectionFinalization .exceptClause) (hs : s.phase = .closing false)
    (hr : Repeats (transfer content first offset) s c.socket) {j : Option (Option Reply)} :
    ClientAnswers (transfer content first offset) peer s j
      (Client.swallow (c.listen op ev (Client.onFinalization cfg ev.now .exceptClause))) := by
  obtain ⟨src, name, htask⟩ := htask
  have hspec := reListens op c.socket c.listening ev
  have htells : ∀ b, ∀ o ∈ ((c.retransmit b).outbox.to peer).map toData,
      Sender.Says (transfer content first offset) s o := by
    intro b o ho
    simp only [Client.retransmit, hout, List.nil_append] at ho
    exact hr.retransmission b peer o ho
  have listening : ∀ b r, ClientAnswers (transfer content first offset) peer s j
      (Client.swallow (.ok { c.retransmit b with listening := r })) := fun b r ↦
    ⟨s, .say _ hs (htells b), .inl ⟨h.told, h.peer, .finalizing hp hs hr⟩⟩
  have halted : ∀ b r, ClientAnswers (transfer content first offset) peer s j
      (Client.swallow (Client.onFinalization cfg ev.now .exceptClause (c.retransmit b) r)) := by
    intro b r
    have finished : ClientAnswers (transfer content first offset) peer s j
        (Client.fileCleanupAfterError cfg (c.retransmit b)).finish := by
      rw [Client.fileCleanupAfterError, htask]
      exact ⟨s, .say _ hs (htells b), .inl ⟨h.told, h.peer, .ended rfl⟩⟩
    cases r with
    | ok => exact finished
    | error e =>
        simp only [Client.onFinalization]
        split
        · exact finished
        · exact ⟨s, .say _ hs (htells b), .inl ⟨h.told, h.peer, .ended rfl⟩⟩
  unfold Client.listen
  generalize reListenIfFailed op c.socket c.listening ev = l at hspec
  cases hspec with
  | blocked => exact listening _ _
  | @returned _ _ u _ _ =>
      have := halted false (.ok u)
      simpa [Client.retransmit] using this
  | letThrough => exact halted false _
  | exhausted => exact halted true _
  | again => exact listening _ _

/-- Every step of a client that sends a file is a step of the window, or none is needed. -/
theorem client_sends_step (hproto : cfg.protocolVersion = .goBackN) (hport : peer.port ≠ 0)
    (htask : ∃ src name, cfg.task = .upload src name)
    (h : ClientSends (transfer content first offset) peer c s) {j : Option Bytes} {ev : Event}
    (hev : ev ∈ arrivals peer j) :
    ClientAnswers (transfer content first offset) peer s (j.map toReply) (c.step cfg ev) := by
  have h' : ClientSends (transfer content first offset) peer { c with outbox := [] } s := by
    refine ⟨h.told, h.peer, ?_⟩
    cases h.at_point with
    | sending hp ht => exact .sending hp ht
    | waiting hp hs hseq hack hr => exact .waiting hp hs hseq hack hr
    | finalizing hp hs hr => exact .finalizing hp hs hr
    | ended hp => exact .ended hp
  cases h.at_point with
  | @sending g hp ht =>
      have := client_listenSender hproto hport htask h' rfl ht hev
      simpa [Client.step, hp, Client.onEvent] using this
  | waiting hp hs hseq hack hr =>
      obtain ⟨a, hack⟩ := hack
      have := client_initiateClose hproto hport htask h' rfl hp hs hseq hack hr hev
      simpa [Client.step, hp, Client.onEvent] using this
  | finalizing hp hs hr =>
      have := client_finalization
        ((ClientProtocol.waitForFinOrAck c.sequenceNumber c.ackNumber).letThrough [.connectionLost])
        ev htask h' rfl hp hs hr (j := j.map toReply)
      simpa [Client.step, hp, Client.onEvent] using this
  | ended hp =>
      have := client_stutters (i := j.map toReply) h' rfl
      simpa [Client.step, hp, Client.onEvent, Client.handle] using this

/-- The client of an upload refines the sender. -/
def clientRefines (content : Bytes) (first offset : Nat) (peer : Address)
    (hport : peer.port ≠ 0) (hproto : cfg.protocolVersion = .goBackN)
    (htask : ∃ src name, cfg.task = .upload src name) :
    Refines (Client.node cfg peer) (Sender.node (transfer content first offset)) toReply toData where
  rel c s := ClientSends (transfer content first offset) peer c s ∨ s.phase = .chaos
  step := by
    rintro c s j c' outs (h | h) ⟨ev, hev, hstep⟩
    · obtain ⟨rfl, rfl⟩ := Prod.mk.inj hstep
      exact client_sends_step hproto hport htask h hev
    · exact ⟨s, .chaos _ h _, .inr h⟩

end Client

/-! ## The connection of a download -/

section Server

open Server

/-- Where a connection stands once `send_file` is entered. -/
inductive ServerSendsAt (P : Transfer UInt8) (c : ClientConnection) (s : Sender) : Prop
  | sending {g : GoBackNSender} (hp : c.point = .sendFileGbn g) (h : Tracks P g s)
  | waiting (early : Bool) (hp : c.point = .closingHandshakeForDownload)
      (hs : s.phase = .closing early)
      (hseq : c.sequenceNumber = ⟨P.offset + s.next - 1, .goBackN⟩)
      (hack : ∃ a, c.ackNumber = some a) (hr : Repeats P s c.socket)
  | ended (hp : c.point = .ended)

structure ServerSends (P : Transfer UInt8) (c : ClientConnection) (s : Sender) : Prop where
  told : .fileTransferComplete ∈ c.reports → s.reported = true
  at_point : ServerSendsAt P c s

/-- The answer of a machine step to the window's question. -/
def ServerAnswers (P : Transfer UInt8) (cfg : Config) (s : Sender) (i : Option (Option Reply))
    (c : ClientConnection) : Prop :=
  ∃ s', Sender.Step P s i s' ((c.outbox.to cfg.clientAddress).map toData) ∧
    (ServerSends P c s' ∨ s'.phase = .chaos)

variable {cfg : Config} {c : ClientConnection} {s : Sender} {i : Option (Option Reply)} {now : Time}

/-- Sending a packet without data. -/
theorem server_send (hproto : cfg.protocolVersion = .goBackN) {a : SequenceNumber}
    (hack : c.ackNumber = some a) (isAck isFin : Bool) :
    (∃ raw, c.send cfg isAck isFin [] =
        .ok { c with
          socket := c.socket.saveState (some raw) cfg.clientAddress
          outbox := c.outbox ++ [(raw, cfg.clientAddress)] } ∧
        Protocol.encode .goBackN c.sequenceNumber (some a) isAck false isFin cfg.address.port [] =
          .ok raw) ∨
      c.send cfg isAck isFin [] = .error (ExnClass.structError.exn, c) := by
  rw [ClientConnection.send_eq_encode]
  rw [hproto, hack]
  rcases Protocol.encode_gbn c.sequenceNumber a isAck false isFin cfg.address.port [] with
    ⟨raw, hok, -, -⟩ | herr
  · exact .inl ⟨raw, by rw [hok, ← hack]; rfl, hok⟩
  · exact .inr (by rw [herr])

theorem server_dies (h : ServerSends (transfer content first offset) c s) {e : Exn}
    (hout : c.outbox = []) (he : e.cls ≠ .connectionClosingNeeded) :
    ServerAnswers (transfer content first offset) cfg s i
      (ClientConnection.handle cfg now (.error (e, c))) := by
  obtain ⟨state, disk, hend⟩ := ClientConnection.handle_error cfg now c he
  rw [hend]
  refine ⟨{ s with phase := .dead }, ?_, .inl ⟨h.told, .ended rfl⟩⟩
  simpa [hout] using Sender.Step.die s i

/-- The end of a download that is told, or takes it, that all is done. -/
theorem server_completes (hproto : cfg.protocolVersion = .goBackN) (hout : c.outbox = [])
    (hack : ∃ a, c.ackNumber = some a) (hseq : c.sequenceNumber = ⟨offset + s.next - 1, .goBackN⟩) :
    (ClientConnection.handle cfg now (ClientConnection.completeDownload cfg c)).point = .ended ∧
      ∀ o ∈ ((ClientConnection.handle cfg now
          (ClientConnection.completeDownload cfg c)).outbox.to cfg.clientAddress).map toData,
        Sender.Says (transfer content first offset) s o := by
  obtain ⟨a, hack⟩ := hack
  rcases server_send (c := (c.report .fileTransferComplete).stepSequence) hproto hack true false with
    ⟨raw, hok, henc⟩ | herr
  · have hdata := (of_encode henc).1
    simp only [ClientConnection.completeDownload, ClientConnection.sendAck, hok, bind, Except.bind,
      pure, Except.pure, ClientConnection.handle, ClientConnection.finish]
    refine ⟨trivial, ?_⟩
    simp only [ClientConnection.stepSequence, ClientConnection.report, hout, List.nil_append,
      Outbox.to_cons_self, Outbox.to_nil, List.map_cons, List.map_nil, List.mem_singleton]
    rintro o rfl
    rw [hdata]
    refine .control ?_ rfl fun h ↦ absurd h Bool.false_ne_true
    simp only [ClientConnection.stepSequence, ClientConnection.report, hseq]
    rfl
  · obtain ⟨state, disk, hend⟩ := ClientConnection.handle_error cfg now
      (c.report .fileTransferComplete).stepSequence (e := ExnClass.structError.exn) (by decide)
    simp only [ClientConnection.completeDownload, ClientConnection.sendAck, herr, bind, Except.bind,
      hend]
    exact ⟨trivial, by simp [ClientConnection.stepSequence, ClientConnection.report, hout]⟩

/-- The connection goes on with `send_file`, or with closing. -/
theorem server_onSender (hproto : cfg.protocolVersion = .goBackN)
    (h : ServerSends (transfer content first offset) c s) (hout : c.outbox = [])
    {result : GoBackNSender.Result}
    (hf : Follows (transfer content first offset) true s i result) :
    ServerAnswers (transfer content first offset) cfg s i
      (ClientConnection.handle cfg now (ClientConnection.onSender cfg now c result)) := by
  cases hf with
  | @running g s' sent hs hr ht =>
      refine ⟨s', ?_, .inl ⟨fun hu ↦ hr ▸ h.told hu, .sending rfl ht⟩⟩
      simp only [ClientConnection.onSender, ClientConnection.handle, hout, List.nil_append]
      cases sent with
      | none => simpa using hs
      | some raw => simpa using hs
  | @returned g hret =>
      cases hret with
      | @done s' early he hs hp hr hfields hk hfin =>
          simp only [ClientConnection.onSender, hfin, ClientConnection.closingHandshakeForDownload,
            Bool.false_eq_true, if_false, ClientConnection.handle, ClientConnection.block]
          refine ⟨s', by simpa [hout] using hs, .inl ⟨fun hu ↦ hr ▸ h.told hu, ?_⟩⟩
          refine .waiting early rfl hp ?_ ⟨_, rfl⟩ (.of_kept c.socket hk)
          rw [GoBackNSender.returnedSequenceNumber, hfields.next, hfields.offset, Nat.add_comm]
      | @told s' hs hp hfields hk hfin =>
          simp only [ClientConnection.onSender, hfin, ClientConnection.closingHandshakeForDownload,
            if_true]
          have hseq : g.returnedSequenceNumber = ⟨offset + s'.next - 1, .goBackN⟩ := by
            rw [GoBackNSender.returnedSequenceNumber, hfields.next, hfields.offset, Nat.add_comm]
            rfl
          obtain ⟨hended, htells⟩ := server_completes
            (s := { s' with reported := true })
            (c := { c with
              sequenceNumber := g.returnedSequenceNumber
              ackNumber := some g.ackNumber
              file := c.file.map FileHandler.close
              socket := c.socket.saveState g.lastRawPacket cfg.clientAddress })
            hproto hout ⟨_, rfl⟩ hseq
          exact ⟨_, hs true _ htells, .inl ⟨fun _ ↦ rfl, .ended hended⟩⟩
  | raised he =>
      refine server_dies h hout fun hc ↦ ?_
      rw [hc] at he
      revert he
      decide
  | chaos hs => exact ⟨_, hs _, .inr rfl⟩

theorem server_stutters (h : ServerSends (transfer content first offset) c s)
    (hout : c.outbox = []) : ServerAnswers (transfer content first offset) cfg s i c :=
  ⟨s, by simpa [hout] using Sender.Step.stutter s i, .inl h⟩

/-- What an event makes of `send_file`, if anything. -/
def serverSendFile (cfg : Config) (g : GoBackNSender) (ev : Event) :
    Option GoBackNSender.Result :=
  match g.point with
  | .waitForAck startTime =>
      (SocketGbn.recvfrom commsBufferSize ev).map fun received ↦
        g.awaitAckPhaseServer (received.bind fun r ↦ ServerProtocolGbn.waitForAck g.ackNumber r.1 r.2)
          (ev.now - startTime)
  | _ =>
      match ev with
      | .proceed now => some (g.proceed cfg.address.port now)
      | _ => none

theorem server_listenSender_eq (g : GoBackNSender) (c : ClientConnection) (ev : Event) :
    ClientConnection.listenSender cfg g c ev =
      (serverSendFile cfg g ev).elim (.ok c) (ClientConnection.onSender cfg ev.now c) := by
  unfold ClientConnection.listenSender serverSendFile
  cases g.point with
  | waitForAck t => cases SocketGbn.recvfrom commsBufferSize ev <;> rfl
  | sendPacketsInWindow | awaitAckPhase => cases ev <;> rfl

theorem Tracks.serverSendFile {g : GoBackNSender}
    (ht : Tracks (transfer content first offset) g s) {j : Option Bytes} {ev : Event}
    (hev : ev ∈ arrivals cfg.clientAddress j) {r : GoBackNSender.Result}
    (hr : Gbn.serverSendFile cfg g ev = some r) :
    Follows (transfer content first offset) true s (j.map toReply) r := by
  unfold Gbn.serverSendFile at hr
  cases hg : g.point with
  | waitForAck t =>
      rw [hg] at hr
      cases j with
      | some raw =>
          obtain ⟨now, rfl⟩ := hev
          obtain rfl := Option.some.inj hr
          exact ht.awaitAckPhaseServer hg raw cfg.clientAddress _
      | none =>
          obtain ⟨now, rfl | rfl⟩ := hev
          · obtain rfl := Option.some.inj hr
            exact ht.timeoutStep (by rw [ht.phase, hg, phaseOf])
          · cases hr
  | sendPacketsInWindow | awaitAckPhase =>
      rw [hg] at hr
      cases j with
      | some raw =>
          obtain ⟨now, rfl⟩ := hev
          cases hr
      | none =>
          obtain ⟨now, rfl | rfl⟩ := hev
          · cases hr
          · obtain rfl := Option.some.inj hr
            exact ht.proceed _ now

/-- A step inside `send_file`. -/
theorem server_listenSender (hproto : cfg.protocolVersion = .goBackN)
    (h : ServerSends (transfer content first offset) c s) (hout : c.outbox = [])
    {g : GoBackNSender} (ht : Tracks (transfer content first offset) g s) {j : Option Bytes}
    {ev : Event} (hev : ev ∈ arrivals cfg.clientAddress j) :
    ServerAnswers (transfer content first offset) cfg s (j.map toReply)
      (ClientConnection.handle cfg ev.now (ClientConnection.listenSender cfg g c ev)) := by
  rw [server_listenSender_eq]
  cases hr : serverSendFile cfg g ev with
  | none => exact server_stutters h hout
  | some r => exact server_onSender hproto h hout (ht.serverSendFile hev hr)

/-- A step in `closing_handshake_for_download`. -/
theorem server_closingDownload (hproto : cfg.protocolVersion = .goBackN)
    (h : ServerSends (transfer content first offset) c s) (hout : c.outbox = []) {early : Bool}
    (hp : c.point = .closingHandshakeForDownload) (hs : s.phase = .closing early)
    (hseq : c.sequenceNumber = ⟨offset + s.next - 1, .goBackN⟩) {a : SequenceNumber}
    (hack : c.ackNumber = some a) (hr : Repeats (transfer content first offset) s c.socket)
    {j : Option Bytes} {ev : Event} (hev : ev ∈ arrivals cfg.clientAddress j) :
    ServerAnswers (transfer content first offset) cfg s (j.map toReply)
      (ClientConnection.handle cfg ev.now (c.listen (ServerProtocol.waitForFinOrAck c.sequenceNumber)
        ev (ClientConnection.onSuccess fun c _ ↦ ClientConnection.completeDownload cfg c))) := by
  have hspec := reListens (ServerProtocol.waitForFinOrAck c.sequenceNumber) c.socket c.listening ev
  have htells : ∀ b, ∀ o ∈ ((c.retransmit b).outbox.to cfg.clientAddress).map toData,
      Sender.Says (transfer content first offset) s o := by
    intro b o ho
    simp only [ClientConnection.retransmit, hout, List.nil_append] at ho
    exact hr.retransmission b _ o ho
  have listening : ∀ b r, ServerAnswers (transfer content first offset) cfg s (j.map toReply)
      (ClientConnection.handle cfg ev.now (.ok { c.retransmit b with listening := r })) := fun b r ↦
    ⟨s, .say _ hs (htells b), .inl ⟨h.told, .waiting early hp hs hseq ⟨a, hack⟩ hr⟩⟩
  have failed : ∀ b e, (ServerProtocol.waitForFinOrAck c.sequenceNumber).Raises e →
      ServerAnswers (transfer content first offset) cfg s (j.map toReply)
        (ClientConnection.handle cfg ev.now (.error (e, c.retransmit b))) := by
    intro b e he
    obtain ⟨state, disk, hend⟩ := ClientConnection.handle_error cfg ev.now (c.retransmit b)
      (ClientConnection.receiveRaises_ne (ServerProtocol.waitForFinOrAck_raises he))
    rw [hend]
    exact ⟨s, .say _ hs (htells b), .inl ⟨h.told, .ended rfl⟩⟩
  unfold ClientConnection.listen
  generalize reListenIfFailed (ServerProtocol.waitForFinOrAck c.sequenceNumber) c.socket c.listening
    ev = l at hspec
  cases hspec with
  | blocked => exact listening _ _
  | @returned raw source _ hrecv hc =>
      obtain ⟨raw', rfl, rfl, -⟩ := arrival hev hrecv
      obtain ⟨hne, hnum, -⟩ := ServerProtocol.waitForFinOrAck_eq_ok hc
      obtain ⟨hended, hsaid⟩ := server_completes
        hproto hout ⟨a, hack⟩ hseq
      cases hreply : toReply raw' with
      | none => exact ⟨_, by rw [Option.map_some, hreply]; exact .garbage s _, .inr rfl⟩
      | some r =>
          have hrnum : r.number = offset + s.next - 1 := by
            rw [toReply, if_neg (mt take_comms_eq_nil.mpr hne), Option.map_eq_some_iff] at hreply
            obtain ⟨n, -, rfl⟩ := hreply
            exact hnum.trans (by rw [hseq])
          refine ⟨{ s with reported := true }, ?_, .inl ⟨fun _ ↦ rfl, .ended hended⟩⟩
          rw [Option.map_some, hreply]
          exact .report _ hs hrnum hsaid
  | letThrough hf _ => exact failed false _ hf.raises
  | exhausted hf _ _ => exact failed true _ hf.raises
  | again => exact listening _ _

/-- Every step of a connection that sends a file is a step of the window, or none is needed. -/
theorem server_sends_step (hproto : cfg.protocolVersion = .goBackN)
    (h : ServerSends (transfer content first offset) c s) {j : Option Bytes} {ev : Event}
    (hev : ev ∈ arrivals cfg.clientAddress j) :
    ServerAnswers (transfer content first offset) cfg s (j.map toReply) (c.step cfg ev) := by
  have h' : ServerSends (transfer content first offset) { c with outbox := [] } s := by
    refine ⟨h.told, ?_⟩
    cases h.at_point with
    | sending hp ht => exact .sending hp ht
    | waiting early hp hs hseq hack hr => exact .waiting early hp hs hseq hack hr
    | ended hp => exact .ended hp
  cases h.at_point with
  | @sending g hp ht =>
      have := server_listenSender hproto h' rfl ht hev
      simpa [ClientConnection.step, hp, ClientConnection.onEvent] using this
  | waiting early hp hs hseq hack hr =>
      obtain ⟨a, hack⟩ := hack
      have := server_closingDownload hproto h' rfl hp hs hseq hack hr hev
      simpa [ClientConnection.step, hp, ClientConnection.onEvent] using this
  | ended hp =>
      have : ServerAnswers (transfer content first offset) cfg s (j.map toReply) _ :=
        server_stutters h' rfl
      simpa [ClientConnection.step, hp, ClientConnection.onEvent, ClientConnection.handle] using this

/-- The connection of a download refines the sender. -/
def serverRefines (content : Bytes) (first offset : Nat)
    (hproto : cfg.protocolVersion = .goBackN) :
    Refines (ClientConnection.node cfg) (Sender.node (transfer content first offset)) toReply
      toData where
  rel c s := ServerSends (transfer content first offset) c s ∨ s.phase = .chaos
  step := by
    rintro c s j c' outs (h | h) ⟨ev, hev, hstep⟩
    · obtain ⟨rfl, rfl⟩ := Prod.mk.inj hstep
      exact server_sends_step hproto h hev
    · exact ⟨s, .chaos _ h _, .inr h⟩

end Server

end Rdt.Gbn
