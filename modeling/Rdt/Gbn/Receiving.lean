import Rdt.Gbn.Receiver
import Rdt.Gbn.Sending

/-! # The ends that receive a file refine the receiver of the sliding window -/

namespace Rdt.Gbn

open Duplex SlidingWindow

variable {content : Bytes} {first offset : Nat}

/-- Sent packets that may be sent again by an end that is through. -/
def Closing (n : Nat) (socket : SocketSaw) : Prop :=
  ∀ raw ∈ socket.lastRawPacket, Receiver.Closes n (toReply raw)

theorem Closing.retransmission {n : Nat} {socket : SocketSaw} (h : Closing n socket) (b : Bool)
    (peer : Address) :
    ∀ o ∈ ((if b then socket.retransmission else []).to peer).map toReply,
      Receiver.Closes n o := by
  intro o ho
  obtain ⟨raw, hraw, rfl⟩ := List.mem_map.mp ho
  exact h raw (SocketSaw.mem_retransmission hraw)

/-- What a datagram says that is not empty. -/
theorem toData_of_ne_nil {raw : Bytes} (h : raw ≠ []) :
    toData raw = some ⟨(PacketParser.getPacketFromBytes (raw.take fullBufferSize)).sequenceNumber,
      (PacketParser.getPacketFromBytes (raw.take fullBufferSize)).isFin,
      (PacketParser.getPacketFromBytes (raw.take fullBufferSize)).data⟩ := if_neg h

theorem take_full_eq_nil {raw : Bytes} : raw.take fullBufferSize = [] ↔ raw = [] := by
  simp [List.take_eq_nil_iff, fullBufferSize]

/-- The answers of `receive_file`, once they are on the wire. -/
def Answers (n : Nat) (peer : Address) (replies : List GoBackNReceiver.Reply) (out : Outbox) :
    Prop :=
  (∀ o ∈ (out.to peer).map toReply, Receiver.Names n o) ∧ (replies = [] → out = [])

/-! ## The connection of an upload -/

section Server

open Server

inductive ServerReceivesAt (c : ClientConnection) (t : Receiver UInt8) : Prop
  | receiving {r : GoBackNReceiver} (hp : c.point = .receiveFileGbn r) (h : Reads r t)
  | closing (hp : c.point = .closingHandshakeForUpload) (ht : t.phase = .finished)
      (hr : Closing t.number c.socket)
  | ended (hp : c.point = .ended) (ht : t.phase ≠ .loop)

structure ServerReceives (c : ClientConnection) (t : Receiver UInt8) : Prop where
  file : ∃ f, c.file = some f ∧ received f = t.pieces
  told : .connectionFinalizationReceived ∈ c.reports → t.phase = .finished
  at_point : ServerReceivesAt c t

/-- The answer of a machine step to the receiver's question. -/
def ServerTakes (P : Transfer UInt8) (cfg : Config) (t : Receiver UInt8)
    (i : Option (Option (Data UInt8))) (c : ClientConnection) : Prop :=
  ∃ t', Receiver.Step P t i t' ((c.outbox.to cfg.clientAddress).map toReply) ∧
    (ServerReceives c t' ∨ t'.phase = .chaos)

variable {cfg : Config} {c : ClientConnection} {t : Receiver UInt8} {r : GoBackNReceiver}
  {i : Option (Option (Data UInt8))} {now : Time}

theorem server_sendReply (h : Reads r t) {reply : GoBackNReceiver.Reply}
    (hreply : reply = .sendAck ⟨t.number, .goBackN⟩ ⟨t.number, .goBackN⟩ ∨
      reply = .resendLast ∧ r.point = .receiveFirstChunk) :
    (∃ out, ClientConnection.sendReply cfg r c reply = .ok { c with outbox := c.outbox ++ out } ∧
        ∀ o ∈ (out.to cfg.clientAddress).map toReply, Receiver.Names t.number o) ∨
      ClientConnection.sendReply cfg r c reply = .error (ExnClass.structError.exn, c) ∧
        reply ≠ .resendLast := by
  rcases hreply with rfl | ⟨rfl, hpoint⟩
  · rcases Protocol.encode_gbn ⟨t.number, .goBackN⟩ ⟨t.number, .goBackN⟩ true false false
      cfg.address.port [] with ⟨raw, hok, -, -⟩ | herr
    · refine .inl ⟨[(raw, cfg.clientAddress)], by simp [ClientConnection.sendReply, hok], ?_⟩
      simp [(of_encode hok).2, Receiver.Names]
    · exact .inr ⟨by simp [ClientConnection.sendReply, herr], nofun⟩
  · refine .inl ⟨_, rfl, ?_⟩
    cases hlast : r.lastTransmittedPacket with
    | none => simp
    | some raw => simpa using h.last raw hlast hpoint

theorem server_replies (h : Reads r t) {replies : List GoBackNReceiver.Reply}
    (hs : Sends t.number (r.point = .receiveFirstChunk) replies) :
    (∃ out, replies.foldlM (ClientConnection.sendReply cfg r) c =
        .ok { c with outbox := c.outbox ++ out } ∧ Answers t.number cfg.clientAddress replies out) ∨
      replies.foldlM (ClientConnection.sendReply cfg r) c =
        .error (ExnClass.structError.exn, c) := by
  cases hs with
  | none => exact .inl ⟨[], by simp [pure, Except.pure], by simp [Answers]⟩
  | ack =>
      rcases server_sendReply (c := c) h (.inl rfl) with ⟨out, hok, hout⟩ | ⟨herr, -⟩
      · exact .inl ⟨out, by simp [hok], hout, nofun⟩
      · exact .inr (by simp [herr])
  | last hpoint =>
      rcases server_sendReply (c := c) h (.inr ⟨rfl, hpoint⟩) with
        ⟨out, hok, hout⟩ | ⟨-, hne⟩
      · exact .inl ⟨out, by simp [hok], hout, nofun⟩
      · exact absurd rfl hne
  | both hpoint =>
      rcases server_sendReply (c := c) h (.inl rfl) with ⟨out, hok, hout⟩ | ⟨herr, -⟩
      · rcases server_sendReply (c := { c with outbox := c.outbox ++ out }) h
          (.inr ⟨rfl, hpoint⟩) with ⟨out', hok', hout'⟩ | ⟨-, hne⟩
        · refine .inl ⟨out ++ out', ?_, ?_, nofun⟩
          · rw [List.foldlM_cons, hok]
            refine (congrArg (· >>= _) hok').trans ?_
            simp only [List.append_assoc]
            rfl
          · intro o ho
            rw [Outbox.to_append, List.map_append, List.mem_append] at ho
            exact ho.elim (hout o) (hout' o)
        · exact absurd rfl hne
      · exact .inr (by simp [herr, bind, Except.bind])

/-- A connection that ends without a word. -/
theorem server_gives_up (h : ServerReceives c t) (hr : Reads r t) (hout : c.outbox = []) {e : Exn}
    (he : e.cls ≠ .connectionClosingNeeded) :
    ServerTakes (transfer content first offset) cfg t i
      (ClientConnection.handle cfg now (.error (e, c))) := by
  obtain ⟨state, disk, hend⟩ := ClientConnection.handle_error cfg now c he
  rw [hend]
  refine ⟨{ t with phase := .dead }, ?_,
    .inl ⟨h.file, fun hu ↦ absurd (h.told hu) hr.not_finished, .ended rfl nofun⟩⟩
  simpa [hout] using Receiver.Step.die t i

/-- A packet without data of an end that is through. -/
theorem server_tells (hproto : cfg.protocolVersion = .goBackN)
    (hseq : c.sequenceNumber = ⟨t.number, .goBackN⟩) (hack : c.ackNumber = some ⟨t.number, .goBackN⟩)
    (isAck isFin : Bool) :
    (∃ raw, c.send cfg isAck isFin [] = .ok (ClientConnection.handed cfg c raw) ∧
        Receiver.Closes t.number (toReply raw)) ∨
      c.send cfg isAck isFin [] = .error (ExnClass.structError.exn, c) := by
  refine (server_send hproto hack isAck isFin).imp_left fun ⟨raw, hok, henc⟩ ↦ ⟨raw, hok, ?_⟩
  rw [(of_encode henc).2, hseq]
  exact ⟨_, rfl⟩

/-- `receive_file` has returned. -/
theorem server_enters_closing (hproto : cfg.protocolVersion = .goBackN)
    (hfile : ∃ f, c.file = some f ∧ received f = t.pieces) (hphase : t.phase = .finished)
    (hseq : c.sequenceNumber = ⟨t.number, .goBackN⟩) (hack : c.ackNumber = some ⟨t.number, .goBackN⟩)
    (hout : c.outbox = []) :
    ∃ c', ClientConnection.handle cfg now (ClientConnection.closingHandshakeForUpload cfg now c) =
        c' ∧ ServerReceives c' t ∧
      ∀ o ∈ (c'.outbox.to cfg.clientAddress).map toReply, Receiver.Closes t.number o := by
  have fails : ∀ d : ClientConnection, d.file = c.file →
      (∀ o ∈ (d.outbox.to cfg.clientAddress).map toReply, Receiver.Closes t.number o) →
      ServerReceives (ClientConnection.handle cfg now (.error (ExnClass.structError.exn, d))) t ∧
        ∀ o ∈ ((ClientConnection.handle cfg now
          (.error (ExnClass.structError.exn, d))).outbox.to cfg.clientAddress).map toReply,
            Receiver.Closes t.number o := by
    intro d hd hsaid
    obtain ⟨state, disk, hend⟩ := ClientConnection.handle_error cfg now d
      (e := ExnClass.structError.exn) (by decide)
    rw [hend]
    exact ⟨⟨hd ▸ hfile, fun _ ↦ hphase, .ended rfl (by simp [hphase])⟩, hsaid⟩
  refine ⟨_, rfl, ?_⟩
  simp only [ClientConnection.closingHandshakeForUpload, ClientConnection.sendAck]
  rcases server_tells (c := c.report .connectionFinalizationReceived) hproto hseq hack true false with
    ⟨raw, hok, hcloses⟩ | herr
  · let d := ClientConnection.handed cfg (c.report .connectionFinalizationReceived) raw
    have hd : ∀ o ∈ (d.outbox.to cfg.clientAddress).map toReply, Receiver.Closes t.number o := by
      simpa [d, ClientConnection.handed, ClientConnection.report, hout] using hcloses
    simp only [hok, ClientConnection.sendFin, bind, Except.bind]
    rcases server_tells (c := d) hproto hseq hack false true with ⟨raw', hok', hcloses'⟩ | herr'
    · rw [hok']
      refine ⟨⟨hfile, fun _ ↦ hphase, .closing rfl hphase ?_⟩, fun o ho ↦ ?_⟩
      · rintro _ ⟨⟩
        exact hcloses'
      · simp only [ClientConnection.handle, ClientConnection.finallyDone, pure, Except.pure,
          ClientConnection.block, ClientConnection.stepSequence, ClientConnection.handed,
          Outbox.to_append, List.map_append, List.mem_append] at ho
        refine ho.elim (hd o) fun ho ↦ ?_
        simp only [Outbox.to_cons_self, Outbox.to_nil, List.map_cons, List.map_nil,
          List.mem_singleton] at ho
        exact ho ▸ hcloses'
    · rw [herr']
      exact fails { d with state := .doneReadyToDie } rfl hd
  · simp only [herr, bind, Except.bind]
    exact fails { c.report .connectionFinalizationReceived with state := .doneReadyToDie } rfl
      (by simp [ClientConnection.report, hout])

/-- What is appended to the file is what the receiver takes. -/
theorem server_appends {f : File} (hfile : c.file = some f) (hf : received f = t.pieces)
    (appended : Option Packet) :
    ∃ file disk, ClientConnection.appendTaken cfg c appended = { c with file := some file, disk } ∧
      received file = pushed t.pieces appended := by
  cases appended with
  | none => exact ⟨f, c.disk, by rw [← hfile]; rfl, hf⟩
  | some packet =>
      refine ⟨FileHandler.appendToFile f packet,
        cfg.fileHandler.flush c.disk (FileHandler.appendToFile f packet), ?_, ?_⟩
      · simp only [ClientConnection.appendTaken, ClientConnection.appendToFile, hfile]
      · rw [received_appendToFile, hf, pushed]

/-- A packet in `receive_file` -/
theorem server_onGbnPacket (hproto : cfg.protocolVersion = .goBackN) (h : ServerReceives c t)
    (hr : Reads r t) (hout : c.outbox = []) {packet : Packet}
    (hlen : packet.payloadLength = 0 → packet.data = []) :
    ServerTakes (transfer content first offset) cfg t
      (some (some ⟨packet.sequenceNumber, packet.isFin, packet.data⟩))
      (ClientConnection.handle cfg now (ClientConnection.onGbnPacket cfg now r c packet)) := by
  have htakes : Takes (transfer content first offset) r t _ _ := hr.onPacket hlen
  obtain ⟨f, hfile, hf⟩ := h.file
  unfold ClientConnection.onGbnPacket
  generalize r.onPacket packet = o at htakes
  dsimp only
  have appends := fun d : ClientConnection ↦ fun hd : d.file = some f ↦
    @server_appends cfg d t f hd hf o.appended
  cases htakes with
  | @running t' hfin hreads hpieces hsend hs =>
      rcases server_replies (c := c) hr hsend with ⟨out, hok, hsaid, hnone⟩ | herr
      · rw [hok]
        simp only [bind, Except.bind]
        obtain ⟨file, disk, happ, hrec⟩ := appends { c with
          sequenceNumber := o.receiver.sqnNumber
          ackNumber := some o.receiver.ackNumber
          point := .receiveFileGbn o.receiver
          outbox := c.outbox ++ out } hfile
        rw [happ, hfin]
        simp only [Bool.false_eq_true, if_false, pure, Except.pure, ClientConnection.handle]
        refine ⟨t', ?_, .inl ⟨⟨file, rfl, hrec.trans hpieces.symm⟩, ?_, .receiving rfl hreads⟩⟩
        · dsimp only
          rw [hout, List.nil_append]
          exact hs _ hsaid fun hnil ↦ by rw [hnone hnil]; rfl
        · exact fun hu ↦ absurd (h.told hu) hr.not_finished
      · rw [herr]
        exact server_gives_up h hr hout (by decide)
  | @returned t' hfin hreplies hphase hn ha hpieces hs =>
      rw [hreplies]
      obtain ⟨file, disk, happ, hrec⟩ := appends { c with
          sequenceNumber := o.receiver.sqnNumber
          ackNumber := some o.receiver.ackNumber
          point := .receiveFileGbn o.receiver } hfile
      simp only [List.foldlM_nil, pure, Except.pure, bind, Except.bind]
      rw [happ, hfin, if_pos rfl]
      obtain ⟨c', hc', hreceives, hsaid⟩ := server_enters_closing (t := t')
        (c := ClientConnection.closeWritten
          { c with
            file := some file, disk
            sequenceNumber := o.receiver.sqnNumber
            ackNumber := some o.receiver.ackNumber
            point := .receiveFileGbn o.receiver }) hproto
        ⟨FileHandler.close file, rfl, hrec.trans hpieces.symm⟩ hphase hn (congrArg some ha) hout
      rw [hc']
      exact ⟨t', hs _ hsaid, .inl hreceives⟩

/-- An event in `receive_file` -/
theorem server_listenReceiver (hproto : cfg.protocolVersion = .goBackN) (h : ServerReceives c t)
    (hr : Reads r t) (hout : c.outbox = []) {j : Option Bytes} {ev : Event}
    (hev : ev ∈ arrivals cfg.clientAddress j) :
    ServerTakes (transfer content first offset) cfg t (j.map toData)
      (ClientConnection.handle cfg ev.now (ClientConnection.listenReceiver cfg r c ev)) := by
  cases j with
  | some raw =>
      obtain ⟨now, rfl⟩ := hev
      simp only [ClientConnection.listenReceiver, SocketGbn.recvfrom]
      by_cases hraw : raw = []
      · subst hraw
        exact ⟨_, Receiver.Step.garbage t _, .inr rfl⟩
      · have hcheck : ServerProtocolGbn.receiveFileChunk (raw.take fullBufferSize)
            (some cfg.clientAddress) =
              .ok (PacketParser.getPacketFromBytes (raw.take fullBufferSize)) := by
          rw [ServerProtocolGbn.receiveFileChunk, ServerProtocolGbn.validateInboundPacket,
            Protocol.validateInboundPacket_of_ne_nil (mt take_full_eq_nil.mp hraw)]
          rfl
        rw [hcheck, Option.map_some, toData_of_ne_nil hraw]
        exact server_onGbnPacket hproto h hr hout PacketParser.data_eq_nil_of_payloadLength
  | none =>
      obtain ⟨now, rfl | rfl⟩ := hev
      · exact server_gives_up (e := ExnClass.connectionLost.exn) h hr hout (by decide)
      · refine ⟨t, ?_, .inl h⟩
        simpa [ClientConnection.listenReceiver, SocketGbn.recvfrom, ClientConnection.handle, hout]
          using Receiver.Step.stutter t none

/-- A step in `closing_handshake_for_upload` -/
theorem server_closingUpload (h : ServerReceives c t) (hout : c.outbox = [])
    (hp : c.point = .closingHandshakeForUpload) (ht : t.phase = .finished)
    (hr : Closing t.number c.socket) {ev : Event} :
    ServerTakes (transfer content first offset) cfg t i
      (ClientConnection.handle cfg ev.now (c.listen
        ((ServerProtocol.waitForAck c.sequenceNumber).letThrough [.connectionLost]) ev
        (ClientConnection.onClosingUpload cfg))) := by
  have hspec := reListens ((ServerProtocol.waitForAck c.sequenceNumber).letThrough
    [.connectionLost]) c.socket c.listening ev
  have tells : ∀ b (d : ClientConnection), d.outbox = (c.retransmit b).outbox → ServerReceives d t →
      ServerTakes (transfer content first offset) cfg t i d := by
    intro b d hd hrec
    refine ⟨t, .say _ ht fun o ho ↦ ?_, .inl hrec⟩
    rw [hd] at ho
    simp only [ClientConnection.retransmit, hout, List.nil_append] at ho
    exact hr.retransmission b _ o ho
  have listening : ∀ b l, ServerTakes (transfer content first offset) cfg t i
      (ClientConnection.handle cfg ev.now (.ok { c.retransmit b with listening := l })) :=
    fun b l ↦ tells b _ rfl ⟨h.file, h.told, .closing hp ht hr⟩
  have halted : ∀ b x, (∀ e, x = .error e →
      ((ServerProtocol.waitForAck c.sequenceNumber).letThrough [.connectionLost]).Raises e) →
      ServerTakes (transfer content first offset) cfg t i
        (ClientConnection.handle cfg ev.now
          (ClientConnection.onClosingUpload cfg (c.retransmit b) x)) := by
    intro b x hx
    have completed : ServerTakes (transfer content first offset) cfg t i
        ({ c.retransmit b with state := .doneReadyToDie }.report .uploadCompleted).finish :=
      tells b _ rfl ⟨h.file, fun _ ↦ ht, .ended rfl (by simp [ht])⟩
    cases x with
    | ok => exact completed
    | error e =>
        simp only [ClientConnection.onClosingUpload]
        split
        · exact completed
        · obtain ⟨state, disk, hend⟩ := ClientConnection.handle_error cfg ev.now
            { c.retransmit b with state := .doneReadyToDie }
            (ClientConnection.receiveRaises_ne (ServerProtocol.waitForAck_raises (hx e rfl)))
          rw [hend]
          exact tells b _ rfl ⟨h.file, h.told, .ended rfl (by simp [ht])⟩
  unfold ClientConnection.listen
  generalize reListenIfFailed ((ServerProtocol.waitForAck c.sequenceNumber).letThrough
    [.connectionLost]) c.socket c.listening ev = l at hspec
  cases hspec with
  | blocked => exact listening _ _
  | @returned _ _ u _ _ =>
      have := halted false (.ok u) fun _ h ↦ by cases h
      simpa [ClientConnection.retransmit] using this
  | @letThrough e hf _ => exact halted false (.error e) fun _ he ↦ Except.error.inj he ▸ hf.raises
  | @exhausted e hf _ _ => exact halted true (.error e) fun _ he ↦ Except.error.inj he ▸ hf.raises
  | again => exact listening _ _

/-- Every step of a connection that receives a file is a step of the receiver. -/
theorem server_receives_step (hproto : cfg.protocolVersion = .goBackN) (h : ServerReceives c t)
    {j : Option Bytes} {ev : Event} (hev : ev ∈ arrivals cfg.clientAddress j) :
    ServerTakes (transfer content first offset) cfg t (j.map toData) (c.step cfg ev) := by
  have h' : ServerReceives { c with outbox := [] } t := by
    refine ⟨h.file, h.told, ?_⟩
    cases h.at_point with
    | receiving hp hr => exact .receiving hp hr
    | closing hp ht hr => exact .closing hp ht hr
    | ended hp ht => exact .ended hp ht
  cases h.at_point with
  | @receiving r hp hr =>
      have : ServerTakes (transfer content first offset) cfg t _ _ :=
        server_listenReceiver hproto h' hr rfl hev
      simpa [ClientConnection.step, hp, ClientConnection.onEvent] using this
  | closing hp ht hr =>
      have : ServerTakes (transfer content first offset) cfg t (j.map toData)
          (ClientConnection.handle cfg ev.now _) := server_closingUpload h' rfl hp ht hr
      simpa [ClientConnection.step, hp, ClientConnection.onEvent] using this
  | ended hp _ =>
      refine ⟨t, ?_, .inl ?_⟩
      · simpa [ClientConnection.step, hp, ClientConnection.onEvent, ClientConnection.handle] using
          Receiver.Step.stutter t (j.map toData)
      · simpa [ClientConnection.step, hp, ClientConnection.onEvent, ClientConnection.handle] using h'

/-- The connection of an upload refines the receiver. -/
def serverTakes (content : Bytes) (first offset : Nat)
    (hproto : cfg.protocolVersion = .goBackN) :
    Refines (ClientConnection.node cfg) (Receiver.node (transfer content first offset)) toData
      toReply where
  rel c t := ServerReceives c t ∨ t.phase = .chaos
  step := by
    rintro c t j c' outs (h | h) ⟨ev, hev, hstep⟩
    · obtain ⟨rfl, rfl⟩ := Prod.mk.inj hstep
      exact server_receives_step hproto h hev
    · exact ⟨t, .chaos _ h _, .inr h⟩

end Server

/-! ## The client of a download -/

section Client

inductive ClientReceivesAt (c : Client) (t : Receiver UInt8) : Prop
  | receiving {r : GoBackNReceiver} (hp : c.point = .receiveFileGbn r) (h : Reads r t)
  | finalizing (hp : c.point = .handleConnectionFinalization .performDownload)
      (ht : t.phase = .finished) (hr : Closing t.number c.socket)
  | ended (hp : c.point = .ended) (ht : t.phase ≠ .loop)

structure ClientReceives (peer : Address) (c : Client) (t : Receiver UInt8) : Prop where
  file : received c.file = t.pieces
  told : .downloadCompleted ∈ c.reports → t.phase = .finished
  peer : c.serverAddress = peer
  at_point : ClientReceivesAt c t

/-- The answer of a machine step to the receiver's question. -/
def ClientTakes (P : Transfer UInt8) (peer : Address) (t : Receiver UInt8)
    (i : Option (Option (Data UInt8))) (c : Client) : Prop :=
  ∃ t', Receiver.Step P t i t' ((c.outbox.to peer).map toReply) ∧
    (ClientReceives peer c t' ∨ t'.phase = .chaos)

variable {cfg : Client.Config} {peer : Address} {c : Client} {t : Receiver UInt8}
  {r : GoBackNReceiver} {i : Option (Option (Data UInt8))} {now : Time}

variable (cfg) in
theorem client_sendReply (h : Reads r t) (hpeer : c.serverAddress = peer)
    {reply : GoBackNReceiver.Reply}
    (hreply : reply = .sendAck ⟨t.number, .goBackN⟩ ⟨t.number, .goBackN⟩ ∨
      reply = .resendLast ∧ r.point = .receiveFirstChunk) :
    (∃ out, Client.sendReply cfg r c reply = .ok { c with outbox := c.outbox ++ out } ∧
        ∀ o ∈ (out.to peer).map toReply, Receiver.Names t.number o) ∨
      Client.sendReply cfg r c reply = .error (ExnClass.structError.exn, c) ∧
        reply ≠ .resendLast := by
  subst hpeer
  rcases hreply with rfl | ⟨rfl, hpoint⟩
  · rcases Protocol.encode_gbn ⟨t.number, .goBackN⟩ ⟨t.number, .goBackN⟩ true false false
      cfg.myAddress.port [] with ⟨raw, hok, -, -⟩ | herr
    · refine .inl ⟨[(raw, c.serverAddress)], by simp [Client.sendReply, hok], ?_⟩
      simp [(of_encode hok).2, Receiver.Names]
    · exact .inr ⟨by simp [Client.sendReply, herr], nofun⟩
  · refine .inl ⟨_, rfl, ?_⟩
    cases hlast : r.lastTransmittedPacket with
    | none => simp
    | some raw => simpa using h.last raw hlast hpoint

theorem client_replies (h : Reads r t) (hpeer : c.serverAddress = peer)
    {replies : List GoBackNReceiver.Reply}
    (hs : Sends t.number (r.point = .receiveFirstChunk) replies) :
    (∃ out, replies.foldlM (Client.sendReply cfg r) c = .ok { c with outbox := c.outbox ++ out } ∧
        Answers t.number peer replies out) ∨
      replies.foldlM (Client.sendReply cfg r) c = .error (ExnClass.structError.exn, c) := by
  cases hs with
  | none => exact .inl ⟨[], by simp [pure, Except.pure], by simp [Answers]⟩
  | ack =>
      rcases client_sendReply cfg (c := c) h hpeer (.inl rfl) with
        ⟨out, hok, hout⟩ | ⟨herr, -⟩
      · exact .inl ⟨out, by simp [hok], hout, nofun⟩
      · exact .inr (by simp [herr])
  | last hpoint =>
      rcases client_sendReply cfg (c := c) h hpeer (.inr ⟨rfl, hpoint⟩) with
        ⟨out, hok, hout⟩ | ⟨-, hne⟩
      · exact .inl ⟨out, by simp [hok], hout, nofun⟩
      · exact absurd rfl hne
  | both hpoint =>
      rcases client_sendReply cfg (c := c) h hpeer (.inl rfl) with
        ⟨out, hok, hout⟩ | ⟨herr, -⟩
      · rcases client_sendReply cfg (c := { c with outbox := c.outbox ++ out }) h hpeer
          (.inr ⟨rfl, hpoint⟩) with ⟨out', hok', hout'⟩ | ⟨-, hne⟩
        · refine .inl ⟨out ++ out', ?_, ?_, nofun⟩
          · rw [List.foldlM_cons, hok]
            refine (congrArg (· >>= _) hok').trans ?_
            simp only [List.append_assoc]
            rfl
          · intro o ho
            rw [Outbox.to_append, List.map_append, List.mem_append] at ho
            exact ho.elim (hout o) (hout' o)
        · exact absurd rfl hne
      · exact .inr (by simp [herr, bind, Except.bind])

/-- The exceptions that end a download without a word. -/
theorem client_closes_not (htask : ∃ dst name, cfg.task = .download dst name) {e : Exn}
    (he : e.cls ≠ .fileDoesNotExist ∧ e.cls ≠ .connectionLost ∧ e.cls ≠ .socketShutdown) :
    ∃ file disk, Client.handle cfg now (.error (e, c)) = { c with file, disk, point := .ended } ∧
      received file = received c.file := by
  obtain ⟨dst, name, htask⟩ := htask
  have hclose : Client.closesConnection cfg e.cls = false := by
    simp [Client.closesConnection, htask, he]
  simp only [Client.handle, hclose, Client.fileCleanupAfterError, htask, Client.finish]
  exact ⟨_, _, rfl, rfl⟩

/-- A client that ends without a word. -/
theorem client_gives_up (htask : ∃ dst name, cfg.task = .download dst name)
    (h : ClientReceives peer c t) (hr : Reads r t) (hout : c.outbox = []) {e : Exn}
    (he : e.cls ≠ .fileDoesNotExist ∧ e.cls ≠ .connectionLost ∧ e.cls ≠ .socketShutdown) :
    ClientTakes (transfer content first offset) peer t i
      (Client.handle cfg now (.error (e, c))) := by
  obtain ⟨file, disk, hend, hfile⟩ := client_closes_not (c := c) htask he
  rw [hend]
  refine ⟨{ t with phase := .dead }, ?_,
    .inl ⟨hfile.trans h.file, fun hu ↦ absurd (h.told hu) hr.not_finished, h.peer, .ended rfl nofun⟩⟩
  simpa [hout] using Receiver.Step.die t i

/-- A packet without data of an end that is through. -/
theorem client_tells (hproto : cfg.protocolVersion = .goBackN) (hport : c.serverAddress.port ≠ 0)
    (hseq : c.sequenceNumber = ⟨t.number, .goBackN⟩) (hack : c.ackNumber = some ⟨t.number, .goBackN⟩)
    (isAck isFin : Bool) (port : UInt16) :
    (∃ raw, c.send cfg isAck false isFin port [] = .ok (c.handed raw) ∧
        Receiver.Closes t.number (toReply raw)) ∨
      c.send cfg isAck false isFin port [] = .error (ExnClass.structError.exn, c) := by
  refine (client_send hproto hport hack isAck isFin port).imp_left fun ⟨raw, hok, henc⟩ ↦ ⟨raw, hok, ?_⟩
  rw [(of_encode henc).2, hseq]
  exact ⟨_, rfl⟩

/-- `receive_file` has returned. -/
theorem client_enters_finalization (hproto : cfg.protocolVersion = .goBackN) (hport : peer.port ≠ 0)
    (htask : ∃ dst name, cfg.task = .download dst name) (hfile : received c.file = t.pieces)
    (hphase : t.phase = .finished) (hpeer : c.serverAddress = peer)
    (hseq : c.sequenceNumber = ⟨t.number, .goBackN⟩) (hack : c.ackNumber = some ⟨t.number, .goBackN⟩)
    (hout : c.outbox = []) :
    ∃ c', Client.handle cfg now (Client.completeDownload cfg now c) = c' ∧
      ClientReceives peer c' t ∧ ∀ o ∈ (c'.outbox.to peer).map toReply, Receiver.Closes t.number o := by
  subst hpeer
  have fails : ∀ d : Client, d.file = FileHandler.close c.file → d.serverAddress = c.serverAddress →
      (∀ o ∈ (d.outbox.to c.serverAddress).map toReply, Receiver.Closes t.number o) →
      ClientReceives c.serverAddress
          (Client.handle cfg now (.error (ExnClass.structError.exn, d))) t ∧
        ∀ o ∈ ((Client.handle cfg now
          (.error (ExnClass.structError.exn, d))).outbox.to c.serverAddress).map toReply,
            Receiver.Closes t.number o := by
    intro d hd hpeer hsaid
    obtain ⟨file, disk, hend, hrec⟩ := client_closes_not (c := d) htask
      (e := ExnClass.structError.exn) (by decide)
    rw [hend]
    rw [hd] at hrec
    exact ⟨⟨hrec.trans hfile, fun _ ↦ hphase, hpeer, .ended rfl (by simp [hphase])⟩, hsaid⟩
  refine ⟨_, rfl, ?_⟩
  let c₀ : Client :=
    { c.report .downloadCompleted with
      downloadCompleted := true
      file := FileHandler.close c.file
      disk := FileHandler.closeOnDisk c.disk c.file }
  have hfinal : Client.completeDownload cfg now c =
      Client.sendFinalization cfg now .performDownload c₀ :=
    Client.handleConnectionFinalization_eq (c := c₀) hport now .performDownload
  rw [hfinal, Client.sendFinalization, Client.sendAck]
  rcases client_tells (c := c₀) hproto hport hseq hack true false cfg.myAddress.port with
    ⟨raw, hok, hcloses⟩ | herr
  · let d := c₀.handed raw
    have hd : ∀ o ∈ (d.outbox.to c.serverAddress).map toReply, Receiver.Closes t.number o := by
      simpa [d, c₀, Client.handed, Client.report, hout] using hcloses
    rw [hok]
    simp only [Client.sendFin, bind, Except.bind]
    rcases client_tells (c := d) hproto hport hseq hack false true d.serverAddress.port with
      ⟨raw', hok', hcloses'⟩ | herr'
    · rw [hok']
      refine ⟨⟨hfile, fun _ ↦ hphase, rfl, .finalizing rfl hphase ?_⟩,
        client_handed (c := d) rfl hd hcloses'⟩
      rintro _ ⟨⟩
      exact hcloses'
    · rw [herr']
      exact fails d rfl rfl hd
  · rw [herr]
    exact fails c₀ rfl rfl (by simp [c₀, Client.report, hout])

/-- What is appended to the file is what the receiver takes. -/
theorem client_appends (hf : received c.file = t.pieces) (appended : Option Packet) :
    ∃ file disk, Client.appendTaken cfg c appended = { c with file, disk } ∧
      received file = pushed t.pieces appended := by
  cases appended with
  | none => exact ⟨c.file, c.disk, rfl, hf⟩
  | some packet =>
      refine ⟨FileHandler.appendToFile c.file packet,
        cfg.fileHandler.flush c.disk (FileHandler.appendToFile c.file packet), rfl, ?_⟩
      rw [received_appendToFile, hf, pushed]

/-- A packet in `receive_file` -/
theorem client_onGbnPacket (hproto : cfg.protocolVersion = .goBackN) (hport : peer.port ≠ 0)
    (htask : ∃ dst name, cfg.task = .download dst name) (h : ClientReceives peer c t)
    (hr : Reads r t) (hout : c.outbox = []) {packet : Packet}
    (hlen : packet.payloadLength = 0 → packet.data = []) :
    ClientTakes (transfer content first offset) peer t
      (some (some ⟨packet.sequenceNumber, packet.isFin, packet.data⟩))
      (Client.handle cfg now (Client.onGbnPacket cfg now r c packet)) := by
  have htakes : Takes (transfer content first offset) r t _ _ := hr.onPacket hlen
  unfold Client.onGbnPacket
  generalize r.onPacket packet = o at htakes
  dsimp only
  have appends := fun d : Client ↦ fun hd : d.file = c.file ↦
    @client_appends cfg d t (hd ▸ h.file) o.appended
  cases htakes with
  | @running t' hfin hreads hpieces hsend hs =>
      rcases client_replies (c := c) hr h.peer hsend with ⟨out, hok, hsaid, hnone⟩ | herr
      · rw [hok]
        simp only [bind, Except.bind]
        obtain ⟨file, disk, happ, hrec⟩ := appends { c with
          sequenceNumber := o.receiver.sqnNumber
          ackNumber := some o.receiver.ackNumber
          point := .receiveFileGbn o.receiver
          outbox := c.outbox ++ out } rfl
        rw [happ, hfin]
        simp only [Bool.false_eq_true, if_false, pure, Except.pure, Client.handle]
        refine ⟨t', ?_, .inl ⟨hrec.trans hpieces.symm, ?_, h.peer, .receiving rfl hreads⟩⟩
        · dsimp only
          rw [hout, List.nil_append]
          exact hs _ hsaid fun hnil ↦ by rw [hnone hnil]; rfl
        · exact fun hu ↦ absurd (h.told hu) hr.not_finished
      · rw [herr]
        exact client_gives_up htask h hr hout (by decide)
  | @returned t' hfin hreplies hphase hn ha hpieces hs =>
      rw [hreplies]
      obtain ⟨file, disk, happ, hrec⟩ := appends { c with
          sequenceNumber := o.receiver.sqnNumber
          ackNumber := some o.receiver.ackNumber
          point := .receiveFileGbn o.receiver } rfl
      simp only [List.foldlM_nil, pure, Except.pure, bind, Except.bind]
      rw [happ, hfin, if_pos rfl]
      obtain ⟨c', hc', hreceives, hsaid⟩ := client_enters_finalization
        (t := t')
        (c := { c with
          file, disk
          sequenceNumber := o.receiver.sqnNumber
          ackNumber := some o.receiver.ackNumber
          point := .receiveFileGbn o.receiver }) hproto hport htask (hrec.trans hpieces.symm) hphase
        h.peer hn (congrArg some ha) hout
      rw [hc']
      exact ⟨t', hs _ hsaid, .inl hreceives⟩

/-- An event in `receive_file` -/
theorem client_listenReceiver (hproto : cfg.protocolVersion = .goBackN) (hport : peer.port ≠ 0)
    (htask : ∃ dst name, cfg.task = .download dst name) (h : ClientReceives peer c t)
    (hr : Reads r t) (hout : c.outbox = []) {j : Option Bytes} {ev : Event}
    (hev : ev ∈ arrivals peer j) :
    ClientTakes (transfer content first offset) peer t (j.map toData)
      (Client.handle cfg ev.now (Client.listenReceiver cfg r c ev)) := by
  cases j with
  | some raw =>
      obtain ⟨now, rfl⟩ := hev
      simp only [Client.listenReceiver]
      by_cases hraw : raw = []
      · subst hraw
        exact ⟨_, Receiver.Step.garbage t _, .inr rfl⟩
      · have hcheck : ClientProtocolGbn.receiveFileChunk (raw.take fullBufferSize) (some peer) =
            .ok (PacketParser.getPacketFromBytes (raw.take fullBufferSize)) := by
          rw [ClientProtocolGbn.receiveFileChunk, ClientProtocolGbn.validateInboundPacket,
            Protocol.validateInboundPacket_of_ne_nil (mt take_full_eq_nil.mp hraw)]
          rfl
        rw [hcheck, Option.map_some, toData_of_ne_nil hraw]
        exact client_onGbnPacket hproto hport htask h hr hout PacketParser.data_eq_nil_of_payloadLength
  | none =>
      obtain ⟨now, rfl | rfl⟩ := hev <;>
      · refine ⟨t, ?_, .inl h⟩
        simpa [Client.listenReceiver, Client.handle, hout] using Receiver.Step.stutter t none

/-- A step in `handle_connection_finalization` -/
theorem client_finalizesDownload (htask : ∃ dst name, cfg.task = .download dst name)
    (h : ClientReceives peer c t) (hout : c.outbox = [])
    (hp : c.point = .handleConnectionFinalization .performDownload) (ht : t.phase = .finished)
    (hr : Closing t.number c.socket) {ev : Event} :
    ClientTakes (transfer content first offset) peer t i
      (Client.handle cfg ev.now (c.listen
        ((ClientProtocol.waitForFinOrAck c.sequenceNumber c.ackNumber).letThrough [.connectionLost])
        ev (Client.onFinalization cfg ev.now .performDownload))) := by
  have hspec := reListens ((ClientProtocol.waitForFinOrAck c.sequenceNumber c.ackNumber).letThrough
    [.connectionLost]) c.socket c.listening ev
  have tells : ∀ b (d : Client), d.outbox = (c.retransmit b).outbox → ClientReceives peer d t →
      ClientTakes (transfer content first offset) peer t i d := by
    intro b d hd hrec
    refine ⟨t, .say _ ht fun o ho ↦ ?_, .inl hrec⟩
    rw [hd] at ho
    simp only [Client.retransmit, hout, List.nil_append] at ho
    exact hr.retransmission b _ o ho
  have listening : ∀ b l, ClientTakes (transfer content first offset) peer t i
      (Client.handle cfg ev.now (.ok { c.retransmit b with listening := l })) :=
    fun b l ↦ tells b _ rfl ⟨h.file, h.told, h.peer, .finalizing hp ht hr⟩
  have halted : ∀ b x, (∀ e, x = .error e →
      (ClientProtocol.waitForFinOrAck c.sequenceNumber c.ackNumber).Raises e) →
      ClientTakes (transfer content first offset) peer t i
        (Client.handle cfg ev.now
          (Client.onFinalization cfg ev.now .performDownload (c.retransmit b) x)) := by
    intro b x hx
    have closed : ClientTakes (transfer content first offset) peer t i (c.retransmit b).finish :=
      tells b _ rfl ⟨h.file, h.told, h.peer, .ended rfl (by simp [ht])⟩
    cases x with
    | ok => exact closed
    | error e =>
        simp only [Client.onFinalization]
        split
        · exact closed
        · rename_i hcls
          simp only [List.mem_cons, List.not_mem_nil, or_false, not_or] at hcls
          have hraises := ClientProtocol.waitForFinOrAck_raises (hx e rfl)
          obtain ⟨file, disk, hend, hfile⟩ := client_closes_not
            (c := c.retransmit b) htask (e := e)
            ⟨fun he ↦ by rw [he] at hraises; revert hraises; decide, hcls.1, hcls.2.2⟩
          rw [hend]
          exact tells b _ rfl ⟨hfile.trans h.file, h.told, h.peer, .ended rfl (by simp [ht])⟩
  unfold Client.listen
  generalize reListenIfFailed ((ClientProtocol.waitForFinOrAck c.sequenceNumber
    c.ackNumber).letThrough [.connectionLost]) c.socket c.listening ev = l at hspec
  cases hspec with
  | blocked => exact listening _ _
  | @returned _ _ u _ _ =>
      have := halted false (.ok u) fun _ h ↦ by cases h
      simpa [Client.retransmit] using this
  | @letThrough e hf _ => exact halted false (.error e) fun _ he ↦ Except.error.inj he ▸ hf.raises
  | @exhausted e hf _ _ => exact halted true (.error e) fun _ he ↦ Except.error.inj he ▸ hf.raises
  | again => exact listening _ _

/-- Every step of a client that receives a file is a step of the receiver. -/
theorem client_receives_step (hproto : cfg.protocolVersion = .goBackN) (hport : peer.port ≠ 0)
    (htask : ∃ dst name, cfg.task = .download dst name) (h : ClientReceives peer c t)
    {j : Option Bytes} {ev : Event} (hev : ev ∈ arrivals peer j) :
    ClientTakes (transfer content first offset) peer t (j.map toData) (c.step cfg ev) := by
  have h' : ClientReceives peer { c with outbox := [] } t := by
    refine ⟨h.file, h.told, h.peer, ?_⟩
    cases h.at_point with
    | receiving hp hr => exact .receiving hp hr
    | finalizing hp ht hr => exact .finalizing hp ht hr
    | ended hp ht => exact .ended hp ht
  cases h.at_point with
  | @receiving r hp hr =>
      have : ClientTakes (transfer content first offset) peer t _ _ :=
        client_listenReceiver hproto hport htask h' hr rfl hev
      simpa [Client.step, hp, Client.onEvent] using this
  | finalizing hp ht hr =>
      have : ClientTakes (transfer content first offset) peer t (j.map toData)
          (Client.handle cfg ev.now _) := client_finalizesDownload htask h' rfl hp ht hr
      simpa [Client.step, hp, Client.onEvent] using this
  | ended hp _ =>
      refine ⟨t, ?_, .inl ?_⟩
      · simpa [Client.step, hp, Client.onEvent, Client.handle] using
          Receiver.Step.stutter t (j.map toData)
      · simpa [Client.step, hp, Client.onEvent, Client.handle] using h'

/-- The client of a download refines the receiver. -/
def clientTakes (content : Bytes) (first offset : Nat) (peer : Address)
    (hport : peer.port ≠ 0) (hproto : cfg.protocolVersion = .goBackN)
    (htask : ∃ dst name, cfg.task = .download dst name) :
    Refines (Client.node cfg peer) (Receiver.node (transfer content first offset)) toData
      toReply where
  rel c t := ClientReceives peer c t ∨ t.phase = .chaos
  step := by
    rintro c t j c' outs (h | h) ⟨ev, hev, hstep⟩
    · obtain ⟨rfl, rfl⟩ := Prod.mk.inj hstep
      exact client_receives_step hproto hport htask h hev
    · exact ⟨t, .chaos _ h _, .inr h⟩

end Client

end Rdt.Gbn
