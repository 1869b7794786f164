import Rdt.Client.Datagrams
import Rdt.Common.Frames
import Rdt.Common.Waiting
import Rdt.Configuration.Abort
import Rdt.Conversation.Basic
import Rdt.Server.Accepting

/-!
# The handshake, at either end

The three packets of the handshake, and what the client and the accepter make of them: copies of a
packet that was taken are turned down.
-/

namespace Rdt.Conversation

open AccepterProtocol Rdt.Configuration PacketParser Server Session

/-! ## The packets -/

section Packets

variable {protocol : ProtocolType} {k : Nat} {isAck isSyn : Bool} {port : UInt16} {data raw : Bytes}

/-- The packet of either end with its `k`-th numbers -/
def packetAt (protocol : ProtocolType) (k : Nat) (isAck isSyn : Bool) (port : UInt16) (data : Bytes) :
    Packet :=
  ⟨protocol, (numberAt protocol k).value, isAck, isSyn, false, port.toNat, data.length, data,
    (ackAt protocol k).map (·.value)⟩

theorem parse_packetAt (h : Protocol.encode protocol (numberAt protocol k) (ackAt protocol k) isAck
      isSyn false port data = .ok raw) :
    getPacketFromBytes raw = packetAt protocol k isAck isSyn port data := by
  obtain ⟨m, hparse, hsaw, hgbn⟩ := Protocol.parse_of_encode (fun hp ↦ numberAt_lt hp k) h
  rw [hparse, packetAt]
  cases protocol with
  | stopAndWait =>
      obtain rfl := hsaw rfl
      rfl
  | goBackN => rw [hgbn rfl]

/-- A receive sees the whole of it. -/
theorem parse_received (hdata : data.length ≤ commsBufferSize - gbnProtocolHeaderSize)
    (h : Protocol.encode protocol (numberAt protocol k) (ackAt protocol k) isAck isSyn false port data =
      .ok raw) :
    getPacketFromBytes (raw.take commsBufferSize) = packetAt protocol k isAck isSyn port data := by
  have hfits : data.length ≤ commsBufferSize - headerSize protocol := by
    cases protocol with
    | stopAndWait => exact le_trans hdata (by decide)
    | goBackN => exact hdata
  rw [getPacketFromBytes_take (by decide), parse_packetAt h, packetAt]
  dsimp only
  rw [List.take_of_length_le hfits]

theorem exists_packetAt (protocol : ProtocolType) (hk : k ≤ 2) (isAck isSyn : Bool) (port : UInt16)
    (hdata : data.length < Protocol.payloadLimit protocol) :
    ∃ raw, Protocol.encode protocol (numberAt protocol k) (ackAt protocol k) isAck isSyn false port
      data = .ok raw := by
  have hle := numberAt_le protocol k
  have hn : (numberAt protocol k).value < 2 ^ 32 := lt_of_le_of_lt (le_trans hle hk) (by decide)
  have hack : ∀ m ∈ ackAt protocol k, m.value ≤ lastNumber := by
    intro m hm
    unfold ackAt at hm
    split at hm
    · cases hm
    · exact Option.some.inj hm ▸ le_trans (le_trans hle hk) (by decide)
  rcases Protocol.encode_fits hn hack isAck isSyn false port hdata with ⟨raw, hok, -⟩ | ⟨hp, hnone, -⟩
  · exact ⟨raw, hok⟩
  · rw [hp] at hnone
    cases hnone

/-- The SYN-ACK confirms the SYN. -/
theorem confirms_packetAt (h : Protocol.encode protocol (numberAt protocol 0) (ackAt protocol 0) true
    isSyn false port [] = .ok raw) : Confirms protocol 0 isSyn raw := by
  have hparse := parse_packetAt h
  have hn : (numberAt protocol 0).value < 2 ^ 32 := Nat.two_pow_pos 32
  have hack : ∀ m ∈ ackAt protocol 0, m.value ≤ lastNumber := by
    intro m hm
    unfold ackAt at hm
    split at hm
    · cases hm
    · exact Option.some.inj hm ▸ Nat.zero_le _
  rcases Protocol.encode_fits hn hack true isSyn false port (Protocol.nil_lt_payloadLimit protocol) with
    ⟨raw', hok, hcounted, hlen, -⟩ | ⟨hp, hnone, -⟩
  · obtain rfl : raw' = raw := Except.ok.inj (hok.symm.trans h)
    refine ⟨hcounted, hlen, ?_, ?_, ?_, ?_, fun m hm ↦ ?_⟩
    all_goals rw [hparse]
    · rfl
    · rfl
    · rfl
    · rfl
    · rw [packetAt, Option.mem_def.mp hm]
      rfl
  · rw [hp] at hnone
    cases hnone

/-- The confirmation of another packet makes the wait start over. -/
theorem turned_down {j k : Nat} {es : List ExnClass} (h : Confirms protocol j isSyn raw)
    (hne : (numberAt protocol k).value ≠ (numberAt protocol j).value)
    (hes : ∀ e ∈ [ExnClass.invalidSequenceNumber, .invalidAckNumber],
      e ∈ configureWantedExceptionsToCatch es) (A : Address) :
    ∃ e : ExnClass, e ∈ configureWantedExceptionsToCatch es ∧
      ClientProtocol.validateConfirmation (numberAt protocol k) (ackAt protocol k)
        (raw.take commsBufferSize) (some A) = .error e.exn := by
  have hcut : raw.take commsBufferSize = raw :=
    List.take_of_length_le (le_trans h.length (by decide))
  have hraw : raw ≠ [] := by
    rintro rfl
    exact absurd h.isAck (by decide)
  have hack : Protocol.validateAck ExnClass.messageIsNotAck.exn (getPacketFromBytes raw) = .ok () :=
    Protocol.validateAck_eq_ok.mpr h.isAck
  have hfin : Protocol.validateNotFin (getPacketFromBytes raw) = .ok () :=
    Protocol.validateNotFin_eq_ok.mpr h.isFin
  rw [hcut]
  unfold ClientProtocol.validateConfirmation ClientProtocol.validateInboundAck
    ClientProtocol.validateInboundPacket ClientProtocol.validateSequenceNumber
  rw [Protocol.validateInboundPacket_of_ne_nil hraw]
  cases protocol with
  | stopAndWait =>
      have hseq : Protocol.validateSequenceNumber ExnClass.invalidSequenceNumber.exn
          (getPacketFromBytes raw) (numberAt .stopAndWait k) =
            .error ExnClass.invalidSequenceNumber.exn :=
        if_pos (h.sequenceNumber ▸ hne)
      refine ⟨.invalidSequenceNumber, hes _ (by decide), ?_⟩
      simp only [ackAt, bind, Except.bind, hack, hfin, hseq, pure, Except.pure]
  | goBackN =>
      have hnumber : ClientProtocol.validateAckNumber (getPacketFromBytes raw)
          (numberAt .goBackN k) = .error ExnClass.invalidAckNumber.exn := by
        unfold ClientProtocol.validateAckNumber Packet.getAckNumber
        rw [h.ackNumber (numberAt .goBackN j) rfl]
        exact if_pos hne
      refine ⟨.invalidAckNumber, hes _ (by decide), ?_⟩
      simp only [ackAt, bind, Except.bind, hack, hnumber]

end Packets

/-! ## The client -/

section Client

variable {P : Parties} {file : File} {syn synAck op : Bytes} {c : Client} {ev : Event}

/-- The answer to the SYN, which tells the address of the connection -/
def SynAck (P : Parties) (raw : Bytes) : Prop :=
  Protocol.encode P.scfg.protocolVersion (numberAt P.scfg.protocolVersion 0)
    (ackAt P.scfg.protocolVersion 0) true true false P.bound.port [] = .ok raw

/-- The operation that the client asks for, which completes the handshake -/
def Asks (P : Parties) (raw : Bytes) : Prop :=
  Packed P.ccfg 1 true false (BigEndian.toBytes 2 (Client.operationCode P.ccfg)) raw

/-- A client before it is answered -/
structure Unanswered (P : Parties) (file : File) (c : Client) : Prop where
  sequenceNumber : c.sequenceNumber = numberAt P.ccfg.protocolVersion 0
  ackNumber : c.ackNumber = ackAt P.ccfg.protocolVersion 0
  file : c.file = file
  serverAddress : c.serverAddress = P.ccfg.serverAddress
  reports : c.reports = []

/-- The client waits for the answer to its SYN. -/
structure Greets (P : Parties) (file : File) (syn : Bytes) (c : Client) : Prop
    extends Unanswered P file c where
  point : c.point = .handshake
  reachable : P.ccfg.serverAddress.port ≠ 0
  socket : c.socket = ⟨some syn, some P.ccfg.serverAddress⟩

/-- The client has sent its operation; since then it may have retransmitted it. -/
def Requests (P : Parties) (file : File) (c : Client) : Prop :=
  ∃ c₀ now e, Unanswered P file c₀ ∧
    Client.sendOperationIntention P.ccfg now P.bound (Client.operationCode P.ccfg) c₀ = .ok e ∧
    c = { e with listening := c.listening, outbox := c.outbox }

theorem Unanswered.sent (h : Unanswered P file c) : Sent P.ccfg file 0 c :=
  ⟨h.sequenceNumber, h.ackNumber, congrArg File.content h.file⟩

/-- The SYN is sent. -/
theorem greets_start {disk disk' : Disk} {now : Time}
    (hopen : Client.openFile P.ccfg disk = .ok (file, disk'))
    (hstart : Client.start P.ccfg disk now = .ok c) (hport : P.ccfg.serverAddress.port ≠ 0)
    (hsyn : Packed P.ccfg 0 false true [] syn) :
    Greets P file syn c ∧ c.outbox = [(syn, P.ccfg.serverAddress)] := by
  have h : Unanswered P file (Client.init P.ccfg file disk' now) := by
    refine ⟨rfl, ?_, rfl, rfl, rfl⟩
    unfold Client.init ackAt
    cases P.ccfg.protocolVersion <;> rfl
  have hsend : Client.requestConnection P.ccfg (Client.init P.ccfg file disk' now) =
      .ok ((Client.init P.ccfg file disk' now).handed syn) := by
    rw [Packed, ← h.sequenceNumber, ← h.ackNumber] at hsyn
    exact (Client.send_eq_ok P.ccfg).mpr ⟨hport, syn, hsyn, rfl⟩
  simp only [Client.start, hopen, bind, Except.bind, hsend] at hstart
  obtain rfl := Except.ok.inj hstart
  exact ⟨⟨⟨h.sequenceNumber, h.ackNumber, rfl, rfl, rfl⟩, rfl, hport, rfl⟩, rfl⟩

/-- Time passes. -/
theorem Greets.passes (h : Greets P file syn c) (hev : ev.Quiet)
    (hg : (c.listened P.ccfg ev).gaveUp = false) :
    Greets P file syn (c.step P.ccfg ev) ∧
      ∀ o ∈ (c.step P.ccfg ev).outbox, o = (syn, P.ccfg.serverAddress) := by
  unfold Client.listened at hg
  rw [h.point] at hg
  dsimp only at hg
  rw [Listened.gaveUp_void] at hg
  obtain ⟨r, b, hl⟩ := reListen_passes (show ExnClass.connectionRefused ∈
    configureWantedExceptionsToCatch [.unexpectedFinMessage, .messageIsNotAck] by decide) hev hg
  have hstep : c.step P.ccfg ev = { c with
      listening := r
      outbox := [] ++ if b then c.socket.retransmission else [] } := by
    simp only [Client.step, Client.onEvent, h.point, Client.listen, hl, Client.swallow,
      Client.retransmit]
  rw [hstep]
  refine ⟨⟨⟨h.sequenceNumber, h.ackNumber, h.file, h.serverAddress, h.reports⟩, h.point, h.reachable,
    h.socket⟩, ?_⟩
  intro o ho
  rw [h.socket] at ho
  cases b with
  | false => cases ho
  | true => exact List.mem_singleton.mp ho

/-- The SYN-ACK comes: the operation is sent to the welcoming socket. -/
theorem Greets.answered (h : Greets P file syn c)
    (hproto : P.ccfg.protocolVersion = P.scfg.protocolVersion)
    (hhost : P.ccfg.serverAddress.host = P.bound.host)
    (hsynAck : SynAck P synAck) (hop : Asks P op) (now : Time) :
    Requests P file (c.step P.ccfg (.datagram synAck (some P.ccfg.serverAddress) now)) ∧
      (c.step P.ccfg (.datagram synAck (some P.ccfg.serverAddress) now)).outbox =
        [(op, P.ccfg.serverAddress)] := by
  let d : Client := { c with outbox := [], point := .handshake }
  have hd : Unanswered P file d :=
    ⟨h.sequenceNumber, h.ackNumber, h.file, h.serverAddress, h.reports⟩
  have hstepped : Sent P.ccfg file 1 d.stepSequence.stepAck := hd.sent.stepped
  have hsend : Client.sendOperationIntention P.ccfg now P.bound (Client.operationCode P.ccfg) d =
      .ok ((d.stepSequence.stepAck.handed op).block (.sendOperationIntention P.bound) now) := by
    rw [Asks, Packed, ← hstepped.sequenceNumber, ← hstepped.ackNumber] at hop
    have hport : c.serverAddress.port ≠ 0 := h.serverAddress ▸ h.reachable
    have hsend : Client.send P.ccfg d.stepSequence.stepAck true false false P.ccfg.myAddress.port
        (BigEndian.toBytes 2 (Client.operationCode P.ccfg)) = .ok (d.stepSequence.stepAck.handed op) :=
      (Client.send_eq_ok P.ccfg).mpr ⟨hport, op, hop, rfl⟩
    rw [Client.sendOperationIntention, hsend]
    rfl
  rw [SynAck, ← hproto] at hsynAck
  have hport : (getPacketFromBytes synAck).port = P.bound.port.toNat := by rw [parse_packetAt hsynAck]; rfl
  have hcheck : ((ClientProtocol.waitForConnectionRequestAnswer c.sequenceNumber c.ackNumber).letThrough
      [.unexpectedFinMessage, .messageIsNotAck]).check (synAck.take commsBufferSize)
        (some P.ccfg.serverAddress) = .ok P.bound := by
    have hconfirms := confirms_packetAt hsynAck
    show (ClientProtocol.validateConfirmation c.sequenceNumber c.ackNumber _ _ >>= _) = _
    rw [h.sequenceNumber, h.ackNumber, hconfirms.check P.ccfg.serverAddress]
    simp only [bind, Except.bind, hconfirms.isSyn, hport, hhost, UInt16.ofNat_toNat]
    rfl
  have hstep : c.step P.ccfg (.datagram synAck (some P.ccfg.serverAddress) now) =
      (d.stepSequence.stepAck.handed op).block (.sendOperationIntention P.bound) now := by
    simp only [Client.step, Client.onEvent, h.point]
    refine (congrArg Client.swallow (Client.listen_returns hcheck)).trans ?_
    simp only [Client.onConnectionRequestAnswer, Event.now]
    rw [hsend]
    rfl
  rw [hstep]
  refine ⟨⟨d, now, _, hd, hsend, rfl⟩, ?_⟩
  show [(op, c.serverAddress)] = _
  rw [h.serverAddress]

/-- What has become of the client by its operation. -/
theorem Requests.sent (h : Requests P file c) (hop : Asks P op) :
    ∃ c₀ now, Unanswered P file c₀ ∧ c = { (c₀.stepSequence.stepAck.handed op).block
      (.sendOperationIntention P.bound) now with listening := c.listening, outbox := c.outbox } := by
  obtain ⟨c₀, now, e, hc₀, hsent, hc⟩ := h
  have hstepped : Sent P.ccfg file 1 c₀.stepSequence.stepAck := hc₀.sent.stepped
  obtain ⟨d, hsend, hrun⟩ := except_bind_eq_ok.mp hsent
  obtain ⟨-, raw, hraw, rfl⟩ := (Client.send_eq_ok P.ccfg).mp hsend
  rw [hstepped.sequenceNumber, hstepped.ackNumber] at hraw
  obtain rfl : op = raw := Except.ok.inj (Eq.trans (Eq.symm hop) hraw)
  refine ⟨c₀, now, hc₀, ?_⟩
  rw [hc, ← Except.ok.inj hrun]

theorem Requests.spec (h : Requests P file c) (hop : Asks P op) :
    c.point = .sendOperationIntention P.bound ∧ Sent P.ccfg file 1 c ∧
      c.socket = ⟨some op, some P.ccfg.serverAddress⟩ := by
  obtain ⟨c₀, now, hc₀, hc⟩ := h.sent hop
  have hstepped : Sent P.ccfg file 1 c₀.stepSequence.stepAck := hc₀.sent.stepped
  rw [hc]
  refine ⟨rfl, ⟨hstepped.sequenceNumber, hstepped.ackNumber, hstepped.content⟩, ?_⟩
  show SocketSaw.mk (some op) (some c₀.serverAddress) = _
  rw [hc₀.serverAddress]

/-- The file is as it was opened, and nothing is reported. -/
theorem Requests.kept (h : Requests P file c) (hop : Asks P op) : c.file = file ∧ c.reports = [] := by
  obtain ⟨c₀, now, hc₀, hc⟩ := h.sent hop
  rw [hc]
  exact ⟨hc₀.file, hc₀.reports⟩

theorem Requests.stirred (h : Requests P file c) (hop : Asks P op) (r : ReListen) (b : Bool) :
    Requests P file (c.stirred r b) ∧ ∀ o ∈ (c.stirred r b).outbox, o = (op, P.ccfg.serverAddress) := by
  obtain ⟨-, -, hsocket⟩ := h.spec hop
  obtain ⟨c₀, now, e, hc₀, hsent, hc⟩ := h
  refine ⟨⟨c₀, now, e, hc₀, hsent, ?_⟩, fun o ho ↦ ?_⟩
  · rw [hc]
    rfl
  · rw [Client.stirred, hsocket] at ho
    cases b with
    | false => cases ho
    | true => exact List.mem_singleton.mp ho

/-- Time passes, or another copy of the SYN-ACK comes. -/
theorem Requests.waits (h : Requests P file c) (hop : Asks P op)
    (hev : ev.Quiet ∨ ∃ raw A now, ev = .datagram raw (some A) now ∧
      Confirms P.ccfg.protocolVersion 0 true raw)
    (hg : (c.listened P.ccfg ev).gaveUp = false) :
    Requests P file (c.step P.ccfg ev) ∧
      ∀ o ∈ (c.step P.ccfg ev).outbox, o = (op, P.ccfg.serverAddress) := by
  obtain ⟨hp, hsent, -⟩ := h.spec hop
  have hu : c.Unwindowed := by
    rw [Client.Unwindowed, hp]
    trivial
  suffices hstep : ∃ r b, c.step P.ccfg ev = c.stirred r b by
    obtain ⟨r, b, hstep⟩ := hstep
    rw [hstep]
    exact h.stirred hop r b
  rcases hev with hev | ⟨raw, A, now, rfl, hraw⟩
  · exact Client.step_quiet hu hev hg
  · have hes : ∀ e ∈ [ExnClass.invalidSequenceNumber, .invalidAckNumber],
        e ∈ configureWantedExceptionsToCatch [.unexpectedFinMessage] := by decide
    obtain ⟨e, he, herror⟩ := turned_down hraw (numberAt_ne P.ccfg.protocolVersion).1.symm hes A
    have hl : c.listened P.ccfg (.datagram raw (some A) now) = (reListenIfFailed
        ((ClientProtocol.waitForOperationConfirmation c.sequenceNumber c.ackNumber).letThrough
          [.unexpectedFinMessage]) c.socket c.listening (.datagram raw (some A) now)).void := by
      unfold Client.listened
      rw [hp]
    have hcheck : ((ClientProtocol.waitForOperationConfirmation c.sequenceNumber
        c.ackNumber).letThrough [.unexpectedFinMessage]).check (raw.take commsBufferSize) (some A) =
          .error e.exn := by
      show (ClientProtocol.validateConfirmation c.sequenceNumber c.ackNumber _ _).map Prod.fst = _
      rw [hsent.sequenceNumber, hsent.ackNumber, herror]
      rfl
    rw [hl, Listened.gaveUp_void] at hg
    obtain ⟨r, hlistening⟩ := reListen_rejects hcheck he hg
    refine ⟨r, true, Client.step_of_listening hu ?_⟩
    rw [hl, hlistening]
    rfl

/-- What a client that has sent its operation says from now on opens no connection. -/
theorem Requests.emits (h : Requests P file c) (hop : Asks P op)
    (hout : ∀ o ∈ c.outbox, o = (op, P.ccfg.serverAddress)) : c.Emits Plain := by
  obtain ⟨hp, -, hsocket⟩ := h.spec hop
  have hplain : Plain op := ⟨isFrame_of_encode hop, isSyn_of_encode hop⟩
  refine ⟨⟨?_, ?_⟩, ?_⟩
  · rw [hsocket]
    rintro _ ⟨⟩
    exact hplain
  · intro o ho
    rw [hout o ho]
    exact hplain
  · unfold Client.HandsAt
    rw [hp]
    trivial

end Client

/-! ## The accepter -/

section Accepter

variable {P : Parties} {syn synAck op raw : Bytes} {a : Accepter} {ev : Event} {now : Time}
  {r : ReListen}

theorem step_accepting (hr : a.Running) (hp : a.point = .acceptConnection) :
    a.step P.scfg (.welcoming ev P.bound) =
      Accepter.onAcceptConnection P.scfg { a with outbox := [] } ev P.bound := by
  unfold Accepter.step
  dsimp only
  rw [hp]
  exact if_pos hr

theorem step_shaking (hr : a.Running) {A c : Peer} {ack : Option SequenceNumber}
    (hp : a.point = .handshake A c ack r) : a.step P.scfg (.welcoming ev P.bound) =
      Accepter.onHandshake P.scfg { a with outbox := [] } A c ack r ev := by
  unfold Accepter.step
  dsimp only
  rw [hp]
  exact if_pos hr

theorem step_quiet (hr : a.Running) (hp : a.point = .acceptConnection) (hev : ev.Quiet) :
    a.step P.scfg (.welcoming ev P.bound) = { a with outbox := [] } := by
  rw [step_accepting hr hp]
  obtain ⟨now, rfl | rfl⟩ := hev <;> rfl

theorem validate_received (hraw : raw ≠ []) (A : Address) :
    AccepterProtocol.validateInboundPacket (raw.take commsBufferSize) (some A) =
      .ok (getPacketFromBytes (raw.take commsBufferSize), A) :=
  Protocol.validateInboundPacket_of_ne_nil (take_comms_ne_nil hraw) A

/-- The SYN is answered. -/
theorem step_syn (hr : a.Running) (hp : a.point = .acceptConnection)
    (hfree : a.clients.isClientConnected P.clientAddress = false)
    (hproto : P.ccfg.protocolVersion = P.scfg.protocolVersion)
    (hsyn : Packed P.ccfg 0 false true [] syn) (hsynAck : SynAck P synAck) :
    a.step P.scfg (.welcoming (.datagram syn (some P.clientAddress) now) P.bound) =
      { a with
        outbox := [(synAck, P.clientAddress)]
        welcomingSocket := ⟨some synAck, some P.clientAddress⟩
        point := .handshake P.clientAddress P.bound (ackAt P.scfg.protocolVersion 1) (.start now) } := by
  have hne : syn ≠ [] := (isFrame_of_encode hsyn).ne_nil
  have hparse : getPacketFromBytes (syn.take commsBufferSize) =
      packetAt P.scfg.protocolVersion 0 false true P.ccfg.myAddress.port [] := by
    rw [← hproto]
    exact parse_received (by decide) hsyn
  have haccept : Accepter.acceptConnection { a with outbox := [] } (syn.take commsBufferSize)
      (some P.clientAddress) = .ok (getPacketFromBytes (syn.take commsBufferSize), P.clientAddress) := by
    simp only [Accepter.acceptConnection, validate_received hne, bind, Except.bind, hparse, packetAt,
      Bool.not_true, Bool.false_eq_true, if_false, hfree, pure, Except.pure]
  have hsend : Accepter.sendConnectionAccepted P.scfg { a with outbox := [] }
      (getPacketFromBytes (syn.take commsBufferSize)) P.clientAddress P.bound = .ok ({ a with
        outbox := [(synAck, P.clientAddress)]
        welcomingSocket := ⟨some synAck, some P.clientAddress⟩ }, P.clientAddress) := by
    have hmap : ((ackAt P.scfg.protocolVersion 0).map (·.value)).map
        (⟨·, P.scfg.protocolVersion⟩) = ackAt P.scfg.protocolVersion 0 := by
      cases P.scfg.protocolVersion <;> rfl
    have hencode : Protocol.encode P.scfg.protocolVersion ⟨0, P.scfg.protocolVersion⟩
        (ackAt P.scfg.protocolVersion 0) true true false P.bound.port [] = .ok synAck := hsynAck
    simp only [Accepter.sendConnectionAccepted, hparse, packetAt]
    exact Accepter.send_eq _ P.clientAddress (by rw [hmap]; exact hencode)
  have hack : (getPacketFromBytes (syn.take commsBufferSize)).ackNumber.map (fun n ↦
      SequenceNumber.step ⟨n, (getPacketFromBytes (syn.take commsBufferSize)).protocol⟩) =
        ackAt P.scfg.protocolVersion 1 := by
    rw [hparse, packetAt]
    cases P.scfg.protocolVersion <;> rfl
  have hversion : (getPacketFromBytes (syn.take commsBufferSize)).protocol = P.scfg.protocolVersion := by
    rw [hparse]
    rfl
  rw [step_accepting hr hp]
  simp only [Accepter.onAcceptConnection, haccept, Accepter.handshake, hfree, Bool.false_eq_true, if_false]
  rw [if_neg (not_not.mpr hversion), hsend]
  dsimp only
  rw [hack]

/-- A packet that is no SYN is turned down. -/
theorem step_plain (hr : a.Running) (hp : a.point = .acceptConnection) (hraw : Plain raw) (A : Address) :
    a.step P.scfg (.welcoming (.datagram raw (some A) now) P.bound) =
      Accepter.loop { a with outbox := [] } := by
  have hsyn : (getPacketFromBytes (raw.take commsBufferSize)).isSyn = false := by
    rw [getPacketFromBytes_take (by decide)]
    exact hraw.2
  have herror : Accepter.acceptConnection { a with outbox := [] } (raw.take commsBufferSize) (some A) =
      .error ExnClass.messageIsNotSyn.exn := by
    simp only [Accepter.acceptConnection, validate_received hraw.1.ne_nil, bind, Except.bind, hsyn,
      Bool.not_false, if_true]
  rw [step_accepting hr hp]
  simp only [Accepter.onAcceptConnection, herror]
  rfl

theorem fault_syn (hsyn : Packed P.ccfg 0 false true [] syn) (ack : Option SequenceNumber) :
    handshakeFault ack (getPacketFromBytes (syn.take commsBufferSize)) = some .messageIsNotAck := by
  rw [parse_received (by decide) hsyn]
  rfl

/-- Time passes, or another copy of the SYN comes. -/
theorem step_waits (hr : a.Running)
    (hp : a.point = .handshake P.clientAddress P.bound (ackAt P.scfg.protocolVersion 1) r)
    (hsocket : a.welcomingSocket = ⟨some synAck, some P.clientAddress⟩)
    (hsyn : Packed P.ccfg 0 false true [] syn)
    (hev : ev.Quiet ∨ ∃ A now, ev = .datagram syn (some A) now) (hg : a.gaveUp ev = false) :
    ∃ (r' : ReListen) (b : Bool), a.step P.scfg (.welcoming ev P.bound) = { a with
      outbox := if b then [(synAck, P.clientAddress)] else []
      point := .handshake P.clientAddress P.bound (ackAt P.scfg.protocolVersion 1) r' } := by
  unfold Accepter.gaveUp at hg
  rw [hp] at hg
  dsimp only at hg
  suffices hl : ∃ r' b, reListenIfFailed (expectHandshakeCompletion (ackAt P.scfg.protocolVersion 1))
      a.welcomingSocket r ev = .listening r' b by
    obtain ⟨r', b, hl⟩ := hl
    refine ⟨r', b, ?_⟩
    rw [step_shaking hr hp]
    simp only [Accepter.onHandshake, hl, Accepter.retransmit]
    rw [hsocket]
    cases b <;> rfl
  rcases hev with hev | ⟨A, now, rfl⟩
  · exact reListen_quiet rfl hev hg
  · have hcheck : (expectHandshakeCompletion (ackAt P.scfg.protocolVersion 1)).check
        (syn.take commsBufferSize) (some A) = .error ExnClass.messageIsNotAck.exn := by
      rw [expectHandshakeCompletion_check _ (take_comms_ne_nil (isFrame_of_encode hsyn).ne_nil),
        fault_syn hsyn]
    obtain ⟨r', hl⟩ := reListen_rejects hcheck (by simp [wantToCatchAll]) hg
    exact ⟨r', true, hl⟩

/-- The operation completes the handshake: its connection is put into the pool, and runs up to its first
receive. -/
theorem step_completes (hk : a.clients.Keyed) (hr : a.Running)
    (hp : a.point = .handshake P.clientAddress P.bound (ackAt P.scfg.protocolVersion 1) r)
    (hproto : P.ccfg.protocolVersion = P.scfg.protocolVersion) (hop : Asks P op) (A : Address)
    (now : Time) : a.step P.scfg (.welcoming (.datagram op (some A) now) P.bound) =
      let connection := Accepter.createConnection P.scfg P.bound P.clientAddress
        (getPacketFromBytes (op.take commsBufferSize)) a.disk now
      { a with
        outbox := []
        welcomingSocket := a.welcomingSocket.resetState
        clients := ClientPool.add (a.clients.filter fun e ↦ !e.2.isReadyToDie) P.bound.toCombined
          connection
        disk := connection.thread.disk
        point := .acceptConnection } := by
  have hne : op ≠ [] := (isFrame_of_encode hop).ne_nil
  have hparse : getPacketFromBytes (op.take commsBufferSize) = packetAt P.scfg.protocolVersion 1 true
      false P.ccfg.myAddress.port (BigEndian.toBytes 2 (Client.operationCode P.ccfg)) := by
    rw [← hproto]
    exact parse_received (by simp [commsBufferSize, gbnProtocolHeaderSize]) hop
  have hfault : handshakeFault (ackAt P.scfg.protocolVersion 1)
      (getPacketFromBytes (op.take commsBufferSize)) = none := by
    rw [hparse]
    cases P.scfg.protocolVersion <;> rfl
  have hcheck : (expectHandshakeCompletion (ackAt P.scfg.protocolVersion 1)).check
      (op.take commsBufferSize) (some A) = .ok (getPacketFromBytes (op.take commsBufferSize), A) := by
    rw [expectHandshakeCompletion_check _ (take_comms_ne_nil hne), hfault]
  have hl : reListenIfFailed (expectHandshakeCompletion (ackAt P.scfg.protocolVersion 1))
      a.welcomingSocket r (.datagram op (some A) now) =
        .returned (getPacketFromBytes (op.take commsBufferSize), A) := reListen_accepts hcheck
  rw [step_shaking hr hp]
  simp only [Accepter.onHandshake, hl, Accepter.addClient, hk.ripFinishedClients, bind, Except.bind, pure,
    Except.pure]
  rfl

end Accepter

end Rdt.Conversation
