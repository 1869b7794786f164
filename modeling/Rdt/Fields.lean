import Rdt.Client.Fields
import Rdt.Lib.Transition
import Rdt.Saw.Delivery
import Rdt.Server.Fields

/-!
# Which integers a run encodes

A client and the server with whatever the network makes of their datagrams.  Every integer fits its
field as long as the name and the size of the file on the client's side do.
-/

namespace Rdt

open PacketParser

/-- The datagrams that the threads of a server handed over in their last steps -/
def Server.Accepter.handedOver (a : Server.Accepter) : List Bytes :=
  (a.outbox ++ a.clients.flatMap fun e ↦ e.2.thread.outbox).map Prod.fst

/-- A client and a server, all datagrams handed over so far, and all exceptions raised. -/
structure Session where
  client : Client
  server : Server.Accepter
  wire : List Bytes
  raised : List ExnClass

namespace Session

/-- One event at either end -/
inductive Move where
  | client (ev : Event)
  | server (e : Server.ServerEvent)
deriving DecidableEq, Repr

/-- A datagram that arrives was handed over at some time; it may have come any number of times. -/
def Arrives (wire : List Bytes) : Event → Prop
  | .datagram raw _ _ => raw ∈ wire
  | _ => True

def Possible (s : Session) : Move → Prop
  | .client ev => Arrives s.wire ev
  | .server (.welcoming ev _) => Arrives s.wire ev
  | .server (.connection _ ev) => Arrives s.wire ev

instance (wire : List Bytes) (ev : Event) : Decidable (Arrives wire ev) := by
  unfold Arrives
  split <;> infer_instance

instance (s : Session) (m : Move) : Decidable (Possible s m) := by
  unfold Possible
  split <;> infer_instance

variable (ccfg : Client.Config) (scfg : Server.AccepterConfig)

def step (s : Session) : Move → Session
  | .client ev =>
      let client := s.client.step ccfg ev
      { s with
        client
        wire := s.wire ++ client.outbox.map Prod.fst
        raised := s.raised ++ Client.stepRaised ccfg s.client ev }
  | .server e =>
      let server := s.server.step scfg e
      { s with
        server
        wire := s.wire ++ server.handedOver
        raised := s.raised ++ Server.Accepter.stepRaised scfg s.server e }

/-- A client that has just started, and a server; `stale` is what other conversations have left on
the wire. -/
def start (client : Client) (clientDisk serverDisk : Disk) (now : Time) (stale : List Bytes) :
    Session where
  client
  server := .init serverDisk
  wire := stale ++ client.outbox.map Prod.fst
  raised := Client.startRaised ccfg clientDisk now

/-- No integer was out of the range of its field, and the size of the file is what the server reads
off the packet that tells it. -/
structure AllFit (file : File) (s : Session) : Prop where
  operationCode : BigEndian.fromBytes (BigEndian.toBytes 2 (Client.operationCode ccfg)) =
    Client.operationCode ccfg
  raised : ∀ e ∈ s.raised, ¬e.OutOfRange
  filesize : s.client.point = .informFilesize → ∃ raw ∈ s.client.socket.lastRawPacket,
    filesizeIn raw = file.content.length ∧
      ∀ (cfg : Server.Config) (c : Server.ClientConnection) source now,
        ∀ n ∈ c.actsOnFilesize cfg (.datagram raw source now), n = file.content.length

/-! ## The invariant -/

/-- What holds in every state -/
structure Settled (file : File) (s : Session) : Prop where
  client : Client.Settled file s.client
  server : Server.Accepter.Settled s.server
  wire : ∀ raw ∈ s.wire, Counted raw
  raised : AllInRange s.raised

variable {ccfg : Client.Config} {scfg : Server.AccepterConfig} {file : File} {s : Session}

theorem counts_of_arrives {wire : List Bytes} (hw : ∀ raw ∈ wire, Counted raw) {ev : Event}
    (h : Arrives wire ev) : ev.Counts := by
  rintro raw source now rfl
  exact hw raw h

/-- An end that is over packs nothing. -/
theorem Settled.client_step (h : Settled file s)
    (hfit : s.client.point = .ended ∨ Client.DataFits ccfg file) {ev : Event} (hev : ev.Counts) :
    Client.Settled file (s.client.step ccfg ev) ∧ AllInRange (Client.stepRaised ccfg s.client ev) := by
  rcases hfit with hp | hfit
  · refine ⟨?_, ?_⟩
    · rw [Client.step_ended hp]
      exact h.client.clearOutbox
    · intro e he
      simp [Client.stepRaised, Client.onEvent, hp, Client.raisedInHandle] at he
  · exact ⟨h.client.step hfit hev, h.client.stepRaised hfit hev⟩

theorem Settled.step (h : Settled file s) (hfit : s.client.point = .ended ∨ Client.DataFits ccfg file)
    {m : Move} (hm : Possible s m) : Settled file (step ccfg scfg s m) := by
  have grown : ∀ {raws : List Bytes}, (∀ raw ∈ raws, Counted raw) →
      ∀ raw ∈ s.wire ++ raws, Counted raw := by
    intro raws hraws raw hr
    rcases List.mem_append.mp hr with hr | hr
    · exact h.wire raw hr
    · exact hraws raw hr
  have logged : ∀ {es : List ExnClass}, AllInRange es → AllInRange (s.raised ++ es) := by
    intro es hes e he
    rcases List.mem_append.mp he with he | he
    · exact h.raised e he
    · exact hes e he
  cases m with
  | client ev =>
      obtain ⟨hc, hraised⟩ := h.client_step hfit (counts_of_arrives h.wire hm)
      refine ⟨hc, h.server, grown ?_, logged hraised⟩
      intro raw hr
      obtain ⟨o, ho, rfl⟩ := List.mem_map.mp hr
      exact hc.outbox o ho
  | server e =>
      have he : Server.Accepter.ServerEvent.Counts e := by
        cases e with
        | welcoming ev bound => exact counts_of_arrives h.wire hm
        | connection key ev => exact counts_of_arrives h.wire hm
      have hs : Server.Accepter.Settled (s.server.step scfg e) := h.server.step he
      refine ⟨h.client, hs, grown ?_, logged (h.server.stepRaised he)⟩
      intro raw hr
      obtain ⟨o, ho, rfl⟩ := List.mem_map.mp hr
      rcases List.mem_append.mp ho with ho | ho
      · exact hs.outbox o ho
      · obtain ⟨x, hx, ho⟩ := List.mem_flatMap.mp ho
        exact (hs.clients x hx).outbox o ho

theorem ended_step (hp : s.client.point = .ended) (m : Move) :
    (step ccfg scfg s m).client.point = .ended := by
  cases m with
  | client ev => exact congrArg Client.point (Client.step_ended hp) |>.trans hp
  | server e => exact hp

theorem filesizeIn_of_acts {cfg : Server.Config} {c : Server.ClientConnection} {raw : Bytes}
    {source : Option Address} {now : Time} {n : Nat}
    (h : n ∈ c.actsOnFilesize cfg (.datagram raw source now)) : n = filesizeIn raw := by
  unfold Server.ClientConnection.actsOnFilesize at h
  split at h
  · obtain ⟨r, hr, rfl⟩ := Option.mem_map.mp h
    obtain ⟨-, -, -, hr⟩ := ServerProtocol.receiveFilesize_eq_ok.mp (result_datagram hr)
    exact congrArg Prod.snd hr
  · cases h

theorem Settled.allFit (h : Settled file s) : AllFit ccfg file s := by
  constructor
  · unfold Client.operationCode
    split <;> decide
  · exact h.raised
  · intro hp
    have hat := h.client.atPoint
    unfold Client.AtPoint at hat
    rw [hp] at hat
    obtain ⟨raw, hraw, hsize⟩ := hat
    refine ⟨raw, hraw, hsize, ?_⟩
    intro cfg c source now n hn
    rw [filesizeIn_of_acts hn, hsize]

theorem settled_start {clientDisk clientDisk' : Disk} {client : Client} {now : Time}
    (hopen : Client.openFile ccfg clientDisk = .ok (file, clientDisk'))
    (hstart : Client.start ccfg clientDisk now = .ok client) (serverDisk : Disk) {stale : List Bytes}
    (hstale : ∀ raw ∈ stale, Counted raw) :
    Settled file (start ccfg client clientDisk serverDisk now stale) := by
  obtain ⟨c, hc, hsettled, hraised⟩ := Client.settled_start now hopen
  obtain rfl : c = client := Except.ok.inj (hc.symm.trans hstart)
  refine ⟨hsettled, .init serverDisk, ?_, hraised⟩
  intro raw hr
  rcases List.mem_append.mp hr with hr | hr
  · exact hstale raw hr
  · obtain ⟨o, ho, rfl⟩ := List.mem_map.mp hr
    exact hsettled.outbox o ho

/-! ## A client whose data does not fit -/

/-- The `k`-th number of a counter -/
def numberAt (protocol : ProtocolType) (k : Nat) : SequenceNumber :=
  SequenceNumber.step^[k] ⟨0, protocol⟩

/-- The ACK number that goes with it, under Go-Back-N -/
def ackAt (protocol : ProtocolType) (k : Nat) : Option SequenceNumber :=
  match protocol with
  | .stopAndWait => none
  | .goBackN => some (numberAt .goBackN k)

/-- A datagram that a server confirms the `k`-th packet of a client with -/
structure Confirms (protocol : ProtocolType) (k : Nat) (isSyn : Bool) (raw : Bytes) : Prop where
  counted : Counted raw
  length : raw.length ≤ gbnProtocolHeaderSize
  isAck : (getPacketFromBytes raw).isAck = true
  isSyn : (getPacketFromBytes raw).isSyn = isSyn
  isFin : (getPacketFromBytes raw).isFin = false
  sequenceNumber : (getPacketFromBytes raw).sequenceNumber = (numberAt protocol k).value
  ackNumber : ∀ m ∈ ackAt protocol k, (getPacketFromBytes raw).ackNumber = some m.value

/-- A client that has sent its `k`-th packet -/
structure Sent (cfg : Client.Config) (file : File) (k : Nat) (c : Client) : Prop where
  sequenceNumber : c.sequenceNumber = numberAt cfg.protocolVersion k
  ackNumber : c.ackNumber = ackAt cfg.protocolVersion k
  content : c.file.content = file.content

/-- The `k`-th packet of a client, as bytes -/
def Packed (cfg : Client.Config) (k : Nat) (isAck isSyn : Bool) (data raw : Bytes) : Prop :=
  Protocol.encode cfg.protocolVersion (numberAt cfg.protocolVersion k) (ackAt cfg.protocolVersion k)
    isAck isSyn false cfg.myAddress.port data = .ok raw

/-- A client that is blocked at `point` once it has sent its `k`-th packet -/
structure JustSent (cfg : Client.Config) (file : File) (k : Nat) (isAck isSyn : Bool) (data : Bytes)
    (point : Client.Point) (c : Client) : Prop extends Sent cfg file k c where
  point : c.point = point
  reachable : c.serverAddress.port ≠ 0
  outbox : ∃ raw, Packed cfg k isAck isSyn data raw ∧ c.outbox.map Prod.fst = [raw]

theorem JustSent.mem_outbox {cfg : Client.Config} {file : File} {k : Nat} {isAck isSyn : Bool}
    {data raw : Bytes} {point : Client.Point} {c : Client}
    (h : JustSent cfg file k isAck isSyn data point c) (hraw : Packed cfg k isAck isSyn data raw) :
    raw ∈ c.outbox.map Prod.fst := by
  obtain ⟨raw', hraw', hout⟩ := h.outbox
  obtain rfl : raw' = raw := Except.ok.inj (hraw'.symm.trans hraw)
  rw [hout]
  exact List.mem_singleton_self raw'

theorem numberAt_succ (protocol : ProtocolType) (k : Nat) :
    numberAt protocol (k + 1) = (numberAt protocol k).step :=
  Function.iterate_succ_apply' _ k _

theorem numberAt_protocol (protocol : ProtocolType) (k : Nat) :
    (numberAt protocol k).protocol = protocol := by
  induction k with
  | zero => rfl
  | succ k ih => rw [numberAt_succ, SequenceNumber.step_protocol, ih]

theorem numberAt_le (protocol : ProtocolType) (k : Nat) : (numberAt protocol k).value ≤ k := by
  induction k with
  | zero => exact le_refl 0
  | succ k ih =>
      rw [numberAt_succ]
      exact le_trans (SequenceNumber.step_value_le _) (Nat.succ_le_succ ih)

theorem exists_confirms (protocol : ProtocolType) {k : Nat} (hk : k ≤ 2) (isSyn : Bool)
    (port : UInt16) :
    ∃ raw, Confirms protocol k isSyn raw ∧ (getPacketFromBytes raw).port = port.toNat := by
  have hle := numberAt_le protocol k
  cases protocol with
  | stopAndWait =>
      have hlt : (numberAt .stopAndWait k).value < 2 := by
        have h : k = 0 ∨ k = 1 ∨ k = 2 := by omega
        rcases h with rfl | rfl | rfl <;> decide
      obtain ⟨raw, -, hlen, hparse⟩ : ∃ raw, Protocol.encode .stopAndWait (numberAt .stopAndWait k) none
          true isSyn false port [] = .ok raw ∧ raw.length = 6 + 0 ∧ getPacketFromBytes raw =
            ⟨.stopAndWait, (numberAt .stopAndWait k).value, true, isSyn, false, port.toNat, 0, [],
              none⟩ :=
        Protocol.encode_saw hlt (by decide)
      refine ⟨raw, ⟨?_, ?_, ?_, ?_, ?_, ?_, fun m hm ↦ (by cases hm)⟩, by rw [hparse]⟩
      · intro n hn
        rw [hparse] at hn
        cases hn
      · rw [hlen]
        decide
      · rw [hparse]
      · rw [hparse]
      · rw [hparse]
      · rw [hparse]
  | goBackN =>
      let n := numberAt .goBackN k
      have hsmall : n.value < 2 ^ 32 := lt_of_le_of_lt (le_trans hle hk) (by decide)
      obtain ⟨raw, hok⟩ := Protocol.encode_ok .goBackN (fun _ ↦ ⟨hsmall, n, rfl, hsmall⟩) true isSyn
        false port (show ([] : Bytes).length < 2 ^ 16 by decide)
      rcases Protocol.encode_gbn n n true isSyn false port [] with ⟨raw', hok', hlen, hparse⟩ | herror
      · refine ⟨raw', ⟨?_, ?_, ?_, ?_, ?_, ?_, ?_⟩, by rw [hparse]⟩
        · intro m hm
          rw [hparse] at hm
          exact Option.some.inj hm ▸ le_trans (le_trans hle hk) (by decide)
        · rw [hlen]
          exact le_refl _
        · rw [hparse]
        · rw [hparse]
        · rw [hparse]
        · rw [hparse]
        · intro m hm
          rw [hparse, ← Option.some.inj hm]
      · rw [hok] at herror
        cases herror

/-- The confirmation passes the checks of the client. -/
theorem Confirms.check {protocol : ProtocolType} {k : Nat} {isSyn : Bool} {raw : Bytes}
    (h : Confirms protocol k isSyn raw) (A : Address) :
    ClientProtocol.validateConfirmation (numberAt protocol k) (ackAt protocol k)
      (raw.take commsBufferSize) (some A) = .ok (getPacketFromBytes raw, A) := by
  have hcut : raw.take commsBufferSize = raw :=
    List.take_of_length_le (le_trans h.length (by decide))
  have hraw : raw ≠ [] := by
    rintro rfl
    exact absurd h.isAck (by decide)
  have hseq : ClientProtocol.validateSequenceNumber (getPacketFromBytes raw) (numberAt protocol k) =
      .ok () := Protocol.validateSequenceNumber_eq_ok.mpr h.sequenceNumber
  have hack : Protocol.validateAck ExnClass.messageIsNotAck.exn (getPacketFromBytes raw) = .ok () :=
    Protocol.validateAck_eq_ok.mpr h.isAck
  have hfin : Protocol.validateNotFin (getPacketFromBytes raw) = .ok () :=
    Protocol.validateNotFin_eq_ok.mpr h.isFin
  rw [hcut]
  unfold ClientProtocol.validateConfirmation ClientProtocol.validateInboundAck
    ClientProtocol.validateInboundPacket
  rw [Protocol.validateInboundPacket_of_ne_nil hraw]
  cases protocol with
  | stopAndWait =>
      simp only [ackAt, bind, Except.bind, hack, hfin, hseq, pure, Except.pure]
  | goBackN =>
      have hnumber : ClientProtocol.validateAckNumber (getPacketFromBytes raw) (numberAt .goBackN k) =
          .ok () := ClientProtocol.validateAckNumber_eq_ok.mpr (h.ackNumber _ rfl)
      simp only [ackAt, bind, Except.bind, hack, hnumber, hfin, hseq, pure, Except.pure]

section Sent

variable {c : Client} {k : Nat} (now : Time)

theorem Sent.stepped (h : Sent ccfg file k c) : Sent ccfg file (k + 1) c.stepSequence.stepAck := by
  refine ⟨?_, ?_, h.content⟩
  · show c.sequenceNumber.step = _
    rw [h.sequenceNumber, numberAt, numberAt, Function.iterate_succ_apply']
  · show c.ackNumber.map SequenceNumber.step = _
    rw [h.ackNumber]
    cases ccfg.protocolVersion with
    | stopAndWait => rfl
    | goBackN =>
        show some _ = some _
        rw [numberAt, numberAt, Function.iterate_succ_apply']

/-- The client's numbers fit, so only its data may not. -/
theorem Sent.send (h : Sent ccfg file k c) (hport : c.serverAddress.port ≠ 0) (hk : k ≤ 2)
    (isAck isSyn : Bool) {data : Bytes}
    (hdata : data.length < Protocol.payloadLimit ccfg.protocolVersion) :
    ∃ raw, Packed ccfg k isAck isSyn data raw ∧
      Client.send ccfg c isAck isSyn false ccfg.myAddress.port data = .ok (c.handed raw) := by
  have hn : c.sequenceNumber.value < 2 ^ 32 := by
    rw [h.sequenceNumber]
    exact lt_of_le_of_lt (le_trans (numberAt_le _ k) hk) (by decide)
  have hack : ∀ m ∈ c.ackNumber, m.value ≤ lastNumber := by
    rw [h.ackNumber]
    intro m hm
    unfold ackAt at hm
    split at hm
    · cases hm
    · rw [← Option.some.inj hm]
      exact le_trans (le_trans (numberAt_le _ k) hk) (by decide)
  rcases Protocol.encode_fits hn hack isAck isSyn false ccfg.myAddress.port hdata with
    ⟨raw, hok, -⟩ | ⟨hproto, hnone, -⟩
  · refine ⟨raw, ?_, by rw [Client.send_eq_encode ccfg hport, hok]⟩
    rw [Packed, ← h.sequenceNumber, ← h.ackNumber]
    exact hok
  · rw [h.ackNumber, hproto] at hnone
    cases hnone

theorem Sent.send_long (h : Sent ccfg file k c) (isAck isSyn isFin : Bool) (port : UInt16)
    {data : Bytes} (hdata : Protocol.payloadLimit ccfg.protocolVersion ≤ data.length) :
    Client.send ccfg c isAck isSyn isFin port data = .error (ExnClass.structError.exn, c) := by
  have hack : ccfg.protocolVersion = .goBackN → c.ackNumber ≠ none := by
    intro hproto hnone
    rw [h.ackNumber, hproto] at hnone
    cases hnone
  rw [Client.send, Protocol.encode_long hack isAck isSyn isFin port hdata]

theorem sent_start {disk disk' : Disk} (hopen : Client.openFile ccfg disk = .ok (file, disk'))
    (hport : ccfg.serverAddress.port ≠ 0) :
    ∃ c, Client.start ccfg disk now = .ok c ∧ JustSent ccfg file 0 false true [] .handshake c := by
  have h : Sent ccfg file 0 (Client.init ccfg file disk' now) := by
    refine ⟨rfl, ?_, rfl⟩
    unfold Client.init ackAt
    cases ccfg.protocolVersion <;> rfl
  obtain ⟨raw, hraw, hsend⟩ := h.send hport (by decide) false true (Protocol.nil_lt_payloadLimit _)
  refine ⟨((Client.init ccfg file disk' now).handed raw).block .handshake now, ?_,
    ⟨h.sequenceNumber, h.ackNumber, h.content⟩, rfl, hport, raw, hraw, rfl⟩
  simp only [Client.start, hopen, Client.requestConnection, bind, Except.bind, hsend]
  rfl

/-- A client whose SYN cannot be sent is over at once. -/
theorem start_ended {disk : Disk} {c : Client} (hport : ccfg.serverAddress.port = 0)
    (hstart : Client.start ccfg disk now = .ok c) : c.point = .ended ∧ c.outbox = [] := by
  obtain ⟨⟨file, disk'⟩, -, hrun⟩ := except_bind_eq_ok.mp hstart
  obtain rfl := Except.ok.inj hrun
  have hinit : (Client.init ccfg file disk' now).outbox = [] := rfl
  rcases Client.send_cases ccfg (Client.init ccfg file disk' now) false true false
    ccfg.myAddress.port [] with ⟨e, -, hsend⟩ | ⟨raw, -, hsend | hsend⟩
  · simp only [Client.requestConnection, hsend]
    exact ⟨rfl, hinit⟩
  · exact absurd hport ((Client.send_eq_ok ccfg).mp hsend).1
  · simp only [Client.requestConnection, hsend]
    exact ⟨rfl, hinit⟩

variable {raw : Bytes} (A : Address)

/-- The answer to the SYN: the operation code is sent. -/
theorem JustSent.connected (h : JustSent ccfg file 0 false true [] .handshake c)
    (hraw : Confirms ccfg.protocolVersion 0 true raw) :
    JustSent ccfg file 1 true false (BigEndian.toBytes 2 (Client.operationCode ccfg))
      (.sendOperationIntention ⟨A.host, UInt16.ofNat (getPacketFromBytes raw).port⟩)
      (c.step ccfg (.datagram raw (some A) now)) := by
  have hp := h.point
  let d : Client := { c with outbox := [], point := .handshake }
  have hd : Sent ccfg file 1 d.stepSequence.stepAck :=
    Sent.stepped ⟨h.sequenceNumber, h.ackNumber, h.content⟩
  obtain ⟨raw', hraw', hsend⟩ := hd.send h.reachable (by decide) true false
    (Protocol.toBytes_lt_payloadLimit _ (show 2 ≤ 4 by decide) (Client.operationCode ccfg))
  have hcheck : ((ClientProtocol.waitForConnectionRequestAnswer c.sequenceNumber c.ackNumber).letThrough
      [.unexpectedFinMessage, .messageIsNotAck]).check (raw.take commsBufferSize) (some A) =
        .ok ⟨A.host, UInt16.ofNat (getPacketFromBytes raw).port⟩ := by
    show (ClientProtocol.validateConfirmation c.sequenceNumber c.ackNumber _ _ >>= _) = _
    rw [h.sequenceNumber, h.ackNumber, hraw.check A]
    simp only [bind, Except.bind, hraw.isSyn]
    rfl
  have hstep : c.step ccfg (.datagram raw (some A) now) =
      (d.stepSequence.stepAck.handed raw').block
        (.sendOperationIntention ⟨A.host, UInt16.ofNat (getPacketFromBytes raw).port⟩) now := by
    simp only [Client.step, Client.onEvent, hp]
    refine (congrArg Client.swallow (Client.listen_returns hcheck)).trans ?_
    simp only [Client.onConnectionRequestAnswer, Client.sendOperationIntention, Event.now]
    rw [hsend]
    rfl
  rw [hstep]
  exact ⟨⟨hd.sequenceNumber, hd.ackNumber, hd.content⟩, rfl, h.reachable, raw', hraw', rfl⟩

/-- The confirmation of the operation: the name is sent, if its length has a value. -/
theorem Sent.confirmed (h : Sent ccfg file 1 c) {B : Address} (hp : c.point = .sendOperationIntention B)
    (hraw : Confirms ccfg.protocolVersion 1 false raw) {name : String} {point : Client.Point}
    (hname : ∀ c, Client.informName ccfg now c = Client.informFilename ccfg now point name c) :
    (Protocol.payloadLimit ccfg.protocolVersion ≤ (encodeUtf8 name).length →
      .structError ∈ Client.stepRaised ccfg c (.datagram raw (some A) now)) ∧
    ((encodeUtf8 name).length < Protocol.payloadLimit ccfg.protocolVersion → B.port ≠ 0 →
      JustSent ccfg file 2 false false (encodeUtf8 name) point
        (c.step ccfg (.datagram raw (some A) now))) := by
  let d : Client := { c with
    outbox := []
    serverAddress := B
    point := .sendOperationIntention B }
  have hd : Sent ccfg file 2 d.stepSequence.stepAck :=
    Sent.stepped ⟨h.sequenceNumber, h.ackNumber, h.content⟩
  have hcheck : ((ClientProtocol.waitForOperationConfirmation c.sequenceNumber c.ackNumber).letThrough
      [.unexpectedFinMessage]).check (raw.take commsBufferSize) (some A) =
        .ok (getPacketFromBytes raw) := by
    show (ClientProtocol.validateConfirmation c.sequenceNumber c.ackNumber _ _).map Prod.fst = _
    rw [h.sequenceNumber, h.ackNumber, hraw.check A]
    rfl
  have hevent : Client.onEvent ccfg { c with outbox := [] } (.datagram raw (some A) now) =
      Client.informFilename ccfg now point name d := by
    simp only [Client.onEvent, hp]
    refine (Client.listen_returns hcheck).trans ?_
    rw [Client.onOperationConfirmation]
    exact hname d
  constructor
  · intro hlong
    have hfails := hd.send_long false false false ccfg.myAddress.port hlong
    simp only [Client.stepRaised, hp]
    rw [hp] at hevent
    rw [hevent, Client.informFilename, hfails]
    exact List.mem_cons_self
  · intro hshort hport
    obtain ⟨raw', hraw', hsend⟩ := hd.send hport (le_refl 2) false false hshort
    have hne : c.point ≠ .handshake := by
      rw [hp]
      exact fun h ↦ (by cases h)
    have hne' : c.point ≠ .handleConnectionFinalization .exceptClause := by
      rw [hp]
      exact fun h ↦ (by cases h)
    rw [Client.step_eq_handle hne hne', hevent, Client.informFilename, hsend]
    exact ⟨⟨hd.sequenceNumber, hd.ackNumber, hd.content⟩, rfl, hport, raw', hraw', rfl⟩

/-- The confirmation of the name: a size of more than four bytes is not encoded. -/
theorem Sent.named (h : Sent ccfg file 2 c) (hp : c.point = .informFilename)
    (hraw : Confirms ccfg.protocolVersion 2 false raw) (hsize : 256 ^ 4 ≤ file.content.length) :
    .overflowError ∈ Client.stepRaised ccfg c (.datagram raw (some A) now) := by
  have hcheck : ((ClientProtocol.waitForAck c.sequenceNumber c.ackNumber).letThrough
      [.unexpectedFinMessage, .messageIsNotAck]).check (raw.take commsBufferSize) (some A) =
        .ok (getPacketFromBytes raw) := by
    show (ClientProtocol.validateConfirmation c.sequenceNumber c.ackNumber _ _).map Prod.fst = _
    rw [h.sequenceNumber, h.ackNumber, hraw.check A]
    rfl
  let d : Client := { c with outbox := [], point := .informFilename }
  have hfails : Client.informFilesize ccfg now d =
      .error (ExnClass.overflowError.exn, d.stepSequence.stepAck) := by
    have hnot : ¬d.stepSequence.stepAck.file.content.length < 256 ^ 4 := by
      show ¬c.file.content.length < 256 ^ 4
      rw [h.content]
      exact Nat.not_lt.mpr hsize
    rw [Client.informFilesize, if_neg hnot]
    rfl
  simp only [Client.stepRaised, Client.onEvent, hp]
  rw [Client.listen_returns hcheck]
  simp only [Client.onConfirmation, Event.now]
  rw [hfails]
  exact List.mem_cons_self

end Sent

theorem Arrives.append {wire : List Bytes} {ev : Event} (h : Arrives wire ev) (raws : List Bytes) :
    Arrives (wire ++ raws) ev := by
  cases ev with
  | datagram raw source now => exact List.mem_append_left raws h
  | timeout now => trivial
  | osError now => trivial
  | proceed now => trivial

/-- What is on the wire may arrive at the client one after the other. -/
theorem admits_client {evs : List Event} (h : ∀ ev ∈ evs, Arrives s.wire ev) :
    Lts.Admits (step ccfg scfg) Possible s (evs.map .client) := by
  induction evs generalizing s with
  | nil => trivial
  | cons ev evs ih =>
      refine ⟨h ev List.mem_cons_self, ih fun e he ↦ ?_⟩
      exact (h e (List.mem_cons_of_mem _ he)).append _

variable (scfg) in
theorem mem_raised_client {e : ExnClass} {ev : Event} (h : e ∈ Client.stepRaised ccfg s.client ev) :
    e ∈ (step ccfg scfg s (.client ev)).raised := List.mem_append_right _ h

/-- With the confirmations it waits for, a client gets as far as encoding what does not fit. -/
theorem exists_outOfRange (scfg : Server.AccepterConfig) (serverDisk : Disk)
    {clientDisk clientDisk' : Disk} {client : Client} {now : Time}
    (hopen : Client.openFile ccfg clientDisk = .ok (file, clientDisk'))
    (hstart : Client.start ccfg clientDisk now = .ok client) (hport : ccfg.serverAddress.port ≠ 0)
    (hfit : ¬Client.DataFits ccfg file) :
    ∃ (stale : List Bytes) (moves : List Move), (∀ raw ∈ stale, Counted raw) ∧
      Lts.Admits (step ccfg scfg) Possible (start ccfg client clientDisk serverDisk now stale) moves ∧
      ∃ e ∈ (moves.foldl (step ccfg scfg)
        (start ccfg client clientDisk serverDisk now stale)).raised, e.OutOfRange := by
  obtain ⟨raw₀, h₀, hbound⟩ := exists_confirms ccfg.protocolVersion (show 0 ≤ 2 by decide) true
    ccfg.serverAddress.port
  obtain ⟨raw₁, h₁, -⟩ := exists_confirms ccfg.protocolVersion (show 1 ≤ 2 by decide) false 0
  obtain ⟨raw₂, h₂, -⟩ := exists_confirms ccfg.protocolVersion (show 2 ≤ 2 by decide) false 0
  let A := ccfg.serverAddress
  let stale := [raw₀, raw₁, raw₂]
  let s := start ccfg client clientDisk serverDisk now stale
  let ev (raw : Bytes) : Event := .datagram raw (some A) now
  have hstale : ∀ raw ∈ stale, Counted raw := by
    intro raw hr
    rcases List.mem_cons.mp hr with rfl | hr
    · exact h₀.counted
    rcases List.mem_cons.mp hr with rfl | hr
    · exact h₁.counted
    · exact List.mem_singleton.mp hr ▸ h₂.counted
  suffices h : ∃ raws : List Bytes, (∀ raw ∈ raws, raw ∈ stale) ∧
      ∃ e ∈ (((raws.map ev).map .client).foldl (step ccfg scfg) s).raised, e.OutOfRange by
    obtain ⟨raws, hraws, he⟩ := h
    refine ⟨stale, (raws.map ev).map .client, hstale, admits_client ?_, he⟩
    intro e he
    obtain ⟨raw, hr, rfl⟩ := List.mem_map.mp he
    exact List.mem_append_left _ (hraws raw hr)
  obtain ⟨c, hc, hsyn⟩ := sent_start now hopen hport
  obtain rfl : c = client := Except.ok.inj (hc.symm.trans hstart)
  have hop := hsyn.connected now A h₀
  rw [hbound, UInt16.ofNat_toNat] at hop
  have long : ∀ name point, (∀ c, Client.informName ccfg now c =
      Client.informFilename ccfg now point name c) →
      Protocol.payloadLimit ccfg.protocolVersion ≤ (encodeUtf8 name).length →
      ∃ e ∈ ((([raw₀, raw₁].map ev).map .client).foldl (step ccfg scfg) s).raised, e.OutOfRange := by
    intro name point hname hlong
    refine ⟨.structError, mem_raised_client scfg ?_, by decide⟩
    exact (hop.toSent.confirmed now A hop.point h₁ hname).1 hlong
  have htwo : ∀ raw ∈ [raw₀, raw₁], raw ∈ stale := fun raw hr ↦
    List.mem_append_left [raw₂] hr
  unfold Client.DataFits at hfit
  split at hfit
  · rename_i src name htask
    have hname : ∀ c, Client.informName ccfg now c =
        Client.informFilename ccfg now .informFilename name c := by
      intro c
      simp only [Client.informName, htask]
    by_cases hlen : (encodeUtf8 name).length < Protocol.payloadLimit ccfg.protocolVersion
    · have hsize : 256 ^ 4 ≤ file.content.length := Nat.not_lt.mp fun h ↦ hfit ⟨hlen, h⟩
      have hnamed := (hop.toSent.confirmed now A hop.point h₁ hname).2 hlen hport
      refine ⟨stale, fun _ hr ↦ hr, .overflowError, mem_raised_client scfg ?_, by decide⟩
      exact hnamed.toSent.named now A hnamed.point h₂ hsize
    · exact ⟨_, htwo, long name _ hname (Nat.not_lt.mp hlen)⟩
  · rename_i dst name htask
    refine ⟨_, htwo, long name .informNameToDownload (fun c ↦ ?_) (Nat.not_lt.mp hfit)⟩
    simp only [Client.informName, htask]

/-- Along every run of an upload or a download everything encoded fits, provided that the name and,
for an upload, the size do, or that not even the SYN can be sent. -/
theorem allFit_of_dataFits {clientDisk clientDisk' serverDisk : Disk} {client : Client} {now : Time}
    {stale : List Bytes} {moves : List Move}
    (hopen : Client.openFile ccfg clientDisk = .ok (file, clientDisk'))
    (hstart : Client.start ccfg clientDisk now = .ok client)
    (hfit : ccfg.serverAddress.port = 0 ∨ Client.DataFits ccfg file)
    (hstale : ∀ raw ∈ stale, Counted raw)
    (hmoves : Lts.Admits (step ccfg scfg) Possible
      (start ccfg client clientDisk serverDisk now stale) moves) :
    AllFit ccfg file
      (moves.foldl (step ccfg scfg) (start ccfg client clientDisk serverDisk now stale)) := by
  have hinit := settled_start hopen hstart serverDisk hstale
  have hfit : (start ccfg client clientDisk serverDisk now stale).client.point = .ended ∨
      Client.DataFits ccfg file := hfit.imp_left fun hport ↦ (start_ended now hport hstart).1
  have hrun := hmoves.invariant
    (I := fun _ s ↦ Settled file s ∧ (s.client.point = .ended ∨ Client.DataFits ccfg file))
    ⟨hinit, hfit⟩ fun _ h hm ↦ ⟨h.1.step h.2 hm, h.2.imp_left (ended_step · _)⟩
  exact hrun.1.allFit

/-- The integers of every run fit if and only if the name and, for an upload, the size of the file do,
unless the client cannot even send its SYN; neither is looked at before it is encoded. -/
theorem allFit_iff_dataFits (ccfg : Client.Config) {clientDisk clientDisk' : Disk} {file : File}
    (hopen : Client.openFile ccfg clientDisk = .ok (file, clientDisk')) :
    (∀ (scfg : Server.AccepterConfig) (serverDisk : Disk) (now : Time) (client : Client)
        (stale : List Bytes) (moves : List Move), Client.start ccfg clientDisk now = .ok client →
      (∀ raw ∈ stale, Counted raw) →
      Lts.Admits (step ccfg scfg) Possible (start ccfg client clientDisk serverDisk now stale) moves →
      AllFit ccfg file
        (moves.foldl (step ccfg scfg) (start ccfg client clientDisk serverDisk now stale))) ↔
      ccfg.serverAddress.port = 0 ∨ Client.DataFits ccfg file := by
  constructor
  · intro h
    by_contra hnot
    obtain ⟨hport, hfit⟩ := not_or.mp hnot
    obtain ⟨client, hstart, -⟩ := sent_start 0 hopen hport
    let scfg : Server.AccepterConfig := ⟨ccfg.protocolVersion, ccfg.serverAddress, ccfg.fileHandler⟩
    obtain ⟨stale, moves, hstale, hmoves, e, he, hout⟩ :=
      exists_outOfRange scfg clientDisk hopen hstart hport hfit
    exact (h scfg clientDisk 0 client stale moves hstart hstale hmoves).raised e he hout
  · intro hfit scfg serverDisk now client stale moves hstart hstale hmoves
    exact allFit_of_dataFits hopen hstart hfit hstale hmoves

namespace Local

def handler : FileHandler := ⟨"storage", fun _ ↦ true, some, 2 * minimumFreeGap, fun _ ↦ 0⟩

def alice : Address := ⟨"127.0.0.1", 5001⟩

def welcomingAddress : Address := ⟨"127.0.0.1", 7000⟩

theorem connectionPort_ne_zero : (7001 : UInt16) ≠ 0 := by decide

def connectionAddress : Peer := ⟨⟨"127.0.0.1", 7001⟩, connectionPort_ne_zero⟩

def uploader (protocol : ProtocolType) : Client.Config :=
  ⟨protocol, welcomingAddress, alice, handler, .upload "notes.txt" "notes.txt"⟩

def accepter (protocol : ProtocolType) : Server.AccepterConfig :=
  ⟨protocol, welcomingAddress, handler⟩

/-- The storage of the client -/
def disk (content : Bytes) : Disk := fun path ↦ if path = "notes.txt" then some content else none

def notes (content : Bytes) : File := .forReading "notes.txt" (some "notes.txt") content

/-- The SYN, the operation and the name -/
def asked : ProtocolType → List Bytes
  | .stopAndWait =>
      [[8, 0, 19, 137, 0, 0], [48, 0, 19, 137, 0, 2, 0, 2],
        [0, 0, 19, 137, 0, 9, 110, 111, 116, 101, 115, 46, 116, 120, 116]]
  | .goBackN =>
      [[80, 0, 19, 137, 0, 0, 0, 0, 0, 0, 0, 0, 0, 0, 0, 0],
        [96, 0, 19, 137, 0, 0, 0, 2, 0, 0, 0, 1, 0, 0, 0, 1, 0, 2],
        [64, 0, 19, 137, 0, 0, 0, 9, 0, 0, 0, 2, 0, 0, 0, 2,
          110, 111, 116, 101, 115, 46, 116, 120, 116]]

/-- What the server answers -/
def answered : ProtocolType → List Bytes
  | .stopAndWait => [[24, 0, 27, 89, 0, 0], [48, 0, 27, 89, 0, 0], [16, 0, 27, 89, 0, 0]]
  | .goBackN =>
      [[112, 0, 27, 89, 0, 0, 0, 0, 0, 0, 0, 0, 0, 0, 0, 0],
        [96, 0, 27, 89, 0, 0, 0, 0, 0, 0, 0, 1, 0, 0, 0, 1],
        [96, 0, 27, 89, 0, 0, 0, 0, 0, 0, 0, 2, 0, 0, 0, 2]]

/-- The handshake, the operation and the name, all of it answered -/
def moves (protocol : ProtocolType) : List Move :=
  let asks (k : Nat) : Event := .datagram ((asked protocol).getD k []) (some alice) 0
  let answers (k : Nat) (source : Address) : Event :=
    .datagram ((answered protocol).getD k []) (some source) 0
  [.server (.welcoming (asks 0) connectionAddress), .client (answers 0 welcomingAddress),
    .server (.welcoming (asks 1) connectionAddress), .client (answers 1 connectionAddress),
    .server (.connection connectionAddress.toCombined (asks 2)),
    .client (answers 2 connectionAddress)]

/-- The session before the first of them -/
def session (protocol : ProtocolType) (content : Bytes) (client : Client) : Session :=
  start (uploader protocol) client (disk content) (fun _ ↦ none) 0 []

theorem openFile_notes (protocol : ProtocolType) (content : Bytes) :
    Client.openFile (uploader protocol) (disk content) = .ok (notes content, disk content) := by
  have hpath : FileHandler.hasNull "notes.txt" = false := by decide +kernel
  simp [Client.openFile, uploader, FileHandler.openFileReadMode, FileHandler.getFilepath,
    FileHandler.openFileRead, FileHandler.lookup, hpath, disk, handler, notes, Except.map]

theorem confirms_answered (protocol : ProtocolType) :
    Confirms protocol 0 true ((answered protocol).getD 0 []) ∧
      Confirms protocol 1 false ((answered protocol).getD 1 []) ∧
      Confirms protocol 2 false ((answered protocol).getD 2 []) := by
  cases protocol <;> refine ⟨?_, ?_, ?_⟩ <;>
    exact ⟨by decide, by decide, by decide, by decide, by decide, by decide, by decide⟩

theorem packed_asked (protocol : ProtocolType) :
    Packed (uploader protocol) 0 false true [] ((asked protocol).getD 0 []) ∧
      Packed (uploader protocol) 1 true false (BigEndian.toBytes 2 uploadOperation)
        ((asked protocol).getD 1 []) ∧
      Packed (uploader protocol) 2 false false (encodeUtf8 "notes.txt")
        ((asked protocol).getD 2 []) := by
  unfold Packed
  cases protocol <;> decide +kernel

/-- The server after the first `k` moves -/
def server (protocol : ProtocolType) (k : Nat) : Server.Accepter :=
  (((moves protocol).take k).filterMap fun
    | .server e => some e
    | .client _ => none).foldl (Server.Accepter.step (accepter protocol)) (.init fun _ ↦ none)

theorem answered_mem_handedOver (protocol : ProtocolType) :
    (answered protocol).getD 0 [] ∈ (server protocol 1).handedOver ∧
      (answered protocol).getD 1 [] ∈ (server protocol 3).handedOver ∧
      (answered protocol).getD 2 [] ∈ (server protocol 5).handedOver := by
  cases protocol <;> decide +kernel

/-- The name is confirmed, and the size is next. -/
theorem moves_admitted (protocol : ProtocolType) (content : Bytes) :
    ∃ client, Client.start (uploader protocol) (disk content) 0 = .ok client ∧
      Lts.Admits (step (uploader protocol) (accepter protocol)) Possible
        (session protocol content client) (moves protocol) ∧
      (256 ^ 4 ≤ content.length →
        .overflowError ∈ ((moves protocol).foldl (step (uploader protocol) (accepter protocol))
          (session protocol content client)).raised) := by
  obtain ⟨hsynAck, hopAck, hnameAck⟩ := confirms_answered protocol
  obtain ⟨hsyn, hop, hname⟩ := packed_asked protocol
  obtain ⟨m₁, m₂, m₃⟩ := answered_mem_handedOver protocol
  have hshort : (encodeUtf8 "notes.txt").length < Protocol.payloadLimit protocol := by
    cases protocol <;> decide +kernel
  have hport : welcomingAddress.port ≠ 0 := by decide
  obtain ⟨c, hc, h₀⟩ := sent_start 0 (openFile_notes protocol content) hport
  have h₁ := h₀.connected 0 welcomingAddress hsynAck
  have h₂ := (h₁.toSent.confirmed 0 connectionAddress h₁.point hopAck fun _ ↦ rfl).2 hshort
    (by cases protocol <;> decide)
  refine ⟨c, hc, ⟨?_, ?_, ?_, ?_, ?_, ?_, trivial⟩, fun hlong ↦ List.mem_append_right _ ?_⟩
  · exact List.mem_append_right _ (h₀.mem_outbox hsyn)
  · exact List.mem_append_right _ m₁
  · exact List.mem_append_right _ (h₁.mem_outbox hop)
  · exact List.mem_append_right _ m₂
  · exact List.mem_append_right _ (h₂.mem_outbox hname)
  · exact List.mem_append_right _ m₃
  · exact h₂.toSent.named 0 connectionAddress h₂.point hnameAck hlong

end Local

theorem allFit_upload : ∃ client,
    Client.start (Local.uploader .goBackN) (Local.disk [7]) 0 = .ok client ∧
      AllFit (Local.uploader .goBackN) (Local.notes [7])
        ((Local.moves .goBackN).foldl (step (Local.uploader .goBackN) (Local.accepter .goBackN))
          (start (Local.uploader .goBackN) client (Local.disk [7]) (fun _ ↦ none) 0 [])) := by
  obtain ⟨client, hstart, hmoves, -⟩ := Local.moves_admitted .goBackN [7]
  refine ⟨client, hstart, ?_⟩
  exact (allFit_iff_dataFits (Local.uploader .goBackN) (Local.openFile_notes .goBackN [7])).mpr
    (.inr (by decide +kernel)) (Local.accepter .goBackN) (fun _ ↦ none) 0 client [] (Local.moves .goBackN)
    hstart (fun _ h ↦ (by cases h)) hmoves

/-- A file of 2³² bytes: nothing is lost, and the upload ends with an exception of the client. -/
theorem not_allFit_upload : ∃ client,
    Client.start (Local.uploader .goBackN) (Local.disk (List.replicate (2 ^ 32) 0)) 0 = .ok client ∧
      Lts.Admits (step (Local.uploader .goBackN) (Local.accepter .goBackN)) Possible
        (start (Local.uploader .goBackN) client (Local.disk (List.replicate (2 ^ 32) 0))
          (fun _ ↦ none) 0 []) (Local.moves .goBackN) ∧
      ¬AllFit (Local.uploader .goBackN) (Local.notes (List.replicate (2 ^ 32) 0))
        ((Local.moves .goBackN).foldl (step (Local.uploader .goBackN) (Local.accepter .goBackN))
          (start (Local.uploader .goBackN) client (Local.disk (List.replicate (2 ^ 32) 0))
            (fun _ ↦ none) 0 [])) := by
  obtain ⟨client, hstart, hmoves, hraised⟩ :=
    Local.moves_admitted .goBackN (List.replicate (2 ^ 32) 0)
  refine ⟨client, hstart, hmoves, fun h ↦ h.raised .overflowError (hraised ?_) (by decide)⟩
  rw [List.length_replicate]
  exact Nat.le_of_eq (by norm_num)

end Session

end Rdt
