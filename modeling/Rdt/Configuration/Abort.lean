import Rdt.Configuration.Server
import Rdt.Lib.Lockstep

/-!
# An abort and what the connection is configured with

The name and the size that a connection acts on are those the client sent, unless the client gives up
its wait for the confirmation of the name while the connection still waits for the name or the size:
its closing ACK then has the number of the packet with the size.
-/

namespace Rdt.Configuration

open Duplex PacketParser Session Server

variable {ccfg : Client.Config} {scfg : Server.Config} {file : File} {name : String} {disk : Disk}
  {w : World Client ClientConnection Bytes Bytes}

/-! ## The start -/

/-- The client has answered the handshake by its operation; since then it may have retransmitted it. -/
def OperationSent (cfg : Client.Config) (peer : Address) (file : File) (c : Client) : Prop :=
  ∃ c₀ now e, Sent cfg file 0 c₀ ∧ c₀.serverAddress = cfg.serverAddress ∧
    Client.sendOperationIntention cfg now peer (Client.operationCode cfg) c₀ = .ok e ∧
      c = { e with listening := c.listening, outbox := c.outbox }

/-- The thread of the connection starts, from the operation that the client has sent to the welcoming
socket.  Only the answers to the handshake and the first ACK are in flight. -/
structure Starts (ccfg : Client.Config) (scfg : Server.Config) (disk : Disk) (file : File)
    (w : World Client ClientConnection Bytes Bytes) : Prop where
  protocol : scfg.protocolVersion = ccfg.protocolVersion
  address : ccfg.serverAddress ≠ scfg.address
  client : OperationSent ccfg scfg.address file w.left
  packet : ∃ raw ∈ w.left.socket.lastRawPacket,
    scfg.initialPacket = getPacketFromBytes (raw.take commsBufferSize)
  connection : ∃ now, w.right = ClientConnection.start scfg disk now
  toRight : w.toRight = []
  toLeft : ∃ old, (∀ raw ∈ old, Confirms ccfg.protocolVersion 0 true raw) ∧
    w.toLeft = old ++ w.right.outbox.to scfg.clientAddress

theorem OperationSent.awaits {peer : Address} {c : Client} (h : OperationSent ccfg peer file c)
    (hne : ccfg.serverAddress ≠ peer) :
    Awaits ccfg file peer ccfg.serverAddress 1 (.sendOperationIntention peer) (fun _ ↦ False) c ∧
      ∃ raw, c.socket.lastRawPacket = some raw ∧
        Packed ccfg 1 true false (BigEndian.toBytes 2 (Client.operationCode ccfg)) raw := by
  obtain ⟨c₀, now, e, hs, haddress, hsent, hc⟩ := h
  have hd := hs.stepped
  obtain ⟨d, hsend, hrun⟩ := except_bind_eq_ok.mp hsent
  obtain ⟨hport, raw, hraw, rfl⟩ := (Client.send_eq_ok ccfg).mp hsend
  rw [hd.sequenceNumber, hd.ackNumber] at hraw
  rw [hc, ← Except.ok.inj hrun]
  refine ⟨⟨⟨hd.sequenceNumber, hd.ackNumber, hd.content⟩, rfl, haddress, hport, ?_⟩, raw, rfl, hraw⟩
  show ∀ raw' ∈ Outbox.to [(raw, c₀.serverAddress)] peer, False
  rw [haddress]
  intro raw' hr
  rw [Outbox.to_cons_of_ne hne] at hr
  cases hr

/-- The connection confirms the operation, and waits for the name. -/
theorem Starts.naming (h : Starts ccfg scfg disk file w) (hop : Client.operationCode ccfg = uploadOperation) :
    Naming scfg w.right ∧ ∀ raw ∈ w.right.outbox.to scfg.clientAddress,
      Confirms scfg.protocolVersion 1 false raw := by
  obtain ⟨-, raw, hlast, hraw⟩ := h.client.awaits h.address
  obtain ⟨raw', hraw', hpacket⟩ := h.packet
  obtain ⟨now, hright⟩ := h.connection
  obtain rfl : raw' = raw := Option.some.inj (hraw'.symm.trans hlast)
  obtain ⟨m, hparse, -, hgbn⟩ := Protocol.parse_of_encode (fun hp ↦ numberAt_lt hp 1) hraw
  have hcode : ServerProtocol.processOperationIntention scfg.initialPacket = .ok uploadOperation := by
    rw [hpacket, getPacketFromBytes_take (by decide), hparse, hop]
    cases ccfg.protocolVersion <;> rfl
  have key : ∀ c : ClientConnection, c.outbox = [] →
      c.sequenceNumber = numberAt scfg.protocolVersion 1 → c.ackNumber = ackAt scfg.protocolVersion 1 →
      w.right = ClientConnection.handle scfg now
        (ClientConnection.processOperationIntention scfg now c) →
      Naming scfg w.right ∧ ∀ raw ∈ w.right.outbox.to scfg.clientAddress,
        Confirms scfg.protocolVersion 1 false raw := by
    intro c hout hseq hack hw
    obtain ⟨ack, hsend, hconfirms⟩ := sends_confirmation scfg
      (c := { c with state := .readyToReceive }) (by decide) hseq hack
    have only : ∀ raw ∈ Outbox.to [(ack, scfg.clientAddress)] scfg.clientAddress,
        Confirms scfg.protocolVersion 1 false raw :=
      fun raw hr ↦ Outbox.eq_of_mem_to hr ▸ hconfirms
    rw [ClientConnection.processOperationIntention, hcode] at hw
    dsimp only at hw
    rw [if_pos rfl, hsend] at hw
    rw [hw]
    refine ⟨⟨rfl, ?_, ?_, only⟩, ?_⟩
    · show c.sequenceNumber.step = _
      rw [hseq]
      exact (numberAt_succ _ 1).symm
    · show c.ackNumber.map SequenceNumber.step = _
      rw [hack]
      unfold ackAt
      split
      · rfl
      · exact congrArg some (numberAt_succ .goBackN 1).symm
    · show ∀ raw ∈ Outbox.to (c.outbox ++ [(ack, scfg.clientAddress)]) scfg.clientAddress, _
      rw [hout]
      exact only
  unfold ClientConnection.start at hright
  cases hproto : scfg.protocolVersion with
  | stopAndWait =>
      rw [hproto] at hright key
      refine key _ rfl ?_ rfl hright
      rw [ClientConnection.init, hpacket, getPacketFromBytes_take (by decide), hparse, hproto, ← h.protocol,
        hproto]
      rfl
  | goBackN =>
      have hack : scfg.initialPacket.ackNumber = some (numberAt .goBackN 1).value := by
        rw [hpacket, getPacketFromBytes_take (by decide), hparse, hgbn (h.protocol ▸ hproto),
          ← h.protocol, hproto]
        rfl
      rw [hproto] at hright key
      dsimp only at hright
      rw [hack] at hright
      refine key _ rfl ?_ rfl hright
      rw [ClientConnection.init, hpacket, getPacketFromBytes_take (by decide), hparse, hproto, ← h.protocol,
        hproto]
      rfl

/-! ## The system -/

/-- The client gives up its wait for the confirmation of the name. -/
def AbandonsFilename (cfg : Client.Config) (c : Client) (ev : Event) : Prop :=
  c.point = .informFilename ∧ ∃ e ∈ (c.listened cfg ev).exn, e.cls = .connectionLost

/-- The connection waits for the name or for the size. -/
def Unconfigured (c : ClientConnection) : Prop :=
  c.phase = .naming ∨ ∃ name, c.phase = .sizing name

/-- The two ends of an upload as long as the events of the client are ones that `ok` allows next to the
connection.  Either end may give up. -/
def uploads (ccfg : Client.Config) (scfg : Server.Config)
    (ok : ClientConnection → Client → Event → Prop) :
    Lts (World Client ClientConnection Bytes Bytes) (Label Bytes Bytes) where
  step w := Step .fifo
    (.ofFunWhile (Client.react ccfg scfg.address)
      (fun i ↦ arrivals scfg.address i ∪ arrivals ccfg.serverAddress i) (ok w.right))
    (ClientConnection.node scfg) w

/-- The client does not give up its wait for the confirmation of the name as long as the connection waits
for the name or the size. -/
def Patient (cfg : Client.Config) (d : ClientConnection) (c : Client) (ev : Event) : Prop :=
  Unconfigured d → ¬AbandonsFilename cfg c ev

/-- The connection acts on the name and the size that the client sent with `inform_filename` and
`inform_filesize`, and on them alone. -/
def ActsAsInformed (ccfg : Client.Config) (scfg : Server.Config) (name : String) (size : Nat)
    (w : World Client ClientConnection Bytes Bytes) : Prop :=
  ∀ raw ∈ w.toRight.head?, ∀ now,
    (∀ n ∈ w.right.actsOnFilename scfg (.datagram raw (some scfg.clientAddress) now),
      InformsFilename ccfg name raw ∧ n = name) ∧
    ∀ n ∈ w.right.actsOnFilesize scfg (.datagram raw (some scfg.clientAddress) now),
      InformsFilesize ccfg size raw ∧ n = size

/-! ## The invariant -/

/-- What a client may have sent to the connection by the time the size is confirmed -/
def Sends (cfg : Client.Config) (name : String) (size : Nat) (raw : Bytes) : Prop :=
  InformsFilename cfg name raw ∨ InformsFilesize cfg size raw ∨ Numbered cfg.protocolVersion 4 raw

/-- How far the configuration has got, and what is in flight then. -/
inductive Stage (ccfg : Client.Config) (scfg : Server.Config) (file : File) (name : String)
    (w : World Client ClientConnection Bytes Bytes) : Prop
  | operation
      (hc : Awaits ccfg file scfg.address ccfg.serverAddress 1 (.sendOperationIntention scfg.address)
        (fun _ ↦ False) w.left)
      (hd : Naming scfg w.right) (hr : w.toRight = [])
      (hl : InOrder (Confirms ccfg.protocolVersion 0 true) (Confirms ccfg.protocolVersion 1 false)
        w.toLeft)
  | filename
      (hc : Awaits ccfg file scfg.address scfg.address 2 .informFilename (InformsFilename ccfg name)
        w.left)
      (hd : Naming scfg w.right) (hr : ∀ raw ∈ w.toRight, InformsFilename ccfg name raw)
      (hl : ∀ raw ∈ w.toLeft, Confirms ccfg.protocolVersion 1 false raw)
  | named
      (hc : Awaits ccfg file scfg.address scfg.address 2 .informFilename (InformsFilename ccfg name)
        w.left)
      (hd : Sizing scfg w.right) (hr : ∀ raw ∈ w.toRight, InformsFilename ccfg name raw)
      (hl : InOrder (Confirms ccfg.protocolVersion 1 false) (Confirms ccfg.protocolVersion 2 false)
        w.toLeft)
  | filesize
      (hc : Awaits ccfg file scfg.address scfg.address 3 .informFilesize
        (Sends ccfg name file.content.length) w.left)
      (hd : Sizing scfg w.right) (hr : ∀ raw ∈ w.toRight, Sends ccfg name file.content.length raw)
      (hl : ∀ raw ∈ w.toLeft, Confirms ccfg.protocolVersion 2 false raw)
  | partedUnnamed
      (hc : Parted scfg.address (InformsFilename ccfg name) w.left) (hd : Naming scfg w.right)
      (hr : ∀ raw ∈ w.toRight, InformsFilename ccfg name raw)
  | parted
      (hc : Parted scfg.address (Sends ccfg name file.content.length) w.left) (hd : Sizing scfg w.right)
      (hr : ∀ raw ∈ w.toRight, Sends ccfg name file.content.length raw)
  | configured (hd : Configured scfg w.right)

theorem Starts.stage (h : Starts ccfg scfg disk file w)
    (hop : Client.operationCode ccfg = uploadOperation) : Stage ccfg scfg file name w := by
  obtain ⟨hnaming, hack⟩ := h.naming hop
  obtain ⟨old, hold, htl⟩ := h.toLeft
  rw [h.protocol] at hack
  refine .operation (h.client.awaits h.address).1 hnaming h.toRight ?_
  rw [htl]
  exact (InOrder.of_left hold).append hack

theorem Stage.lose (h : Stage ccfg scfg file name w) {p q : List Bytes} (hp : p.Sublist w.toRight)
    (hq : q.Sublist w.toLeft) : Stage ccfg scfg file name ⟨w.left, w.right, p, q⟩ := by
  cases h with
  | operation hc hd hr hl => exact .operation hc hd (List.sublist_nil.mp (hr ▸ hp)) (hl.sublist hq)
  | filename hc hd hr hl => exact .filename hc hd (forall_sublist hr hp) (forall_sublist hl hq)
  | named hc hd hr hl => exact .named hc hd (forall_sublist hr hp) (hl.sublist hq)
  | filesize hc hd hr hl => exact .filesize hc hd (forall_sublist hr hp) (forall_sublist hl hq)
  | partedUnnamed hc hd hr => exact .partedUnnamed hc hd (forall_sublist hr hp)
  | parted hc hd hr => exact .parted hc hd (forall_sublist hr hp)
  | configured hd => exact .configured hd

/-! ## The steps of the client -/

theorem not_numbered_confirms {protocol : ProtocolType} {j k : Nat} {isSyn : Bool} {raw : Bytes}
    (hne : (numberAt protocol j).value ≠ (numberAt protocol k).value) (hraw : Numbered protocol k raw) :
    ¬Confirms protocol j isSyn raw :=
  fun h ↦ hne (h.sequenceNumber.symm.trans hraw)

theorem numberAt_ne (protocol : ProtocolType) :
    (numberAt protocol 0).value ≠ (numberAt protocol 1).value ∧
      (numberAt protocol 1).value ≠ (numberAt protocol 2).value ∧
      (numberAt protocol 2).value ≠ (numberAt protocol 3).value ∧
      (numberAt protocol 4).value ≠ (numberAt protocol 3).value := by
  cases protocol <;> decide

section Left

variable {c : Client} {d : ClientConnection} {i : Option Bytes} {p q : List Bytes} {ev : Event}

theorem hears_of_arrivals {protocol : ProtocolType} {A B : Address}
    (hi : ∀ raw ∈ i, ∃ j isSyn, Confirms protocol j isSyn raw) (hev : ev ∈ arrivals A i ∪ arrivals B i) :
    Hears protocol ev := by
  cases i with
  | none => exact .inl (hev.elim id id)
  | some raw =>
      obtain ⟨j, isSyn, hraw⟩ := hi raw rfl
      rcases hev with ⟨now, rfl⟩ | ⟨now, rfl⟩
      · exact .inr ⟨raw, A, now, j, isSyn, rfl, hraw⟩
      · exact .inr ⟨raw, B, now, j, isSyn, rfl, hraw⟩

theorem arrivals_datagram {A B source : Address} {raw : Bytes} {now : Time}
    (h : Event.datagram raw (some source) now ∈ arrivals A i ∪ arrivals B i) : i = some raw := by
  cases i with
  | none => rcases h with ⟨_, h | h⟩ | ⟨_, h | h⟩ <;> cases h
  | some raw' => rcases h with ⟨_, h⟩ | ⟨_, h⟩ <;> exact congrArg some (Event.datagram.inj h).1.symm

/-- What is in flight to the client confirms one of two packets. -/
theorem hears_inOrder {protocol : ProtocolType} {A B : Address} {j k : Nat} {b b' : Bool}
    (hl : InOrder (Confirms protocol j b) (Confirms protocol k b') (i.toList ++ q))
    (hev : ev ∈ arrivals A i ∪ arrivals B i) : Hears protocol ev :=
  hears_of_arrivals (fun _ hraw ↦
    (hl.mem (List.mem_append_left q (Option.mem_toList.mpr hraw))).elim (⟨_, _, ·⟩) (⟨_, _, ·⟩)) hev

theorem hears_all {protocol : ProtocolType} {A B : Address} {k : Nat} {b : Bool}
    (hl : ∀ raw ∈ i.toList ++ q, Confirms protocol k b raw)
    (hev : ev ∈ arrivals A i ∪ arrivals B i) : Hears protocol ev :=
  hears_of_arrivals (fun raw hraw ↦
    ⟨_, _, hl raw (List.mem_append_left q (Option.mem_toList.mpr hraw))⟩) hev

/-- A client that may not give up parts for another reason. -/
theorem Patient.not_lost (hok : Patient ccfg d c ev) (hd : Unconfigured d)
    (hp : c.point = .informFilename) {e : Exn} (hexn : (c.listened ccfg ev).exn = some e) :
    e.cls ≠ .connectionLost :=
  fun hcls ↦ hok hd ⟨hp, e, hexn, hcls⟩

theorem Naming.unconfigured (hd : Naming scfg d) : Unconfigured d :=
  .inl (by rw [ClientConnection.phase, hd.point])

theorem Sizing.unconfigured (hd : Sizing scfg d) : Unconfigured d := by
  obtain ⟨filename, hp⟩ := hd.point
  exact .inr ⟨filename, by rw [ClientConnection.phase, hp]⟩

section Stages

variable {src : String} (htask : ccfg.task = .upload src name)
  (hev : ev ∈ arrivals scfg.address i ∪ arrivals ccfg.serverAddress i)

include htask hev

/-- A client that gives up before the name is sent closes towards the welcoming socket. -/
theorem left_operation
    (hc : Awaits ccfg file scfg.address ccfg.serverAddress 1 (.sendOperationIntention scfg.address)
      (fun _ ↦ False) c)
    (hd : Naming scfg d)
    (hl : InOrder (Confirms ccfg.protocolVersion 0 true) (Confirms ccfg.protocolVersion 1 false)
      (i.toList ++ q))
    (hne : ccfg.serverAddress ≠ scfg.address) : Stage ccfg scfg file name
      ⟨c.step ccfg ev, d, (c.step ccfg ev).outbox.to scfg.address, q⟩ := by
  cases (waits_operation hc.point).meets hc.toSent (hears_inOrder hl hev) with
  | stirs r b hstep =>
      rw [hstep]
      refine .operation (hc.stirred r b) hd ?_ (hl.sublist (List.sublist_append_right _ q))
      exact List.eq_nil_iff_forall_not_mem.mpr (repeated hc.repeats b)
  | @confirmed raw source now packet hev' hraw hstep =>
      subst hev'
      obtain rfl := arrivals_datagram hev
      have hrest : ∀ raw ∈ q, Confirms ccfg.protocolVersion 1 false raw :=
        hl.past (not_numbered_confirms (numberAt_ne ccfg.protocolVersion).1 hraw)
      rcases hc.names scfg.portBound htask now packet hstep with ⟨hc', hout⟩ | ⟨hc', hout⟩
      · exact .filename hc' hd hout hrest
      · exact .partedUnnamed (hc'.mono fun _ ↦ False.elim) hd fun raw hr ↦ (hout raw hr).elim
  | @raises e b he hexn hstep =>
      rw [hstep]
      obtain ⟨hc', hout⟩ := hc.gives_up (Q := InformsFilename ccfg name) htask he b ev.now
        (fun _ ↦ False.elim) fun _ heq ↦ absurd heq hne
      exact .partedUnnamed hc' hd hout

theorem left_filename
    (hc : Awaits ccfg file scfg.address scfg.address 2 .informFilename (InformsFilename ccfg name) c)
    (hd : Naming scfg d) (hr : ∀ raw ∈ p, InformsFilename ccfg name raw)
    (hl : ∀ raw ∈ i.toList ++ q, Confirms ccfg.protocolVersion 1 false raw)
    (hok : Patient ccfg d c ev) : Stage ccfg scfg file name
      ⟨c.step ccfg ev, d, p ++ (c.step ccfg ev).outbox.to scfg.address, q⟩ := by
  cases (waits_filename hc.point).meets hc.toSent (hears_all hl hev) with
  | stirs r b hstep =>
      rw [hstep]
      exact .filename (hc.stirred r b) hd (forall_append hr (repeated hc.repeats b))
        (forall_sublist hl (List.sublist_append_right _ q))
  | @confirmed raw source now packet hev' hraw hstep =>
      subst hev'
      obtain rfl := arrivals_datagram hev
      exact absurd (hl raw List.mem_cons_self)
        (not_numbered_confirms (numberAt_ne ccfg.protocolVersion).2.1 hraw)
  | @raises e b he hexn hstep =>
      rw [hstep]
      have hcls := hok.not_lost hd.unconfigured hc.point hexn
      obtain ⟨hc', hout⟩ := hc.gives_up htask he b ev.now (fun _ ↦ id) fun heq ↦ absurd heq hcls
      exact .partedUnnamed hc' hd (forall_append hr hout)

theorem left_named
    (hc : Awaits ccfg file scfg.address scfg.address 2 .informFilename (InformsFilename ccfg name) c)
    (hd : Sizing scfg d) (hr : ∀ raw ∈ p, InformsFilename ccfg name raw)
    (hl : InOrder (Confirms ccfg.protocolVersion 1 false) (Confirms ccfg.protocolVersion 2 false)
      (i.toList ++ q))
    (hok : Patient ccfg d c ev) : Stage ccfg scfg file name
      ⟨c.step ccfg ev, d, p ++ (c.step ccfg ev).outbox.to scfg.address, q⟩ := by
  have hr' : ∀ raw ∈ p, Sends ccfg name file.content.length raw := fun raw h ↦ .inl (hr raw h)
  cases (waits_filename hc.point).meets hc.toSent (hears_inOrder hl hev) with
  | stirs r b hstep =>
      rw [hstep]
      exact .named (hc.stirred r b) hd (forall_append hr (repeated hc.repeats b))
        (hl.sublist (List.sublist_append_right _ q))
  | @confirmed raw source now packet hev' hraw hstep =>
      subst hev'
      obtain rfl := arrivals_datagram hev
      have hrest : ∀ raw ∈ q, Confirms ccfg.protocolVersion 2 false raw :=
        hl.past (not_numbered_confirms (numberAt_ne ccfg.protocolVersion).2.1 hraw)
      rcases hc.sizes now packet hstep with ⟨hc', hout⟩ | ⟨hc', hout⟩
      · exact .filesize (hc'.mono fun raw h ↦ .inr (.inl h)) hd
          (forall_append hr' fun raw h ↦ .inr (.inl (hout raw h))) hrest
      · exact .parted (hc'.mono fun raw ↦ .inl) hd (forall_append hr' fun raw h ↦ .inl (hout raw h))
  | @raises e b he hexn hstep =>
      rw [hstep]
      have hcls := hok.not_lost hd.unconfigured hc.point hexn
      obtain ⟨hc', hout⟩ := hc.gives_up (Q := Sends ccfg name file.content.length) htask he b ev.now
        (fun _ ↦ .inl) fun heq ↦ absurd heq hcls
      exact .parted hc' hd (forall_append hr' hout)

/-- The closing packets of a client that gives up here follow the packet with the size. -/
theorem left_filesize
    (hc : Awaits ccfg file scfg.address scfg.address 3 .informFilesize
      (Sends ccfg name file.content.length) c)
    (hd : Sizing scfg d) (hr : ∀ raw ∈ p, Sends ccfg name file.content.length raw)
    (hl : ∀ raw ∈ i.toList ++ q, Confirms ccfg.protocolVersion 2 false raw) : Stage ccfg scfg file name
      ⟨c.step ccfg ev, d, p ++ (c.step ccfg ev).outbox.to scfg.address, q⟩ := by
  cases (waits_filesize hc.point).meets hc.toSent (hears_all hl hev) with
  | stirs r b hstep =>
      rw [hstep]
      exact .filesize (hc.stirred r b) hd (forall_append hr (repeated hc.repeats b))
        (forall_sublist hl (List.sublist_append_right _ q))
  | @confirmed raw source now packet hev' hraw hstep =>
      subst hev'
      obtain rfl := arrivals_datagram hev
      exact absurd (hl raw List.mem_cons_self)
        (not_numbered_confirms (numberAt_ne ccfg.protocolVersion).2.2.1 hraw)
  | @raises e b he hexn hstep =>
      rw [hstep]
      obtain ⟨hc', hout⟩ := hc.gives_up htask he b ev.now (fun _ ↦ id) fun _ _ raw h ↦ .inr (.inr h)
      exact .parted hc' hd (forall_append hr hout)

theorem Stage.left_step (h : Stage ccfg scfg file name ⟨c, d, p, i.toList ++ q⟩)
    (hne : ccfg.serverAddress ≠ scfg.address) (hok : Patient ccfg d c ev) :
    Stage ccfg scfg file name
      ⟨c.step ccfg ev, d, p ++ (c.step ccfg ev).outbox.to scfg.address, q⟩ := by
  cases h with
  | operation hc hd hr hl =>
      obtain rfl : p = [] := hr
      exact left_operation htask hev hc hd hl hne
  | filename hc hd hr hl => exact left_filename htask hev hc hd hr hl hok
  | named hc hd hr hl => exact left_named htask hev hc hd hr hl hok
  | filesize hc hd hr hl => exact left_filesize htask hev hc hd hr hl
  | partedUnnamed hc hd hr =>
      obtain ⟨hc', hout⟩ := hc.step ccfg ev
      exact .partedUnnamed hc' hd (forall_append hr hout)
  | parted hc hd hr =>
      obtain ⟨hc', hout⟩ := hc.step ccfg ev
      exact .parted hc' hd (forall_append hr hout)
  | configured hd => exact .configured hd

end Stages

end Left

/-! ## The steps of the connection -/

section Right

variable {c : Client} {d : ClientConnection} {i : Option Bytes} {p q : List Bytes} {ev : Event}

theorem Stage.right_step (h : Stage ccfg scfg file name ⟨c, d, i.toList ++ p, q⟩)
    (hproto : scfg.protocolVersion = ccfg.protocolVersion) (hev : ev ∈ arrivals scfg.clientAddress i) :
    Stage ccfg scfg file name
      ⟨c, d.step scfg ev, p, q ++ (d.step scfg ev).outbox.to scfg.clientAddress⟩ := by
  have hsub : p.Sublist (i.toList ++ p) := List.sublist_append_right _ p
  cases h with
  | operation hc hd hr hl =>
      obtain ⟨hi, rfl⟩ : i.toList = [] ∧ p = [] := List.append_eq_nil_iff.mp hr
      obtain rfl : i = none := Option.toList_eq_nil_iff.mp hi
      rcases hd.step ev with ⟨hd', hout⟩ | ⟨⟨raw, source, now, rfl⟩, -⟩ | hd'
      · rw [hproto] at hout
        exact .operation hc hd' rfl (hl.append hout)
      · obtain ⟨now', h | h⟩ := hev <;> cases h
      · exact .configured hd'
  | filename hc hd hr hl =>
      rcases hd.step ev with ⟨hd', hout⟩ | ⟨-, hd', hout⟩ | hd'
      · rw [hproto] at hout
        exact .filename hc hd' (forall_sublist hr hsub) (forall_append hl hout)
      · rw [hproto] at hout
        exact .named hc hd' (forall_sublist hr hsub) ((InOrder.of_left hl).append hout)
      · exact .configured hd'
  | named hc hd hr hl =>
      rcases hd.step ev with ⟨hd', hout⟩ | hd'
      · rw [hproto] at hout
        exact .named hc hd' (forall_sublist hr hsub) (hl.append hout)
      · exact .configured hd'
  | filesize hc hd hr hl =>
      rcases hd.step ev with ⟨hd', hout⟩ | hd'
      · rw [hproto] at hout
        exact .filesize hc hd' (forall_sublist hr hsub) (forall_append hl hout)
      · exact .configured hd'
  | partedUnnamed hc hd hr =>
      rcases hd.step ev with ⟨hd', -⟩ | ⟨-, hd', -⟩ | hd'
      · exact .partedUnnamed hc hd' (forall_sublist hr hsub)
      · exact .parted (hc.mono fun _ ↦ .inl) hd' fun raw h ↦ .inl (hr raw (hsub.subset h))
      · exact .configured hd'
  | parted hc hd hr =>
      rcases hd.step ev with ⟨hd', -⟩ | hd'
      · exact .parted hc hd' (forall_sublist hr hsub)
      · exact .configured hd'
  | configured hd => exact .configured (hd.step ev)

end Right

/-! ## Runs -/

variable {src : String}

theorem Stage.step {w w' : World Client ClientConnection Bytes Bytes} {ℓ : Label Bytes Bytes}
    (h : Stage ccfg scfg file name w) (htask : ccfg.task = .upload src name)
    (hproto : scfg.protocolVersion = ccfg.protocolVersion) (hne : ccfg.serverAddress ≠ scfg.address)
    (hs : (uploads ccfg scfg (Patient ccfg)).step w ℓ w') : Stage ccfg scfg file name w' := by
  obtain ⟨c, d, tr, tl⟩ := w
  cases hs with
  | leftTakes ht hs =>
      obtain rfl := ht.fifo_eq
      obtain ⟨ev, hev, hok, hreact⟩ := hs
      obtain ⟨rfl, rfl⟩ := Prod.mk.inj hreact
      exact Stage.left_step (i := some _) htask hev h hne hok
  | leftMoves hs =>
      obtain ⟨ev, hev, hok, hreact⟩ := hs
      obtain ⟨rfl, rfl⟩ := Prod.mk.inj hreact
      exact Stage.left_step (i := none) htask hev h hne hok
  | rightTakes ht hs =>
      obtain rfl := ht.fifo_eq
      obtain ⟨ev, hev, hreact⟩ := hs
      obtain ⟨rfl, rfl⟩ := Prod.mk.inj hreact
      exact Stage.right_step (i := some _) h hproto hev
  | rightMoves hs =>
      obtain ⟨ev, hev, hreact⟩ := hs
      obtain ⟨rfl, rfl⟩ := Prod.mk.inj hreact
      exact Stage.right_step (i := none) h hproto hev
  | lose hp hq => exact h.lose hp hq

/-! ## What the connection acts on -/

section Acts

variable {d : ClientConnection} {raw : Bytes} {A : Address} {now : Time}

theorem acts_on_filename {n : String} (h : n ∈ d.actsOnFilename scfg (.datagram raw (some A) now)) :
    (d.phase = .naming ∨ d.phase = .transmitting) ∧
      decodeUtf8 (getPacketFromBytes (raw.take fullBufferSize)).data = .ok n := by
  unfold ClientConnection.actsOnFilename at h
  split at h
  case h_3 => cases h
  all_goals
    rename_i hp
    obtain ⟨r, hr, rfl⟩ := Option.mem_map.mp h
    obtain ⟨-, -, hname, -⟩ := ServerProtocol.receiveFilename_eq_ok.mp (result_datagram hr)
    refine ⟨?_, hname⟩
    simp [ClientConnection.phase, hp]

theorem acts_on_filesize {n : Nat} (h : n ∈ d.actsOnFilesize scfg (.datagram raw (some A) now)) :
    (∃ name, d.phase = .sizing name) ∧
      (getPacketFromBytes (raw.take commsBufferSize)).sequenceNumber = d.sequenceNumber.value ∧
      n = BigEndian.fromBytes (getPacketFromBytes (raw.take commsBufferSize)).data := by
  unfold ClientConnection.actsOnFilesize at h
  split at h
  case h_2 => cases h
  rename_i filename hp
  obtain ⟨r, hr, rfl⟩ := Option.mem_map.mp h
  obtain ⟨-, -, hnumber, hr⟩ := ServerProtocol.receiveFilesize_eq_ok.mp (result_datagram hr)
  exact ⟨⟨filename, by rw [ClientConnection.phase, hp]⟩, hnumber, congrArg Prod.snd hr⟩

end Acts

/-- The number of the packet with the size is that of no other packet that may be in flight. -/
theorem Sends.filesize {size : Nat} {raw : Bytes} (h : Sends ccfg name size raw)
    (hraw : Numbered ccfg.protocolVersion 3 raw) : InformsFilesize ccfg size raw := by
  obtain ⟨-, -, h23, h43⟩ := numberAt_ne ccfg.protocolVersion
  rcases h with h | h | h
  · exact absurd ((numbered_packed h).symm.trans hraw) h23
  · exact h
  · exact absurd (h.symm.trans hraw) h43

theorem InformsFilesize.taken {size : Nat} {raw : Bytes} (h : InformsFilesize ccfg size raw) :
    BigEndian.fromBytes (getPacketFromBytes (raw.take commsBufferSize)).data = size := by
  obtain ⟨hlt, hraw⟩ := h
  rw [(parse_packed hraw (by decide)).2, List.take_of_length_le, BigEndian.fromBytes_toBytes hlt]
  rw [BigEndian.length_toBytes]
  cases ccfg.protocolVersion <;> decide

theorem Stage.acts (h : Stage ccfg scfg file name w)
    (hproto : scfg.protocolVersion = ccfg.protocolVersion)
    (hfit : ∀ n, decodeUtf8 ((encodeUtf8 name).take
      (fullBufferSize - headerSize ccfg.protocolVersion)) = .ok n → n = name) :
    ActsAsInformed ccfg scfg name file.content.length w := by
  intro raw hhead now
  have hmem : raw ∈ w.toRight := List.mem_of_mem_head? hhead
  have naming : Naming scfg w.right → (∀ raw ∈ w.toRight, InformsFilename ccfg name raw) →
      (∀ n ∈ w.right.actsOnFilename scfg (.datagram raw (some scfg.clientAddress) now),
        InformsFilename ccfg name raw ∧ n = name) ∧
      ∀ n ∈ w.right.actsOnFilesize scfg (.datagram raw (some scfg.clientAddress) now),
        InformsFilesize ccfg file.content.length raw ∧ n = file.content.length := by
    intro hd hr
    have hphase : w.right.phase = .naming := by rw [ClientConnection.phase, hd.point]
    refine ⟨fun n hn ↦ ?_, fun n hn ↦ ?_⟩
    · have hraw := hr raw hmem
      have hname := (acts_on_filename hn).2
      rw [(parse_packed hraw (by decide)).2] at hname
      exact ⟨hraw, hfit n hname⟩
    · obtain ⟨⟨filename, hp⟩, -⟩ := acts_on_filesize hn
      rw [hphase] at hp
      cases hp
  have sizing : Sizing scfg w.right →
      (∀ raw ∈ w.toRight, Sends ccfg name file.content.length raw) →
      (∀ n ∈ w.right.actsOnFilename scfg (.datagram raw (some scfg.clientAddress) now),
        InformsFilename ccfg name raw ∧ n = name) ∧
      ∀ n ∈ w.right.actsOnFilesize scfg (.datagram raw (some scfg.clientAddress) now),
        InformsFilesize ccfg file.content.length raw ∧ n = file.content.length := by
    intro hd hr
    obtain ⟨filename, hpoint⟩ := hd.point
    have hphase : w.right.phase = .sizing filename := by rw [ClientConnection.phase, hpoint]
    refine ⟨fun n hn ↦ ?_, fun n hn ↦ ?_⟩
    · rcases (acts_on_filename hn).1 with hp | hp <;>
        · rw [hphase] at hp
          cases hp
    · obtain ⟨-, hnumber, hsize⟩ := acts_on_filesize hn
      rw [hd.sequenceNumber, hproto] at hnumber
      have hraw := (hr raw hmem).filesize ((numbered_take (by decide)).mp hnumber)
      exact ⟨hraw, hsize.trans hraw.taken⟩
  cases h with
  | operation _ hd hr => exact naming hd (by rw [hr]; exact fun raw hr ↦ (by cases hr))
  | filename _ hd hr => exact naming hd hr
  | partedUnnamed _ hd hr => exact naming hd hr
  | named _ hd hr => exact sizing hd fun raw h ↦ .inl (hr raw h)
  | filesize _ hd hr => exact sizing hd hr
  | parted _ hd hr => exact sizing hd hr
  | configured hd =>
      refine ⟨fun n hn ↦ ?_, fun n hn ↦ ?_⟩
      · rcases (acts_on_filename hn).1 with hp | hp <;>
          rcases hd.phase with hq | hq | hq | hq <;> rw [hp] at hq <;> cases hq
      · obtain ⟨⟨filename, hp⟩, -⟩ := acts_on_filesize hn
        rcases hd.phase with hq | hq | hq | hq <;> rw [hp] at hq <;> cases hq

/-- As long as the client does not give up its wait for the confirmation of the name while the connection
waits for the name or the size, the connection acts on what the client informed it of. -/
theorem acts_as_informed {disk : Disk} {w₀ : World Client ClientConnection Bytes Bytes}
    (htask : ccfg.task = .upload src name)
    (hfit : ∀ n, decodeUtf8 ((encodeUtf8 name).take
      (fullBufferSize - headerSize ccfg.protocolVersion)) = .ok n → n = name)
    (hstart : Starts ccfg scfg disk file w₀)
    (hrun : (uploads ccfg scfg (Patient ccfg)).Reaches w₀ w) :
    ActsAsInformed ccfg scfg name file.content.length w := by
  have hop : Client.operationCode ccfg = uploadOperation := by rw [Client.operationCode, htask]
  have hstage : Stage ccfg scfg file name w := by
    refine hrun.invariant (I := Stage ccfg scfg file name) ?_ (hstart.stage hop)
    exact fun h _ hs ↦ h.step htask hstart.protocol hstart.address hs
  exact hstage.acts hstart.protocol hfit

namespace Local

open Session.Local

variable (protocol : ProtocolType)

def connection : Server.Config where
  protocolVersion := protocol
  address := connectionAddress
  clientAddress := alice
  fileHandler := handler
  initialPacket := getPacketFromBytes ((asked protocol).getD 1 [])

/-- The client when the handshake is answered -/
def answeredClient : Client := Client.init (uploader protocol) (notes [7]) (Session.Local.disk [7]) 0

/-- The operation is sent, and confirmed by the connection. -/
def started : World Client ClientConnection Bytes Bytes where
  left := Client.swallow
    (Client.sendOperationIntention (uploader protocol) 0 connectionAddress uploadOperation
      (answeredClient protocol))
  right := ClientConnection.start (connection protocol) (fun _ ↦ none) 0
  toRight := []
  toLeft := [(answered protocol).getD 1 []]

/-- One event at the client, or at the connection -/
def clientStep (w : World Client ClientConnection Bytes Bytes) (q : List Bytes) (ev : Event) :
    World Client ClientConnection Bytes Bytes :=
  World.onLeft w q (Client.react (uploader protocol) connectionAddress w.left ev)

def connectionStep (w : World Client ClientConnection Bytes Bytes) (q : List Bytes) (ev : Event) :
    World Client ClientConnection Bytes Bytes :=
  World.onRight w q (ClientConnection.react (connection protocol) w.right ev)

/-- The client sends the name. -/
def naming : World Client ClientConnection Bytes Bytes :=
  clientStep protocol (started protocol) []
    (.datagram ((answered protocol).getD 1 []) (some connectionAddress) 0)

/-- The connection confirms it. -/
def named : World Client ClientConnection Bytes Bytes :=
  connectionStep protocol (naming protocol) []
    (.datagram ((asked protocol).getD 2 []) (some alice) 0)

/-- The client sends the size. -/
def sizing : World Client ClientConnection Bytes Bytes :=
  clientStep protocol (named protocol) []
    (.datagram ((answered protocol).getD 2 []) (some connectionAddress) 0)

/-- Instead, the client gives up after thirty seconds. -/
def abandoned : World Client ClientConnection Bytes Bytes :=
  clientStep protocol (named protocol) (named protocol).toLeft (.timeout 30000001)

/-- The connection turns the repeated name down; next comes the closing ACK. -/
def aborted : World Client ClientConnection Bytes Bytes :=
  connectionStep protocol (abandoned protocol) (abandoned protocol).toRight.tail
    (.datagram ((asked protocol).getD 2 []) (some alice) 0)

theorem starts_started :
    Starts (uploader protocol) (connection protocol) (fun _ ↦ none) (notes [7]) (started protocol) where
  protocol := rfl
  address := by cases protocol <;> decide +kernel
  client := by
    refine ⟨answeredClient protocol, 0, (started protocol).left, ⟨rfl, ?_, rfl⟩, rfl, ?_, rfl⟩
    · cases protocol <;> rfl
    · cases protocol <;> rfl
  packet := ⟨(asked protocol).getD 1 [], by cases protocol <;> decide +kernel,
    by cases protocol <;> decide +kernel⟩
  connection := ⟨0, rfl⟩
  toRight := rfl
  toLeft := ⟨[], fun _ hr ↦ (by cases hr), by cases protocol <;> decide +kernel⟩

variable {protocol} {ok : ClientConnection → Client → Event → Prop}
  {w w' : World Client ClientConnection Bytes Bytes}

theorem client_takes {raw : Bytes} {q : List Bytes} {now : Time}
    (h : (uploads (uploader protocol) (connection protocol) ok).Reaches w w')
    (hq : w'.toLeft = raw :: q)
    (hok : ok w'.right w'.left (.datagram raw (some connectionAddress) now)) :
    (uploads (uploader protocol) (connection protocol) ok).Reaches w
      (clientStep protocol w' q (.datagram raw (some connectionAddress) now)) :=
  h.tail trivial (.leftTakes (by rw [hq]; exact .head raw q) ⟨_, .inl ⟨now, rfl⟩, hok, rfl⟩)

theorem client_times_out (h : (uploads (uploader protocol) (connection protocol) ok).Reaches w w')
    {now : Time} (hok : ok w'.right w'.left (.timeout now)) :
    (uploads (uploader protocol) (connection protocol) ok).Reaches w
      (clientStep protocol w' w'.toLeft (.timeout now)) :=
  h.tail trivial (.leftMoves ⟨_, .inl ⟨now, .inl rfl⟩, hok, rfl⟩)

theorem connection_takes {raw : Bytes} {q : List Bytes} {now : Time}
    (h : (uploads (uploader protocol) (connection protocol) ok).Reaches w w')
    (hq : w'.toRight = raw :: q) :
    (uploads (uploader protocol) (connection protocol) ok).Reaches w
      (connectionStep protocol w' q (.datagram raw (some alice) now)) :=
  h.tail trivial (.rightTakes (by rw [hq]; exact .head raw q) ⟨_, ⟨now, rfl⟩, rfl⟩)

/-- The name gets to the connection. -/
theorem reaches_named (hop : ∀ d c ev, c.point ≠ .informFilename → ok d c ev) :
    (uploads (uploader protocol) (connection protocol) ok).Reaches (started protocol)
      (named protocol) := by
  have hnaming : (uploads (uploader protocol) (connection protocol) ok).Reaches (started protocol)
      (naming protocol) :=
    client_takes (.refl _) rfl (hop _ _ _ (by cases protocol <;> decide +kernel))
  exact connection_takes hnaming (by cases protocol <;> decide +kernel)

theorem reaches_aborted : (uploads (uploader protocol) (connection protocol) fun _ _ _ ↦ True).Reaches
    (started protocol) (aborted protocol) :=
  connection_takes (client_times_out (reaches_named fun _ _ _ _ ↦ trivial) trivial)
    (by cases protocol <;> decide +kernel)

end Local

/-- The size is in flight. -/
theorem acts_as_informed_notes :
    ActsAsInformed (Session.Local.uploader .goBackN) (Local.connection .goBackN) "notes.txt" 1
      (Local.sizing .goBackN) := by
  show ActsAsInformed _ _ _ (Session.Local.notes [7]).content.length _
  refine acts_as_informed rfl (fun _ ↦ eq_of_decodeUtf8_take (by decide +kernel)) (Local.starts_started .goBackN)
    (Local.client_takes (Local.reaches_named ?_) ?_ ?_)
  · exact fun d c ev hp _ h ↦ hp h.1
  · decide +kernel
  · rintro - ⟨-, e, he, -⟩
    have hnone : (Client.listened (Session.Local.uploader .goBackN) (Local.named .goBackN).left
        (.datagram ((Session.Local.answered .goBackN).getD 2 [])
          (some Session.Local.connectionAddress) 0)).exn = none := by decide +kernel
    rw [hnone] at he
    cases he

/-- Under either protocol the ACK of a client that gives up is taken for a size of zero. -/
theorem not_acts_as_informed : ¬∃ protocol, ∀ w₀ w,
    Starts (Session.Local.uploader protocol) (Local.connection protocol) (fun _ ↦ none)
      (Session.Local.notes [7]) w₀ →
    (uploads (Session.Local.uploader protocol) (Local.connection protocol) fun _ _ _ ↦ True).Reaches
      w₀ w →
    ActsAsInformed (Session.Local.uploader protocol) (Local.connection protocol) "notes.txt" 1 w := by
  rintro ⟨protocol, h⟩
  have hacts := h _ _ (Local.starts_started protocol) Local.reaches_aborted
  have hzero : 0 = 1 := by
    refine ((hacts ((Local.aborted protocol).toRight.headD []) ?_ 0).2 0 ?_).2
    · cases protocol <;> decide +kernel
    · cases protocol <;> decide +kernel
  exact absurd hzero (by decide)

end Rdt.Configuration
