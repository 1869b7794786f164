import Rdt.Saw.Filename

/-!
# Two streams of datagrams

The welcoming socket and the socket of the connection each keep the order of what they have sent;
the client takes from the two as they come.
-/

namespace Rdt.Saw

open Server

variable {ccfg : Client.Config} {scfg : Server.Config} {raw : Bytes} {ev : Event}

/-- The client, its connection and what is in flight.  With a datagram of the connection goes
what `receive_filename` had taken when it was sent. -/
structure Streams where
  client : Client
  connection : ClientConnection
  filename : Option Bytes
  toConnection : List Bytes
  fromWelcoming : List Bytes
  fromConnection : List (Bytes × Option Bytes)

/-- Who moves: the client on the next datagram of either socket or on its own, or the connection. -/
inductive StreamsLabel where
  | welcoming (raw : Bytes) (now : Time)
  | connection (raw : Bytes) (filename : Option Bytes) (now : Time)
  | client (ev : Event)
  | server (ev : Event)
  | lose

namespace Streams

variable (ccfg : Client.Config) (scfg : Server.Config)

def onClient (w : Streams) (ev : Event) : Streams :=
  { w with
    client := w.client.step ccfg ev
    toConnection := w.toConnection ++ (w.client.step ccfg ev).outbox.to scfg.address }

def onConnection (w : Streams) (ev : Event) : Streams :=
  let filename := w.filename.or (takenFilename scfg w.connection ev)
  let connection := w.connection.step scfg ev
  { w with
    connection
    filename
    fromConnection := w.fromConnection ++
      (connection.outbox.to scfg.clientAddress).map fun raw ↦ (raw, filename) }

/-- Each socket's datagrams keep their order; any of them may be lost. -/
inductive Step : Streams → StreamsLabel → Streams → Prop
  | welcoming {w : Streams} {raw : Bytes} {q : List Bytes} (now : Time)
      (hq : w.fromWelcoming = raw :: q) :
      Step w (.welcoming raw now)
        { onClient ccfg scfg w (.datagram raw (some ccfg.serverAddress) now) with
          fromWelcoming := q }
  | connection {w : Streams} {raw : Bytes} {filename : Option Bytes}
      {q : List (Bytes × Option Bytes)} (now : Time)
      (hq : w.fromConnection = (raw, filename) :: q) :
      Step w (.connection raw filename now)
        { onClient ccfg scfg w (.datagram raw (some scfg.address) now) with fromConnection := q }
  | client {w : Streams} {ev : Event} (hev : ev.Quiet) :
      Step w (.client ev) (onClient ccfg scfg w ev)
  | serverTakes {w : Streams} {raw : Bytes} {q : List Bytes} (now : Time)
      (hq : w.toConnection = raw :: q) :
      Step w (.server (.datagram raw (some scfg.clientAddress) now))
        { onConnection scfg w (.datagram raw (some scfg.clientAddress) now) with
          toConnection := q }
  | serverMoves {w : Streams} {ev : Event} (hev : ev.Quiet) :
      Step w (.server ev) (onConnection scfg w ev)
  | lose {w : Streams} {p q : List Bytes} {r : List (Bytes × Option Bytes)}
      (hp : p.Sublist w.toConnection) (hq : q.Sublist w.fromWelcoming)
      (hr : r.Sublist w.fromConnection) :
      Step w .lose { w with toConnection := p, fromWelcoming := q, fromConnection := r }

end Streams

/-- One client, its connection and the welcoming socket -/
def streams (ccfg : Client.Config) (scfg : Server.Config) : Lts Streams StreamsLabel :=
  ⟨Streams.Step ccfg scfg⟩

/-- The thread of the connection starts.  The welcoming socket has answered the handshake, as often
as it had to; the client may have completed the handshake towards another address. -/
structure StreamsStart (ccfg : Client.Config) (scfg : Server.Config) (w : Streams) : Prop where
  client : ∃ peer c, SentOperation ccfg peer c w.client
  connection : ∃ disk, ConnectionStarts scfg w.client disk w.connection
  filename : w.filename = none
  toConnection : w.toConnection = []
  fromWelcoming : ∀ raw ∈ w.fromWelcoming, Carries raw 0 true false []
  fromConnection : w.fromConnection =
    (w.connection.outbox.to scfg.clientAddress).map fun raw ↦ (raw, none)

/-! ### What may be in flight -/

/-- `P` says which datagrams `receive_filename` may take. -/
structure InFlight (scfg : Server.Config) (P : Bytes → Prop) (w : Streams) : Prop where
  unnamed : w.filename = none → Unnamed scfg w.connection
  named : ∀ raw, w.filename = some raw → P raw
  toConnection : ∀ raw ∈ w.toConnection, P raw ∨ ∃ data, Carries raw 1 true false data
  fromConnection : ∀ r ∈ w.fromConnection, (r.2 = none → Carries r.1 1 true false []) ∧
    ∀ raw, r.2 = some raw → P raw

theorem number_of_carries {number : Nat} {isAck isFin : Bool} {data : Bytes}
    (h : Carries raw number isAck isFin data) {n : Nat} (hn : sawProtocolHeaderSize ≤ n) :
    (PacketParser.getPacketFromBytes (raw.take n)).sequenceNumber = number := by
  obtain ⟨isSyn, port, h⟩ := h
  rw [(h n hn).2]

theorem InFlight.onConnection {P : Bytes → Prop} {w : Streams} (h : InFlight scfg P w)
    {j : Option Bytes} (hev : ev ∈ arrivals scfg.clientAddress j)
    (hj : ∀ raw, j = some raw → raw ∈ w.toConnection) :
    InFlight scfg P (Streams.onConnection scfg w ev) := by
  -- what is sent after the filename has its datagram, what is sent before is the first ACK
  have build : ∀ filename, (Streams.onConnection scfg w ev).filename = filename →
      (filename = none → Unnamed scfg (w.connection.step scfg ev) ∧
        ∀ o ∈ (w.connection.step scfg ev).outbox.to scfg.clientAddress, Carries o 1 true false []) →
      (∀ raw, filename = some raw → P raw) → InFlight scfg P (Streams.onConnection scfg w ev) := by
    rintro filename rfl hunnamed hnamed
    refine ⟨fun hn ↦ (hunnamed hn).1, hnamed, h.toConnection, fun r hr ↦ ?_⟩
    rcases List.mem_append.mp hr with hr | hr
    · exact h.fromConnection r hr
    · obtain ⟨o, ho, rfl⟩ := List.mem_map.mp hr
      exact ⟨fun hn ↦ (hunnamed hn).2 o ho, hnamed⟩
  cases hf : w.filename with
  | some raw =>
      refine build (some raw) ?_ (fun h ↦ (by cases h)) ?_
      · show w.filename.or _ = _
        rw [hf]
        rfl
      · rintro _ ⟨⟩
        exact h.named raw hf
  | none =>
      cases (h.unnamed hf).hears hev with
      | nothing hc ho hn =>
          refine build none ?_ (fun _ ↦ ⟨hc, ho⟩) (fun _ h ↦ (by cases h))
          show w.filename.or _ = _
          rw [hf, hn]
          rfl
      | @filename raw now hev' hnumber hn =>
          refine build (some raw) ?_ (fun h ↦ (by cases h)) ?_
          · show w.filename.or _ = _
            rw [hf, hn]
            rfl
          · rintro _ ⟨⟩
            have hin : j = some raw := by
              cases j with
              | some raw' =>
                  obtain ⟨now', h⟩ := hev
                  rw [(Event.datagram.inj (hev'.symm.trans h)).1]
              | none =>
                  obtain ⟨now', h | h⟩ := hev <;> cases hev'.symm.trans h
            rcases h.toConnection raw (hj raw hin) with h | ⟨data, h⟩
            · exact h
            · have := number_of_carries h (n := fullBufferSize) (by decide)
              omega

theorem InFlight.mono {P Q : Bytes → Prop} {w : Streams} (h : InFlight scfg P w)
    (hPQ : ∀ raw, P raw → Q raw) : InFlight scfg Q w where
  unnamed := h.unnamed
  named raw hn := hPQ raw (h.named raw hn)
  toConnection raw hraw := (h.toConnection raw hraw).imp_left (hPQ raw)
  fromConnection r hr := ⟨(h.fromConnection r hr).1, fun raw hn ↦ hPQ raw ((h.fromConnection r hr).2 raw hn)⟩

/-- What is in flight depends on how far the client is. -/
inductive Confirming (ccfg : Client.Config) (scfg : Server.Config) (w : Streams) : Prop
  | operation {peer : Address} (hc : AwaitsOperation peer scfg.address w.client)
      (h : InFlight scfg (fun _ ↦ False) w)
  | filename (hc : AwaitsConfirmation ccfg scfg.address w.client)
      (h : InFlight scfg (InformsFilename ccfg) w)
  | past (hc : w.client.PastFilename)

structure Invariant (ccfg : Client.Config) (scfg : Server.Config) (w : Streams) : Prop where
  confirming : Confirming ccfg scfg w
  welcoming : ∀ raw ∈ w.fromWelcoming, Carries raw 0 true false []

theorem InFlight.onClient {P : Bytes → Prop} {w : Streams} (h : InFlight scfg P w)
    (ho : ∀ o ∈ (w.client.step ccfg ev).outbox.to scfg.address,
      P o ∨ ∃ data, Carries o 1 true false data) :
    InFlight scfg P (Streams.onClient ccfg scfg w ev) where
  unnamed := h.unnamed
  named := h.named
  toConnection raw hraw := (List.mem_append.mp hraw).elim (h.toConnection raw) (ho raw)
  fromConnection := h.fromConnection

theorem InFlight.of_subset {P : Bytes → Prop} {w : Streams} (h : InFlight scfg P w) {p q : List Bytes}
    {r : List (Bytes × Option Bytes)} (hp : p ⊆ w.toConnection) (hr : r ⊆ w.fromConnection) :
    InFlight scfg P { w with toConnection := p, fromWelcoming := q, fromConnection := r } where
  unnamed := h.unnamed
  named := h.named
  toConnection raw hraw := h.toConnection raw (hp hraw)
  fromConnection x hx := h.fromConnection x (hr hx)

theorem Confirming.of_subset {w : Streams} (h : Confirming ccfg scfg w) {p q : List Bytes}
    {r : List (Bytes × Option Bytes)} (hp : p ⊆ w.toConnection) (hr : r ⊆ w.fromConnection) :
    Confirming ccfg scfg { w with toConnection := p, fromWelcoming := q, fromConnection := r } := by
  cases h with
  | operation hc h => exact .operation hc (h.of_subset hp hr)
  | filename hc h => exact .filename hc (h.of_subset hp hr)
  | past hc => exact .past hc

theorem Confirming.onClient (hproto : ccfg.protocolVersion = .stopAndWait) {w : Streams}
    (h : Confirming ccfg scfg w) (hev : InFlight scfg (fun _ ↦ False) w → AckOrQuiet ev) :
    Confirming ccfg scfg (Streams.onClient ccfg scfg w ev) := by
  cases h with
  | operation hc h =>
      rcases hc.step hproto (hev h) with ⟨hc, ho⟩ | hc | ⟨hc, ho⟩
      · exact .operation hc (h.onClient fun o hm ↦ .inr (ho o hm))
      · exact .past hc
      · exact .filename hc ((h.mono fun _ h ↦ h.elim).onClient fun o hm ↦ .inl (ho o hm))
  | filename hc h =>
      rcases hc.step hproto ev with hc | ⟨hc, ho⟩
      · exact .past hc
      · exact .filename hc (h.onClient fun o hm ↦ .inl (ho o hm))
  | past hc => exact .past (hc.step hproto ev)

theorem Confirming.onConnection {w : Streams} (h : Confirming ccfg scfg w) {j : Option Bytes}
    (hev : ev ∈ arrivals scfg.clientAddress j) (hj : ∀ raw, j = some raw → raw ∈ w.toConnection) :
    Confirming ccfg scfg (Streams.onConnection scfg w ev) := by
  cases h with
  | operation hc h => exact .operation hc (h.onConnection hev hj)
  | filename hc h => exact .filename hc (h.onConnection hev hj)
  | past hc => exact .past hc

theorem Invariant.step (hproto : ccfg.protocolVersion = .stopAndWait) {w w' : Streams}
    {ℓ : StreamsLabel} (h : Invariant ccfg scfg w) (hs : Streams.Step ccfg scfg w ℓ w') :
    Invariant ccfg scfg w' := by
  have hfrom : ∀ {raw q}, w.fromWelcoming = raw :: q → Carries raw 0 true false [] ∧
      ∀ raw ∈ q, Carries raw 0 true false [] := by
    intro raw q hq
    have hall := h.welcoming
    rw [hq] at hall
    exact List.forall_mem_cons.mp hall
  cases hs with
  | @welcoming raw q now hq =>
      refine ⟨Confirming.of_subset (h.confirming.onClient hproto fun _ ↦ ?_) (List.Subset.refl _)
        (List.Subset.refl _), (hfrom hq).2⟩
      exact .inr ⟨raw, _, now, 0, rfl, (hfrom hq).1⟩
  | @connection raw filename q now hq =>
      refine ⟨Confirming.of_subset (h.confirming.onClient hproto fun hflight ↦ ?_)
        (List.Subset.refl _) ?_, h.welcoming⟩
      · have hraw := hflight.fromConnection (raw, filename) (by rw [hq]; exact List.mem_cons_self)
        refine .inr ⟨raw, _, now, 1, rfl, hraw.1 ?_⟩
        exact Option.eq_none_iff_forall_ne_some.mpr hraw.2
      · show q ⊆ w.fromConnection
        rw [hq]
        exact List.subset_cons_self _ q
  | client hev => exact ⟨h.confirming.onClient hproto fun _ ↦ .inl hev, h.welcoming⟩
  | @serverTakes raw q now hq =>
      refine ⟨Confirming.of_subset (h.confirming.onConnection (j := some raw) ⟨now, rfl⟩ ?_) ?_
        (List.Subset.refl _), h.welcoming⟩
      · rintro _ ⟨⟩
        rw [hq]
        exact List.mem_cons_self
      · show q ⊆ w.toConnection
        rw [hq]
        exact List.subset_cons_self _ q
  | serverMoves hev =>
      exact ⟨h.confirming.onConnection (j := none) hev fun _ h ↦ (by cases h), h.welcoming⟩
  | lose hp hq hr =>
      exact ⟨h.confirming.of_subset hp.subset hr.subset, fun raw hraw ↦ h.welcoming raw (hq.subset hraw)⟩

theorem StreamsStart.invariant {w : Streams} (h : StreamsStart ccfg scfg w) :
    Invariant ccfg scfg w := by
  obtain ⟨peer, c, hsent⟩ := h.client
  obtain ⟨disk, hstarts⟩ := h.connection
  obtain ⟨hpoint, hnumber, hack, -, -, raw, hraw, hcarries⟩ := hsent.spec
  have hop : Client.operationCode ccfg = uploadOperation ∨
      Client.operationCode ccfg = downloadOperation := by
    unfold Client.operationCode
    cases ccfg.task with
    | upload src name => exact .inl rfl
    | download dst name => exact .inr rfl
  have hstarted := hstarts.spec hop ⟨raw, hraw, hcarries⟩
  obtain ⟨ack, hcarriesAck, hout, hrep⟩ := hstarted.ack
  have only : ∀ o ∈ Outbox.to [(ack, scfg.clientAddress)] scfg.clientAddress,
      Carries o 1 true false [] := by
    intro o ho
    rw [Outbox.eq_of_mem_to ho]
    exact hcarriesAck
  have hawaits : AwaitsOperation peer scfg.address w.client := by
    refine ⟨hpoint, hnumber, hack, fun o ho ↦ ?_⟩
    have hlast : o ∈ w.client.socket.lastRawPacket :=
      SocketSaw.mem_retransmission (b := true) ho
    rw [hraw] at hlast
    exact ⟨_, Option.some.inj hlast ▸ hcarries⟩
  refine ⟨.operation hawaits ⟨fun _ ↦ .inl ⟨?_, hstarted.number, ?_⟩, ?_, ?_, ?_⟩, h.fromWelcoming⟩
  · rw [hstarted.point]
    split
    · exact .inl rfl
    · exact .inr rfl
  · rw [hrep]
    exact only
  · rw [h.filename]
    exact fun _ h ↦ (by cases h)
  · rw [h.toConnection]
    exact fun _ h ↦ absurd h List.not_mem_nil
  · rw [h.fromConnection]
    intro r hr
    obtain ⟨o, ho, rfl⟩ := List.mem_map.mp hr
    rw [hout] at ho
    exact ⟨fun _ ↦ only o ho, fun _ h ↦ (by cases h)⟩

/-! ## Which datagram is taken for the confirmation -/

/-- What `wait_for_ack` makes of an event while the filename is to be confirmed. -/
def confirmation (c : Client) (ev : Event) : Listened Packet :=
  reListenIfFailed ((ClientProtocol.waitForAck c.sequenceNumber c.ackNumber).letThrough
    [.unexpectedFinMessage, .messageIsNotAck]) c.socket c.listening ev

/-- The client takes the event for the confirmation of its filename, or, downloading, for the first
chunk, which may have a FIN. -/
def Confirms (c : Client) (ev : Event) : Prop :=
  (c.point = .informFilename ∨ c.point = .informNameToDownload) ∧
      (∃ packet, confirmation c ev = .returned packet) ∨
    c.point = .informNameToDownload ∧ ∃ e b packet, confirmation c ev = .raised e b ∧
      e.cls = .unexpectedFinMessage ∧ e.packet = some packet ∧ 0 < packet.payloadLength

/-- A step at which the client takes something for the confirmation. -/
def ConfirmsAt (ccfg : Client.Config) (scfg : Server.Config) (w : Streams) : StreamsLabel → Prop
  | .welcoming raw now => Confirms w.client (.datagram raw (some ccfg.serverAddress) now)
  | .connection raw _ now => Confirms w.client (.datagram raw (some scfg.address) now)
  | .client ev => Confirms w.client ev
  | .server _ | .lose => False

/-- The datagram taken was sent by the connection after it had received the filename. -/
def SentAfterFilename (ccfg : Client.Config) : StreamsLabel → Prop
  | .connection _ filename _ => ∃ raw ∈ filename, InformsFilename ccfg raw
  | _ => False

/-- A reply of the handshake comes while the client waits for the confirmation. -/
def LateReply (w : Streams) : StreamsLabel → Prop
  | .welcoming _ _ => w.client.point = .informFilename ∨ w.client.point = .informNameToDownload
  | _ => False

theorem Confirms.point {c : Client} (h : Confirms c ev) :
    c.point = .informFilename ∨ c.point = .informNameToDownload :=
  h.elim And.left fun h ↦ .inr h.1

/-- It is a datagram that nothing but a FIN is held against. -/
theorem Confirms.datagram {c : Client} (h : Confirms c ev) : ∃ raw source now,
    ev = .datagram raw source now ∧ ∀ e, (ClientProtocol.validateConfirmation c.sequenceNumber
      c.ackNumber (raw.take commsBufferSize) source).map Prod.fst = .error e →
        e.cls = .unexpectedFinMessage := by
  rcases h with ⟨-, packet, h⟩ | ⟨-, e, b, packet, h, hfin, -, -⟩
  · obtain ⟨raw, source, hrecv, hcheck⟩ := returned_check h
    obtain ⟨raw, now, rfl, rfl⟩ := ReListen.recvfrom_packet hrecv
    refine ⟨raw, source, now, rfl, fun e he ↦ ?_⟩
    cases hcheck.symm.trans he
  · have hspec := reListens ((ClientProtocol.waitForAck c.sequenceNumber c.ackNumber).letThrough
      [.unexpectedFinMessage, .messageIsNotAck]) c.socket c.listening ev
    have hfails : ((ClientProtocol.waitForAck c.sequenceNumber c.ackNumber).letThrough
        [.unexpectedFinMessage, .messageIsNotAck]).Fails c.socket c.listening ev e := by
      unfold confirmation at h
      rw [h] at hspec
      cases hspec with
      | letThrough hf => exact hf
      | exhausted hf => exact hf
    rcases hfails with ⟨raw, source, hrecv, hcheck⟩ | ⟨e', hrecv, rfl⟩
    · obtain ⟨raw, now, rfl, rfl⟩ := ReListen.recvfrom_packet hrecv
      refine ⟨raw, source, now, rfl, fun e' he ↦ ?_⟩
      rw [← Except.error.inj (hcheck.symm.trans he)]
      exact hfin
    · rcases ReListen.recvfrom_failed hrecv with rfl | rfl <;> cases hfin

/-- An ACK with the number of the operation is not taken. -/
theorem not_confirms_operation {c : Client} {source : Address} {now : Time}
    (hnumber : c.sequenceNumber = ⟨0, .stopAndWait⟩) (hack : c.ackNumber = none)
    (hraw : Carries raw 1 true false []) : ¬Confirms c (.datagram raw (some source) now) := by
  intro h
  obtain ⟨raw', source', now', hev, hcheck⟩ := h.datagram
  obtain ⟨rfl, rfl, rfl⟩ := Event.datagram.inj hev
  obtain ⟨packet, -, -, -, hc⟩ := check_confirmation (A := source) (s := c.sequenceNumber) hraw
  rw [hack, hc] at hcheck
  have hcls := hcheck ExnClass.invalidSequenceNumber.exn (by simp [hnumber])
  cases hcls

/-- A reply of the handshake is taken. -/
theorem confirms_handshakeReply {c : Client} {source : Address} {now : Time}
    (hpoint : c.point = .informFilename ∨ c.point = .informNameToDownload)
    (hnumber : c.sequenceNumber = ⟨0, .stopAndWait⟩) (hack : c.ackNumber = none)
    (hraw : Carries raw 0 true false []) : Confirms c (.datagram raw (some source) now) := by
  obtain ⟨packet, -, -, -, hc⟩ := check_confirmation (A := source) (s := c.sequenceNumber) hraw
  refine .inl ⟨hpoint, packet, reListen_accepts ?_⟩
  rw [hack]
  show (ClientProtocol.validateConfirmation c.sequenceNumber none (raw.take commsBufferSize)
    (some source)).map Prod.fst = .ok packet
  rw [hc]
  simp [hnumber]

/-- A waiting client, and what is in flight then -/
theorem Invariant.waiting {w : Streams} (h : Invariant ccfg scfg w)
    (hpoint : w.client.point = .informFilename ∨ w.client.point = .informNameToDownload) :
    AwaitsConfirmation ccfg scfg.address w.client ∧ InFlight scfg (InformsFilename ccfg) w := by
  cases h.confirming with
  | operation hc h => rcases hpoint with hp | hp <;> cases hp.symm.trans hc.point
  | filename hc h => exact ⟨hc, h⟩
  | past hc =>
      unfold Client.PastFilename at hc
      rcases hpoint with hp | hp <;> rw [hp] at hc <;> exact hc.elim

/-- In every run, what the client takes for the confirmation of its filename, or for its first
chunk, was sent by the connection after it had received that filename, unless it is a reply of
the handshake that comes while the client waits. -/
theorem confirmed_after_filename_iff (ccfg : Client.Config) (scfg : Server.Config)
    (w w' w'' : Streams) (ℓ : StreamsLabel) (hstart : StreamsStart ccfg scfg w)
    (hrun : (streams ccfg scfg).Reaches w w') (hs : (streams ccfg scfg).step w' ℓ w'') :
    (ConfirmsAt ccfg scfg w' ℓ → SentAfterFilename ccfg ℓ) ↔ ¬LateReply w' ℓ := by
  have hproto : ccfg.protocolVersion = .stopAndWait := by
    obtain ⟨peer, c, hsent⟩ := hstart.client
    exact hsent.proto
  have hinv : Invariant ccfg scfg w' :=
    hrun.invariant (fun hI _ hs ↦ hI.step hproto hs) hstart.invariant
  cases hs with
  | @welcoming raw q now hq =>
      refine ⟨fun h hlate ↦ h ?_, fun hlate h ↦ absurd h.point hlate⟩
      obtain ⟨hc, -⟩ := hinv.waiting hlate
      refine confirms_handshakeReply hlate hc.number hc.ack (hinv.welcoming raw ?_)
      rw [hq]
      exact List.mem_cons_self
  | @connection raw filename q now hq =>
      refine iff_of_true (fun h ↦ ?_) id
      obtain ⟨hc, hflight⟩ := hinv.waiting h.point
      have hraw := hflight.fromConnection (raw, filename) (by rw [hq]; exact List.mem_cons_self)
      cases filename with
      | none => exact absurd h (not_confirms_operation hc.number hc.ack (hraw.1 rfl))
      | some name => exact ⟨name, rfl, hraw.2 name rfl⟩
  | client hev =>
      refine iff_of_true (fun h ↦ ?_) id
      obtain ⟨raw, source, now, rfl, -⟩ := Confirms.datagram h
      obtain ⟨now', h | h⟩ := hev <;> cases h
  | serverTakes => exact iff_of_true False.elim id
  | serverMoves => exact iff_of_true False.elim id
  | lose => exact iff_of_true False.elim id

namespace Local

def handler : FileHandler := ⟨"storage", fun _ ↦ true, some, 2 * minimumFreeGap, fun _ ↦ 0⟩

def uploader : Client.Config :=
  ⟨.stopAndWait, ⟨"127.0.0.1", 7000⟩, ⟨"127.0.0.1", 5001⟩, handler, .upload "notes.txt" "notes.txt"⟩

def connection : Server.Config :=
  ⟨.stopAndWait, ⟨"127.0.0.1", 7001⟩, ⟨"127.0.0.1", 5001⟩, handler,
    ⟨.stopAndWait, 1, true, false, false, 5001, 2, BigEndian.toBytes 2 uploadOperation, none⟩,
    by decide, by decide⟩

/-- The client has answered the handshake, whose reply is still in flight once more. -/
def streams : Streams :=
  let thread := ClientConnection.start connection (fun _ ↦ none) 0
  { client := Client.swallow (Client.sendOperationIntention uploader 0 connection.address
      uploadOperation (Client.init uploader (.forReading "notes.txt" (some "notes.txt") [7]) (fun _ ↦ none) 0))
    connection := thread
    filename := none
    toConnection := []
    fromWelcoming := [[24, 0, 27, 89, 0, 0]]
    fromConnection := (thread.outbox.to connection.clientAddress).map fun raw ↦ (raw, none) }

theorem carries_handshakeReply : Carries [24, 0, 27, 89, 0, 0] 0 true false [] := by
  refine ⟨true, 7001, fun n hn ↦ ?_⟩
  rw [List.take_of_length_le hn]
  exact ⟨by decide, by simp; decide⟩

theorem streams_start : StreamsStart uploader connection streams where
  client := ⟨connection.address, Client.init uploader (.forReading "notes.txt" (some "notes.txt") [7]) (fun _ ↦ none) 0,
    rfl, rfl, rfl, rfl, 0, streams.client, rfl, rfl⟩
  connection := ⟨fun _ ↦ none, rfl, ⟨[48, 0, 19, 137, 0, 2, 0, 2], rfl, by decide +kernel⟩, 0, rfl⟩
  filename := rfl
  toConnection := rfl
  fromWelcoming raw hraw := by
    rw [List.mem_singleton.mp hraw]
    exact carries_handshakeReply
  fromConnection := rfl

/-- The confirmation of the operation has arrived, and the filename is sent. -/
def informed : Streams :=
  { Streams.onClient uploader connection streams
      (.datagram [48, 0, 27, 89, 0, 0] (some connection.address) 0) with
    fromConnection := [] }

theorem reaches_informed : (Saw.streams uploader connection).Reaches streams informed :=
  Lts.Run.single trivial (.connection 0 rfl)

/-- The packet with the filename -/
def filename : Bytes := informed.toConnection.headD []

/-- The connection has taken the filename and answered it. -/
def named : Streams :=
  { Streams.onConnection connection informed
      (.datagram filename (some connection.clientAddress) 0) with toConnection := [] }

theorem reaches_named : (Saw.streams uploader connection).Reaches streams named :=
  Lts.Run.tail reaches_informed trivial (.serverTakes 0 rfl)

end Local

theorem confirmed_after_filename_upload :
    ∃ w ℓ, ConfirmsAt Local.uploader Local.connection w ℓ ∧
      SentAfterFilename Local.uploader ℓ := by
  have hconfirms : ConfirmsAt Local.uploader Local.connection Local.named
      (.connection [16, 0, 27, 89, 0, 0] (some Local.filename) 0) := .inl ⟨.inl rfl, _, rfl⟩
  exact ⟨Local.named, _, hconfirms, (confirmed_after_filename_iff Local.uploader Local.connection
    Local.streams Local.named _ _ Local.streams_start Local.reaches_named
    (.connection (q := []) 0 (by decide +kernel))).mpr id hconfirms⟩

theorem not_confirmed_after_filename :
    ∃ w w' w'' ℓ, StreamsStart Local.uploader Local.connection w ∧
      (streams Local.uploader Local.connection).Reaches w w' ∧
      (streams Local.uploader Local.connection).step w' ℓ w'' ∧
      ConfirmsAt Local.uploader Local.connection w' ℓ ∧ ¬SentAfterFilename Local.uploader ℓ := by
  refine ⟨_, _, _, .welcoming [24, 0, 27, 89, 0, 0] 0, Local.streams_start, Local.reaches_informed,
    .welcoming 0 rfl, ?_, id⟩
  exact confirms_handshakeReply (.inl rfl) rfl rfl Local.carries_handshakeReply

end Rdt.Saw
