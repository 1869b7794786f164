import Rdt.Fields
import Rdt.Saw.Ending

/-!
# The client while an upload is configured

What a client makes of an event until the size of its file is confirmed, under either protocol and
whether or not it gives up.
-/

namespace Rdt.Configuration

open PacketParser Session

/-! ## The packets -/

theorem numberAt_stopAndWait (k : Nat) : numberAt .stopAndWait k = ⟨k % 2, .stopAndWait⟩ := by
  induction k with
  | zero => rfl
  | succ k ih => rw [numberAt_succ, ih, SequenceNumber.step_mk_saw, SequenceNumber.stepSaw_mod]

theorem numberAt_lt {protocol : ProtocolType} (hp : protocol = .stopAndWait) (k : Nat) :
    (numberAt protocol k).value < 2 := by
  rw [hp, numberAt_stopAndWait]
  exact Nat.mod_lt k (by decide)

/-- A datagram with the `k`-th number of the client -/
def Numbered (protocol : ProtocolType) (k : Nat) (raw : Bytes) : Prop :=
  (getPacketFromBytes raw).sequenceNumber = (numberAt protocol k).value

/-- The packet of `inform_filename` -/
def InformsFilename (cfg : Client.Config) (name : String) (raw : Bytes) : Prop :=
  Packed cfg 2 false false (encodeUtf8 name) raw

/-- The packet of `inform_filesize`, which sends no size that takes more than four bytes -/
def InformsFilesize (cfg : Client.Config) (size : Nat) (raw : Bytes) : Prop :=
  size < 256 ^ 4 ∧ Packed cfg 3 false false (BigEndian.toBytes 4 size) raw

section Packets

variable {cfg : Client.Config} {k n : Nat} {isAck isSyn : Bool} {data raw : Bytes}

/-- What a receive whose buffer the header fits in makes of the packet. -/
theorem parse_packed (h : Packed cfg k isAck isSyn data raw) (hn : gbnProtocolHeaderSize ≤ n) :
    (getPacketFromBytes (raw.take n)).sequenceNumber = (numberAt cfg.protocolVersion k).value ∧
      (getPacketFromBytes (raw.take n)).data =
        data.take (n - headerSize cfg.protocolVersion) := by
  obtain ⟨m, hparse, -, -⟩ := Protocol.parse_of_encode (fun hp ↦ numberAt_lt hp k) h
  rw [getPacketFromBytes_take hn, hparse]
  exact ⟨rfl, rfl⟩

theorem numbered_packed (h : Packed cfg k isAck isSyn data raw) :
    Numbered cfg.protocolVersion k raw := by
  obtain ⟨m, hparse, -, -⟩ := Protocol.parse_of_encode (fun hp ↦ numberAt_lt hp k) h
  rw [Numbered, hparse]

theorem numbered_take {protocol : ProtocolType} (hn : gbnProtocolHeaderSize ≤ n) :
    Numbered protocol k (raw.take n) ↔ Numbered protocol k raw := by
  rw [Numbered, Numbered, getPacketFromBytes_take hn]

end Packets

/-! ## What the client hears -/

/-- What the wait for a confirmation raises of them -/
def waitErrors : List ExnClass :=
  [.connectionLost, .socketShutdown, .invalidAckNumber, .invalidSequenceNumber]

/-- Time passes, or a confirmation of the server arrives. -/
def Hears (protocol : ProtocolType) (ev : Event) : Prop :=
  ev.Quiet ∨ ∃ raw A now j isSyn, ev = .datagram raw (some A) now ∧ Confirms protocol j isSyn raw

section Confirmations

variable {protocol : ProtocolType} {j k : Nat} {isSyn : Bool} {raw : Bytes} {A : Address}

theorem numberAt_inj (h : (numberAt protocol k).value = (numberAt protocol j).value) :
    numberAt protocol k = numberAt protocol j := by
  have hp := numberAt_protocol protocol k
  have hq := numberAt_protocol protocol j
  generalize numberAt protocol k = a at *
  generalize numberAt protocol j = b at *
  cases a
  cases b
  dsimp only at h hp hq
  rw [h, hp, hq]

/-- The confirmation of another packet is turned down by one of its numbers. -/
theorem validate_confirms (h : Confirms protocol j isSyn raw) (k : Nat) (A : Address) :
    Numbered protocol k raw ∧
        ClientProtocol.validateConfirmation (numberAt protocol k) (ackAt protocol k)
          (raw.take commsBufferSize) (some A) = .ok (getPacketFromBytes raw, A) ∨
      ∃ e ∈ waitErrors, ClientProtocol.validateConfirmation (numberAt protocol k) (ackAt protocol k)
        (raw.take commsBufferSize) (some A) = .error e.exn := by
  by_cases heq : (numberAt protocol k).value = (numberAt protocol j).value
  · refine .inl ⟨h.sequenceNumber.trans heq.symm, ?_⟩
    have hack : ackAt protocol k = ackAt protocol j := by
      cases protocol with
      | stopAndWait => rfl
      | goBackN => exact congrArg some (numberAt_inj heq)
    rw [hack, numberAt_inj heq]
    exact h.check A
  have hcut : raw.take commsBufferSize = raw :=
    List.take_of_length_le (le_trans h.length (by decide))
  have hraw : raw ≠ [] := by
    rintro rfl
    exact absurd h.isAck (by decide)
  have hack : Protocol.validateAck ExnClass.messageIsNotAck.exn (getPacketFromBytes raw) = .ok () :=
    Protocol.validateAck_eq_ok.mpr h.isAck
  have hfin : Protocol.validateNotFin (getPacketFromBytes raw) = .ok () :=
    Protocol.validateNotFin_eq_ok.mpr h.isFin
  rw [hcut]
  unfold ClientProtocol.validateConfirmation ClientProtocol.validateInboundAck
    ClientProtocol.validateInboundPacket ClientProtocol.validateSequenceNumber
  rw [Protocol.validateInboundPacket_of_ne_nil hraw]
  right
  cases protocol with
  | stopAndWait =>
      have hseq : Protocol.validateSequenceNumber ExnClass.invalidSequenceNumber.exn
          (getPacketFromBytes raw) (numberAt .stopAndWait k) =
            .error ExnClass.invalidSequenceNumber.exn :=
        if_pos (h.sequenceNumber ▸ heq)
      refine ⟨.invalidSequenceNumber, by decide, ?_⟩
      simp only [ackAt, bind, Except.bind, hack, hfin, hseq, pure, Except.pure]
  | goBackN =>
      have hnumber : ClientProtocol.validateAckNumber (getPacketFromBytes raw)
          (numberAt .goBackN k) = .error ExnClass.invalidAckNumber.exn := by
        unfold ClientProtocol.validateAckNumber Packet.getAckNumber
        rw [h.ackNumber _ rfl]
        exact if_pos heq
      refine ⟨.invalidAckNumber, by decide, ?_⟩
      simp only [ackAt, bind, Except.bind, hack, hnumber]

variable {es : List ExnClass} {s : SocketSaw} {r : ReListen} {ev : Event}

/-- The client takes no other confirmation than the one with its number. -/
theorem returned_confirms (hev : Hears protocol ev) {packet : Packet}
    (h : reListenIfFailed ((ClientProtocol.waitForAck (numberAt protocol k)
      (ackAt protocol k)).letThrough es) s r ev = .returned packet) :
    ∃ raw A now, ev = .datagram raw (some A) now ∧ Numbered protocol k raw := by
  obtain ⟨raw, source, hrecv, hcheck⟩ := returned_check h
  obtain ⟨raw, now, rfl, rfl⟩ := ReListen.recvfrom_packet hrecv
  rcases hev with ⟨now', h | h⟩ | ⟨raw', A, now', j, isSyn, hev, hraw⟩
  · cases h
  · cases h
  · obtain ⟨rfl, rfl, rfl⟩ := Event.datagram.inj hev
    refine ⟨raw, A, now, rfl, ?_⟩
    have hcheck : (ClientProtocol.validateConfirmation (numberAt protocol k) (ackAt protocol k)
        (raw.take commsBufferSize) (some A)).map Prod.fst = .ok packet := hcheck
    rcases validate_confirms hraw k A with ⟨hnumber, -⟩ | ⟨e, -, herr⟩
    · exact hnumber
    · rw [herr] at hcheck
      cases hcheck

theorem raised_mem_waitErrors (hev : Hears protocol ev) {e : Exn} {b : Bool}
    (h : reListenIfFailed ((ClientProtocol.waitForAck (numberAt protocol k)
      (ackAt protocol k)).letThrough es) s r ev = .raised e b) : e.cls ∈ waitErrors := by
  rcases fails_of_raised h with ⟨raw, source, hrecv, hcheck⟩ | ⟨e', hrecv, rfl⟩
  · obtain ⟨raw, now, rfl, rfl⟩ := ReListen.recvfrom_packet hrecv
    rcases hev with ⟨now', h | h⟩ | ⟨raw', A, now', j, isSyn, hev, hraw⟩
    · cases h
    · cases h
    · obtain ⟨rfl, rfl, rfl⟩ := Event.datagram.inj hev
      have hcheck : (ClientProtocol.validateConfirmation (numberAt protocol k) (ackAt protocol k)
          (raw.take commsBufferSize) (some A)).map Prod.fst = .error e := hcheck
      rcases validate_confirms hraw k A with ⟨-, hok⟩ | ⟨e', he, herr⟩
      · rw [hok] at hcheck
        cases hcheck
      · rw [herr] at hcheck
        exact Except.error.inj hcheck ▸ he
  · rcases ReListen.recvfrom_failed hrecv with rfl | rfl <;> decide

end Confirmations

/-! ## The client -/

section Client

variable {cfg : Client.Config} {file : File} {peer A : Address} {k : Nat} {point : Client.Point}
  {P Q : Bytes → Prop} {c : Client} {ev : Event}

/-- The client waits at `point` for the confirmation of its `k`-th packet.  It sends to `A`, and what it
repeats to `peer` has `P`. -/
structure Awaits (cfg : Client.Config) (file : File) (peer A : Address) (k : Nat)
    (point : Client.Point) (P : Bytes → Prop) (c : Client) : Prop extends Sent cfg file k c where
  point : c.point = point
  serverAddress : c.serverAddress = A
  reachable : c.serverAddress.port ≠ 0
  repeats : ∀ raw ∈ c.socket.retransmission.to peer, P raw

/-- The client has ended, or closes the connection after an exception; what it repeats to `peer` has
`P`. -/
structure Parted (peer : Address) (P : Bytes → Prop) (c : Client) : Prop where
  leaving : Client.Leaving c
  repeats : ∀ raw ∈ c.socket.retransmission.to peer, P raw

theorem repeated (h : ∀ raw ∈ c.socket.retransmission.to peer, P raw) (b : Bool) :
    ∀ raw ∈ Outbox.to (if b then c.socket.retransmission else []) peer, P raw := by
  intro raw hr
  cases b with
  | false => cases hr
  | true => exact h raw hr

theorem Awaits.stirred (h : Awaits cfg file peer A k point P c) (r : ReListen) (b : Bool) :
    Awaits cfg file peer A k point P (c.stirred r b) :=
  ⟨⟨h.sequenceNumber, h.ackNumber, h.content⟩, h.point, h.serverAddress, h.reachable, h.repeats⟩

theorem Awaits.mono (h : Awaits cfg file peer A k point P c) (hPQ : ∀ raw, P raw → Q raw) :
    Awaits cfg file peer A k point Q c :=
  ⟨h.toSent, h.point, h.serverAddress, h.reachable, fun raw hr ↦ hPQ raw (h.repeats raw hr)⟩

theorem Parted.mono (h : Parted peer P c) (hPQ : ∀ raw, P raw → Q raw) : Parted peer Q c :=
  ⟨h.leaving, fun raw hr ↦ hPQ raw (h.repeats raw hr)⟩

theorem cleanup_kept (cfg : Client.Config) (c : Client) :
    (Client.fileCleanupAfterError cfg c).finish.socket = c.socket ∧
      (Client.fileCleanupAfterError cfg c).finish.outbox = c.outbox := by
  unfold Client.fileCleanupAfterError
  split <;> exact ⟨rfl, rfl⟩

theorem parted_cleanup (h : ∀ raw ∈ c.socket.retransmission.to peer, P raw) :
    Parted peer P (Client.fileCleanupAfterError cfg c).finish :=
  ⟨.ended rfl, by rw [(cleanup_kept cfg c).1]; exact h⟩

/-- A client that has parted sends nothing new. -/
theorem Parted.step (h : Parted peer P c) (cfg : Client.Config) (ev : Event) :
    Parted peer P (c.step cfg ev) ∧ ∀ raw ∈ (c.step cfg ev).outbox.to peer, P raw := by
  cases h.leaving with
  | ended hp =>
      rw [Client.step_ended hp]
      exact ⟨⟨.ended hp, h.repeats⟩, fun raw hr ↦ (by cases hr)⟩
  | finalizing hp =>
      simp only [Client.step, Client.onEvent, hp, Client.listen]
      split
      · exact ⟨⟨.finalizing rfl, h.repeats⟩, repeated h.repeats _⟩
      · refine ⟨parted_cleanup h.repeats, ?_⟩
        rw [Client.onFinalization, Client.finalized, Client.swallow, (cleanup_kept cfg _).2]
        exact fun raw hr ↦ (by cases hr)
      · rename_i e b _
        unfold Client.onFinalization
        dsimp only
        split
        · refine ⟨parted_cleanup h.repeats, ?_⟩
          rw [Client.finalized, Client.swallow, (cleanup_kept cfg _).2]
          exact repeated h.repeats b
        · exact ⟨⟨.ended rfl, h.repeats⟩, repeated h.repeats b⟩

/-! ### The receives that wait for a confirmation -/

/-- The receive that the client is blocked in waits for an ACK, and `k` goes on from it; what the wait
raises is left to the `except` clauses. -/
structure Waits (cfg : Client.Config) (c : Client)
    (k : Time → Client → Except Exn Packet → Client.Exec) : Prop where
  unwindowed : c.Unwindowed
  receives : ∃ es, ∀ ev,
    c.listened cfg ev = (reListenIfFailed ((ClientProtocol.waitForAck c.sequenceNumber
        c.ackNumber).letThrough es) c.socket c.listening ev).void ∧
      c.step cfg ev = Client.handle cfg ev.now (Client.listen { c with outbox := [] }
        ((ClientProtocol.waitForAck c.sequenceNumber c.ackNumber).letThrough es) ev (k ev.now))
  errors : ∀ now d e, e.cls ∈ waitErrors → k now d (.error e) = .error (e, d)

theorem waits_operation (hp : c.point = .sendOperationIntention peer) :
    Waits cfg c fun now ↦ Client.onOperationConfirmation cfg now peer := by
  refine ⟨by rw [Client.Unwindowed, hp]; trivial, ⟨[.unexpectedFinMessage], fun ev ↦ ⟨?_, ?_⟩⟩,
    fun now d e he ↦ if_neg ?_⟩
  · rw [Client.listened, hp]
    rfl
  · rw [Client.step_eq_handle (by simp [hp]) (by simp [hp]), Client.onEvent]
    dsimp only
    rw [hp]
    rfl
  · intro hcls
    rw [hcls] at he
    revert he
    decide

/-- The other two waits end in `onConfirmation`. -/
theorem errors_onConfirmation (refused : ExnClass) (next : Client → Client.Exec) (d : Client) {e : Exn}
    (he : e.cls ∈ waitErrors) : Client.onConfirmation refused next d (.error e) = .error (e, d) := by
  refine if_neg ?_
  rintro (hcls | hcls) <;>
    · rw [hcls] at he
      revert he
      decide

theorem waits_filename (hp : c.point = .informFilename) :
    Waits cfg c fun now ↦ Client.onConfirmation .fileAlreadyExists (Client.informFilesize cfg now) := by
  refine ⟨by rw [Client.Unwindowed, hp]; trivial,
    ⟨[.unexpectedFinMessage, .messageIsNotAck], fun ev ↦ ⟨?_, ?_⟩⟩,
    fun now d e he ↦ errors_onConfirmation _ _ d he⟩
  · rw [Client.listened, hp]
  · rw [Client.step_eq_handle (by simp [hp]) (by simp [hp]), Client.onEvent]
    dsimp only
    rw [hp]

theorem waits_filesize (hp : c.point = .informFilesize) :
    Waits cfg c fun now ↦ Client.onConfirmation .fileTooBig (Client.sendFile cfg now) := by
  refine ⟨by rw [Client.Unwindowed, hp]; trivial,
    ⟨[.unexpectedFinMessage, .messageIsNotAck], fun ev ↦ ⟨?_, ?_⟩⟩,
    fun now d e he ↦ errors_onConfirmation _ _ d he⟩
  · rw [Client.listened, hp]
  · rw [Client.step_eq_handle (by simp [hp]) (by simp [hp]), Client.onEvent]
    dsimp only
    rw [hp]

/-- What an event is to a client that waits for a confirmation: nothing, the confirmation, or the end of
its patience. -/
inductive Meets (cfg : Client.Config) (j : Nat)
    (k : Time → Client → Except Exn Packet → Client.Exec) (c : Client) (ev : Event) : Prop
  | stirs (r : ReListen) (b : Bool) (hstep : c.step cfg ev = c.stirred r b)
  | confirmed {raw : Bytes} {source : Address} {now : Time} (packet : Packet)
      (hev : ev = .datagram raw (some source) now) (hraw : Numbered cfg.protocolVersion j raw)
      (hstep : c.step cfg ev = Client.handle cfg now (k now { c with outbox := [] } (.ok packet)))
  | raises {e : Exn} (b : Bool) (he : e.cls ∈ waitErrors) (hexn : (c.listened cfg ev).exn = some e)
      (hstep : c.step cfg ev =
        Client.handle cfg ev.now (.error (e, Client.retransmit { c with outbox := [] } b)))

theorem Waits.meets {next : Time → Client → Except Exn Packet → Client.Exec} (h : Waits cfg c next)
    (hs : Sent cfg file k c) (hev : Hears cfg.protocolVersion ev) : Meets cfg k next c ev := by
  obtain ⟨es, hreceives⟩ := h.receives
  obtain ⟨hlistened, hstep⟩ := hreceives ev
  cases hr : reListenIfFailed ((ClientProtocol.waitForAck c.sequenceNumber
      c.ackNumber).letThrough es) c.socket c.listening ev with
  | listening r b =>
      rw [hr] at hlistened
      exact .stirs r b (Client.step_of_listening h.unwindowed hlistened)
  | returned packet =>
      have hreturned := hr
      rw [hs.sequenceNumber, hs.ackNumber] at hreturned
      obtain ⟨raw, source, now, rfl, hraw⟩ := returned_confirms hev hreturned
      refine .confirmed packet rfl hraw ?_
      rw [hstep]
      dsimp only [Client.listen]
      rw [hr]
      rfl
  | raised e b =>
      have hraised := hr
      rw [hs.sequenceNumber, hs.ackNumber] at hraised
      have he := raised_mem_waitErrors hev hraised
      refine .raises b he (by rw [hlistened, hr]; rfl) ?_
      rw [hstep]
      dsimp only [Client.listen]
      rw [hr]
      exact congrArg _ (h.errors _ _ _ he)

/-! ### What the client sends then -/

/-- What the client has handed over for `peer`, and what it would repeat there, has `P`. -/
structure Quotes (peer : Address) (P : Bytes → Prop) (c : Client) : Prop where
  outbox : ∀ raw ∈ c.outbox.to peer, P raw
  repeats : ∀ raw ∈ c.socket.retransmission.to peer, P raw

theorem Quotes.mono (h : Quotes peer P c) (hPQ : ∀ raw, P raw → Q raw) : Quotes peer Q c :=
  ⟨fun raw hr ↦ hPQ raw (h.outbox raw hr), fun raw hr ↦ hPQ raw (h.repeats raw hr)⟩

theorem quotes_handed (hout : ∀ raw ∈ c.outbox.to peer, P raw) {raw : Bytes}
    (hraw : c.serverAddress = peer → P raw) : Quotes peer P (c.handed raw) := by
  have only : ∀ raw' ∈ Outbox.to [(raw, c.serverAddress)] peer, P raw' := by
    intro raw' hr
    obtain ⟨rfl, haddress⟩ : raw' = raw ∧ c.serverAddress = peer := by
      simpa [Outbox.to, and_comm, eq_comm] using hr
    exact hraw haddress
  refine ⟨?_, only⟩
  show ∀ raw' ∈ Outbox.to (c.outbox ++ [(raw, c.serverAddress)]) peer, P raw'
  intro raw' hr
  rw [Outbox.to_append] at hr
  exact (List.mem_append.mp hr).elim (hout raw') (only raw')

/-- What may fail is the composer, which does not make the client close the connection. -/
theorem quotes_send (hport : c.serverAddress.port ≠ 0) (hout : ∀ raw ∈ c.outbox.to peer, P raw)
    (cfg : Client.Config) (isAck isSyn isFin : Bool) (port : UInt16) (data : Bytes)
    (hp : ∀ raw, c.serverAddress = peer → Protocol.encode cfg.protocolVersion c.sequenceNumber
      c.ackNumber isAck isSyn isFin port data = .ok raw → P raw) :
    (∃ raw, Client.send cfg c isAck isSyn isFin port data = .ok (c.handed raw) ∧
        Protocol.encode cfg.protocolVersion c.sequenceNumber c.ackNumber isAck isSyn isFin port data =
          .ok raw ∧ Quotes peer P (c.handed raw)) ∨
      ∃ e : Exn, Client.send cfg c isAck isSyn isFin port data = .error (e, c) ∧
        Client.closesConnection cfg e.cls = false := by
  rw [Client.send_eq_encode cfg hport]
  cases hraw : Protocol.encode cfg.protocolVersion c.sequenceNumber c.ackNumber isAck isSyn isFin port
      data with
  | ok raw => exact .inl ⟨raw, rfl, rfl, quotes_handed hout fun haddress ↦ hp raw haddress hraw⟩
  | error e =>
      refine .inr ⟨e, rfl, ?_⟩
      unfold Client.closesConnection
      rcases Protocol.encode_error hraw with rfl | rfl <;> split <;> rfl

/-- An exception that does not make the client close the connection ends it. -/
theorem Quotes.ends (h : Quotes peer P c) {e : Exn} (he : Client.closesConnection cfg e.cls = false)
    (now : Time) : Parted peer P (Client.handle cfg now (.error (e, c))) ∧
      ∀ raw ∈ (Client.handle cfg now (.error (e, c))).outbox.to peer, P raw := by
  simp only [Client.handle, he, Bool.false_eq_true, if_false]
  refine ⟨parted_cleanup h.repeats, ?_⟩
  rw [(cleanup_kept cfg c).2]
  exact h.outbox

/-- The ACK and the FIN of the closing sequence have one number. -/
theorem Quotes.closes (h : Quotes peer P c) (hs : Sent cfg file k c)
    (hport : c.serverAddress.port ≠ 0)
    (hp : ∀ raw, c.serverAddress = peer → Numbered cfg.protocolVersion k raw → P raw) (now : Time) :
    Parted peer P (Client.swallow (Client.handleConnectionFinalization cfg now .exceptClause c)) ∧
      ∀ raw ∈ (Client.swallow
        (Client.handleConnectionFinalization cfg now .exceptClause c)).outbox.to peer, P raw := by
  have numbered : ∀ {isAck isFin : Bool} {port : UInt16} {raw : Bytes},
      Protocol.encode cfg.protocolVersion c.sequenceNumber c.ackNumber isAck false isFin port [] =
        .ok raw → Numbered cfg.protocolVersion k raw := by
    intro isAck isFin port raw hraw
    rw [hs.sequenceNumber] at hraw
    obtain ⟨m, hparse, -, -⟩ := Protocol.parse_of_encode (fun hp ↦ numberAt_lt hp k) hraw
    rw [Numbered, hparse]
  rw [Client.handleConnectionFinalization_eq hport, Client.sendFinalization, Client.sendAck]
  rcases quotes_send hport h.outbox cfg true false false cfg.myAddress.port [] fun raw haddress hraw ↦
    hp raw haddress (numbered hraw) with ⟨ack, hsend, -, hq⟩ | ⟨e, hsend, -⟩
  · rw [hsend]
    dsimp only [bind, Except.bind, Client.sendFin]
    rcases quotes_send (c := c.handed ack) hport hq.outbox cfg false false true
      (c.handed ack).serverAddress.port [] fun raw haddress hraw ↦ hp raw haddress (numbered hraw) with ⟨fin, hsend, -, hq'⟩ | ⟨e, hsend, -⟩
    · rw [hsend]
      exact ⟨⟨.finalizing rfl, hq'.repeats⟩, hq'.outbox⟩
    · rw [hsend]
      exact ⟨⟨.ended rfl, hq.repeats⟩, hq.outbox⟩
  · rw [hsend]
    exact ⟨⟨.ended rfl, h.repeats⟩, h.outbox⟩

/-- The client stops waiting.  After `ConnectionLost` it closes the connection, with the number that
follows its last one. -/
theorem Awaits.gives_up (h : Awaits cfg file peer A k point P c) {src name : String}
    (htask : cfg.task = .upload src name) {e : Exn} (he : e.cls ∈ waitErrors) (b : Bool) (now : Time)
    (hP : ∀ raw, P raw → Q raw)
    (hQ : e.cls = .connectionLost → A = peer → ∀ raw, Numbered cfg.protocolVersion (k + 1) raw → Q raw) :
    Parted peer Q (Client.handle cfg now (.error (e, Client.retransmit { c with outbox := [] } b))) ∧
      ∀ raw ∈ (Client.handle cfg now
        (.error (e, Client.retransmit { c with outbox := [] } b))).outbox.to peer, Q raw := by
  have hq : Quotes peer Q (Client.retransmit { c with outbox := [] } b) :=
    Quotes.mono ⟨repeated h.repeats b, h.repeats⟩ hP
  by_cases hlost : e.cls = .connectionLost
  · have hcloses : Client.closesConnection cfg e.cls = true := by
      rw [hlost, Client.closesConnection, htask]
      rfl
    rw [Client.handle_error_closes hcloses]
    have hs : Sent cfg file (k + 1)
        (Client.retransmit { c with outbox := [] } b).stepSequence.stepAck :=
      Sent.stepped ⟨h.sequenceNumber, h.ackNumber, h.content⟩
    refine Quotes.closes (c := (Client.retransmit { c with outbox := [] } b).stepSequence.stepAck)
      ⟨hq.outbox, hq.repeats⟩ hs h.reachable (fun raw haddress hraw ↦ ?_) now
    exact hQ hlost (h.serverAddress.symm.trans haddress) raw hraw
  · refine hq.ends ?_ now
    rw [Client.closesConnection, htask]
    simp only [waitErrors, List.mem_cons, List.not_mem_nil, or_false] at he
    rcases he with he | he | he | he
    · exact absurd he hlost
    all_goals
      rw [he]
      rfl

/-- The next packet is sent, and the client waits for its confirmation; or the composer fails. -/
theorem sent_asks (hport : peer.port ≠ 0) (hs : Sent cfg file k c) (haddress : c.serverAddress = peer)
    (hout : c.outbox = []) (hrep : ∀ raw ∈ c.socket.retransmission.to peer, P raw)
    (data : Bytes) (point : Client.Point) (now : Time) {c' : Client}
    (hc : c' = Client.handle cfg now
      (Client.send cfg c false false false cfg.myAddress.port data >>= fun c ↦
        .ok (c.block point now))) :
    (Awaits cfg file peer peer k point (Packed cfg k false false data) c' ∧
        ∀ raw ∈ c'.outbox.to peer, Packed cfg k false false data raw) ∨
      Parted peer P c' ∧ ∀ raw ∈ c'.outbox.to peer, P raw := by
  have nothing : ∀ {R : Bytes → Prop}, ∀ raw ∈ c.outbox.to peer, R raw := by
    rw [hout]
    exact fun raw hr ↦ (by cases hr)
  have packed : ∀ raw, c.serverAddress = peer → Protocol.encode cfg.protocolVersion c.sequenceNumber
      c.ackNumber false false false cfg.myAddress.port data = .ok raw →
        Packed cfg k false false data raw := by
    intro raw _ hraw
    rwa [hs.sequenceNumber, hs.ackNumber] at hraw
  have hreachable : c.serverAddress.port ≠ 0 := haddress ▸ hport
  rcases quotes_send hreachable nothing cfg false false false cfg.myAddress.port data packed with
    ⟨raw, hsend, -, hq⟩ | ⟨e, hsend, he⟩
  · rw [hsend] at hc
    subst hc
    exact .inl ⟨⟨⟨hs.sequenceNumber, hs.ackNumber, hs.content⟩, rfl, haddress, hreachable, hq.repeats⟩,
      hq.outbox⟩
  · rw [hsend] at hc
    subst hc
    exact .inr (Quotes.ends ⟨nothing, hrep⟩ he now)

/-- The operation is confirmed: the name is sent, unless it is too long for a packet. -/
theorem Awaits.names (hport : peer.port ≠ 0)
    (h : Awaits cfg file peer A 1 (.sendOperationIntention peer) P c) {src name : String}
    (htask : cfg.task = .upload src name) (now : Time) (packet : Packet) {c' : Client}
    (hc : c' = Client.handle cfg now
      (Client.onOperationConfirmation cfg now peer { c with outbox := [] } (.ok packet))) :
    (Awaits cfg file peer peer 2 .informFilename (InformsFilename cfg name) c' ∧
        ∀ raw ∈ c'.outbox.to peer, InformsFilename cfg name raw) ∨
      Parted peer P c' ∧ ∀ raw ∈ c'.outbox.to peer, P raw := by
  let d : Client := { c with outbox := [], serverAddress := peer }
  have hd : Sent cfg file 2 d.stepSequence.stepAck :=
    Sent.stepped ⟨h.sequenceNumber, h.ackNumber, h.content⟩
  rw [Client.onOperationConfirmation, Client.informName, htask] at hc
  exact sent_asks hport hd rfl rfl h.repeats (encodeUtf8 name) .informFilename now hc

/-- The name is confirmed: the size is sent, unless it takes more than four bytes. -/
theorem Awaits.sizes (h : Awaits cfg file peer peer 2 .informFilename P c) (now : Time)
    (packet : Packet) {c' : Client}
    (hc : c' = Client.handle cfg now (Client.onConfirmation .fileAlreadyExists
      (Client.informFilesize cfg now) { c with outbox := [] } (.ok packet))) :
    (Awaits cfg file peer peer 3 .informFilesize (InformsFilesize cfg file.content.length) c' ∧
        ∀ raw ∈ c'.outbox.to peer, InformsFilesize cfg file.content.length raw) ∨
      Parted peer P c' ∧ ∀ raw ∈ c'.outbox.to peer, P raw := by
  let d : Client := { c with outbox := [] }
  have hd : Sent cfg file 3 d.stepSequence.stepAck :=
    Sent.stepped ⟨h.sequenceNumber, h.ackNumber, h.content⟩
  rw [Client.onConfirmation, Client.informFilesize] at hc
  split at hc
  · rename_i hlt
    have hsize : d.stepSequence.stepAck.file.content.length = file.content.length :=
      congrArg List.length h.content
    have hlt : file.content.length < 256 ^ 4 := hsize ▸ hlt
    rw [hsize] at hc
    rcases sent_asks (h.serverAddress ▸ h.reachable) hd h.serverAddress rfl h.repeats (BigEndian.toBytes 4 file.content.length)
      .informFilesize now hc with ⟨hawaits, hout⟩ | hparted
    · exact .inl ⟨hawaits.mono fun _ hraw ↦ ⟨hlt, hraw⟩, fun raw hr ↦ ⟨hlt, hout raw hr⟩⟩
    · exact .inr hparted
  · rw [hc]
    refine .inr (Quotes.ends (c := d.stepSequence.stepAck) ⟨?_, h.repeats⟩ ?_ now)
    · exact fun raw hr ↦ (by cases hr)
    · unfold Client.closesConnection
      split <;> rfl

end Client

end Rdt.Configuration
