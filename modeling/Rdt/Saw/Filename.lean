import Rdt.Saw.Start
import Rdt.Saw.Idle

/-!
# Both ends around the filename

What either end can do until the filename is confirmed, and that nothing leads a client back to it.
-/

namespace Rdt

/-! ## Past the filename -/

namespace Client

variable {cfg : Config} {c : Client}

/-- A Stop-and-Wait client that has its filename confirmed, or has given up on it. -/
def PastFilename (c : Client) : Prop :=
  match c.point with
  | .informFilesize | .sendFileSaw _ _ _ | .initiateCloseConnection | .receiveFileSaw
  | .handleConnectionFinalization .performDownload | .handleConnectionFinalization .exceptClause
  | .ended => True
  | _ => False

/-- A stretch of the thread that does not lead back to the filename. -/
def Passes : Exec → Prop
  | .ok c => PastFilename c
  | .error _ => True

theorem PastFilename.of_leaving (h : Leaving c) : PastFilename c := by
  unfold PastFilename
  cases h with
  | finalizing hp => rw [hp]; trivial
  | ended hp => rw [hp]; trivial

theorem Passes.handle {x : Exec} (h : Passes x) (now : Time) : PastFilename (handle cfg now x) := by
  cases x with
  | ok c => exact h
  | error e => exact .of_leaving (leaving_handle_error cfg now e)

theorem Passes.swallow {x : Exec} (h : Passes x) : PastFilename (swallow x) := by
  cases x with
  | ok c => exact h
  | error e => exact .of_leaving (.ended rfl)

theorem Passes.send {isAck isSyn isFin : Bool} {port : UInt16} {data : Bytes} {k : Client → Exec}
    (h : ∀ c, Passes (k c)) : Passes (send cfg c isAck isSyn isFin port data >>= k) := by
  cases Client.send cfg c isAck isSyn isFin port data with
  | error e => trivial
  | ok c => exact h c

theorem passes_finalized (now : Time) {caller : Finalization}
    (h : caller ≠ .sendOperationIntention) (c : Client) : Passes (finalized cfg now caller c) := by
  cases caller with
  | sendOperationIntention => exact absurd rfl h
  | performDownload => trivial
  | exceptClause => trivial

theorem passes_finalization (now : Time) {caller : Finalization}
    (h : caller ≠ .sendOperationIntention) (c : Client) :
    Passes (handleConnectionFinalization cfg now caller c) := by
  have hsent : Passes (sendFinalization cfg now caller c) := by
    refine Passes.send fun c ↦ Passes.send fun c ↦ ?_
    cases caller with
    | sendOperationIntention => exact absurd rfl h
    | performDownload => trivial
    | exceptClause => trivial
  unfold handleConnectionFinalization
  cases hx : sendFinalization cfg now caller c with
  | ok c =>
      rw [hx] at hsent
      exact hsent
  | error x =>
      dsimp only
      split
      · exact passes_finalized now h x.2
      · trivial

theorem passes_completeUpload (c : Client) : Passes (completeUpload cfg c) :=
  Passes.send fun _ ↦ trivial

theorem passes_onFinOrAck (c : Client) (r : Except Exn Unit) : Passes (onFinOrAck cfg c r) := by
  unfold onFinOrAck
  split
  · exact passes_completeUpload c
  · split <;> trivial

theorem passes_informFilesize (now : Time) (c : Client) : Passes (informFilesize cfg now c) := by
  unfold informFilesize
  dsimp only
  split
  · exact Passes.send fun _ ↦ trivial
  · trivial

theorem passes_sendFileSaw (now : Time) (totalChunks : Nat) (remaining : List Bytes)
    (chunkNumber : Nat) (c : Client) :
    Passes (sendFileSaw cfg now totalChunks remaining chunkNumber c) := by
  induction remaining generalizing chunkNumber c with
  | nil => trivial
  | cons chunk remaining ih =>
      refine Passes.send fun c ↦ ?_
      split
      · exact ih _ _
      · trivial

theorem passes_sendFile (h : cfg.protocolVersion = .stopAndWait) (now : Time) (c : Client) :
    Passes (sendFile cfg now c) := by
  unfold sendFile
  rw [h]
  exact passes_sendFileSaw now _ _ _ _

theorem passes_afterChunk (now : Time) (isFin : Bool) (c : Client) :
    Passes (afterChunk cfg now isFin c) := by
  unfold afterChunk
  split
  · exact passes_finalization now (by decide) _
  · trivial

/-- The acknowledgement of a chunk without FIN, and what follows it -/
theorem passes_ack (fin : Bool) (c : Client) {k : Client → Exec} (h : ∀ c, Passes (k c)) :
    Passes (if fin = true then .ok c >>= k else sendAck cfg c >>= k) := by
  cases fin with
  | true => exact h c
  | false => exact Passes.send h

theorem passes_receiveFile (h : cfg.protocolVersion = .stopAndWait) (now : Time) (c : Client)
    (packet : Packet) : Passes (receiveFile cfg now c packet) := by
  unfold receiveFile
  rw [h]
  exact passes_ack packet.isFin c fun c ↦ passes_afterChunk now _ _

theorem passes_onFileChunk (now : Time) (c : Client) (r : SequenceNumber × Packet) :
    Passes (onFileChunk cfg now c r) := by
  unfold onFileChunk
  exact passes_ack r.2.isFin _ fun c ↦ passes_afterChunk now _ _

theorem passes_onDownloadAnswer (h : cfg.protocolVersion = .stopAndWait) (now : Time) (c : Client)
    (r : Except Exn Packet) : Passes (onDownloadAnswer cfg now c r) := by
  unfold onDownloadAnswer
  split
  · exact passes_receiveFile h now c _
  · split
    · split
      · split
        · exact passes_receiveFile h now c _
        · trivial
      · trivial
    · split <;> trivial

theorem passes_onConfirmation (refused : ExnClass) {k : Client → Exec} (h : ∀ c, Passes (k c))
    (c : Client) (r : Except Exn Packet) : Passes (onConfirmation refused k c r) := by
  unfold onConfirmation
  split
  · exact h c
  · split <;> trivial

theorem passes_onFinalization (now : Time) {caller : Finalization}
    (h : caller ≠ .sendOperationIntention) (c : Client) (r : Except Exn Unit) :
    Passes (onFinalization cfg now caller c r) := by
  unfold onFinalization
  split
  · exact passes_finalized now h c
  · split
    · exact passes_finalized now h c
    · trivial

theorem passes_listen {α : Type} {c : Client} (h : PastFilename c) (op : Operation α) (ev : Event)
    {k : Client → Except Exn α → Exec} (hk : ∀ c r, Passes (k c r)) :
    Passes (listen c op ev k) := by
  unfold listen
  split
  · exact h
  · exact hk _ _
  · exact hk _ _

theorem passes_onSuccess {α : Type} {k : Client → α → Exec} (h : ∀ c a, Passes (k c a)) (c : Client)
    (r : Except Exn α) : Passes (onSuccess k c r) := by
  cases r with
  | ok a => exact h c a
  | error e => trivial

theorem PastFilename.onEvent (hproto : cfg.protocolVersion = .stopAndWait) (h : PastFilename c)
    (ev : Event) : Passes (onEvent cfg c ev) := by
  have hc := h
  unfold PastFilename at hc
  unfold Client.onEvent
  cases hp : c.point with
  | informFilesize =>
      exact passes_listen h _ _ (passes_onConfirmation _ (passes_sendFile hproto ev.now))
  | sendFileSaw remaining chunkNumber totalChunks =>
      exact passes_listen h _ _ (passes_onSuccess fun c _ ↦ passes_sendFileSaw ev.now _ _ _ c)
  | initiateCloseConnection => exact passes_listen h _ _ passes_onFinOrAck
  | receiveFileSaw => exact passes_listen h _ _ (passes_onSuccess (passes_onFileChunk ev.now))
  | handleConnectionFinalization caller =>
      refine passes_listen h _ _ (passes_onFinalization ev.now ?_)
      rintro rfl
      rw [hp] at hc
      exact hc
  | ended => exact h
  | handshake | sendOperationIntention | informFilename | informNameToDownload | sendFileGbn
  | receiveFileGbn =>
      rw [hp] at hc
      exact hc.elim

theorem PastFilename.step (hproto : cfg.protocolVersion = .stopAndWait) (h : PastFilename c)
    (ev : Event) : PastFilename (step cfg c ev) := by
  have hpasses : Passes (Client.onEvent cfg { c with outbox := [] } ev) :=
    PastFilename.onEvent hproto (c := { c with outbox := [] }) h ev
  unfold Client.step
  dsimp only
  split
  · exact hpasses.swallow
  · exact hpasses.swallow
  · exact hpasses.handle ev.now

end Client

/-! ## The connection before it has the filename -/

namespace Saw

open Server

variable {ccfg : Client.Config} {scfg : Server.Config} {peer : Address} {raw : Bytes} {ev : Event}

/-- The connection waits for the filename; what it may still send is the ACK of the operation. -/
structure ExpectsFilename (cfg : Server.Config) (c : ClientConnection) : Prop where
  point : c.point = .receiveFilenameForUpload ∨ c.point = .receiveFilenameForDownload
  number : c.sequenceNumber = ⟨0, .stopAndWait⟩
  repeats : ∀ o ∈ c.socket.retransmission.to cfg.clientAddress, Carries o 1 true false []

/-- The connection has no filename. -/
def Unnamed (cfg : Server.Config) (c : ClientConnection) : Prop :=
  ExpectsFilename cfg c ∨ c.point = .ended

/-- The datagram that `receive_filename` takes. -/
def takenFilename (cfg : Server.Config) (c : ClientConnection) (ev : Event) : Option Bytes :=
  match c.point, c.listened cfg ev, ev with
  | .receiveFilenameForUpload, .returned _, .datagram raw _ _ => some raw
  | .receiveFilenameForDownload, .returned _, .datagram raw _ _ => some raw
  | _, _, _ => none

/-- What an event is to a connection without filename. -/
inductive Hears (cfg : Server.Config) (c : ClientConnection) (ev : Event) : Prop
  | nothing (hc : Unnamed cfg (c.step cfg ev))
      (ho : ∀ o ∈ (c.step cfg ev).outbox.to cfg.clientAddress, Carries o 1 true false [])
      (hn : takenFilename cfg c ev = none)
  | filename {raw : Bytes} {now : Time} (hev : ev = .datagram raw (some cfg.clientAddress) now)
      (hnumber : (PacketParser.getPacketFromBytes (raw.take fullBufferSize)).sequenceNumber = 0)
      (hn : takenFilename cfg c ev = some raw)

theorem number_of_receiveFilename {version : ProtocolType} {n : SequenceNumber} {source : Option Address}
    {a : SequenceNumber × String}
    (h : (ServerProtocol.receiveFilename version n).check raw source = .ok a) :
    (PacketParser.getPacketFromBytes raw).sequenceNumber = n.value := by
  obtain ⟨⟨packet, address⟩, hin, h⟩ := except_bind_eq_ok.mp h
  obtain ⟨-, -, rfl⟩ := Protocol.validateInboundPacket_eq_ok.mp hin
  obtain ⟨filename, -, h⟩ := except_bind_eq_ok.mp h
  obtain ⟨_, hnumber, -⟩ := except_bind_eq_ok.mp h
  exact Protocol.validateSequenceNumber_eq_ok.mp hnumber

theorem ExpectsFilename.unwindowed {c : ClientConnection} (h : ExpectsFilename scfg c) :
    c.Unwindowed := by
  unfold ClientConnection.Unwindowed
  rcases h.point with hp | hp <;> rw [hp] <;> trivial

/-- The receive of the filename, for either operation -/
theorem ExpectsFilename.step_eq {c : ClientConnection} (h : ExpectsFilename scfg c) (ev : Event) :
    ∃ k, c.step scfg ev = ClientConnection.handle scfg ev.now
      (ClientConnection.listen { c with outbox := [] }
        (ServerProtocol.receiveFilename scfg.protocolVersion c.sequenceNumber) ev
        (ClientConnection.onSuccess k)) := by
  rcases h.point with hp | hp
  · refine ⟨ClientConnection.onFilenameForUpload scfg ev.now, ?_⟩
    rw [ClientConnection.step_eq_handle (by rw [hp]; simp), ClientConnection.onEvent]
    dsimp only
    rw [hp]
  · refine ⟨ClientConnection.onFilenameForDownload scfg ev.now, ?_⟩
    rw [ClientConnection.step_eq_handle (by rw [hp]; simp), ClientConnection.onEvent]
    dsimp only
    rw [hp]

theorem ExpectsFilename.listened_eq {c : ClientConnection} (h : ExpectsFilename scfg c) (ev : Event) :
    c.listened scfg ev = (reListenIfFailed
      (ServerProtocol.receiveFilename scfg.protocolVersion c.sequenceNumber) c.socket c.listening
        ev).void := by
  unfold ClientConnection.listened
  rcases h.point with hp | hp <;> rw [hp]

theorem ExpectsFilename.hears {c : ClientConnection} (h : ExpectsFilename scfg c)
    {j : Option Bytes} (hev : ev ∈ arrivals scfg.clientAddress j) : Hears scfg c ev := by
  obtain ⟨k, hstep⟩ := h.step_eq ev
  have hlistened := h.listened_eq ev
  have hspec := reListens (ServerProtocol.receiveFilename scfg.protocolVersion c.sequenceNumber)
    c.socket c.listening ev
  cases hr : reListenIfFailed (ServerProtocol.receiveFilename scfg.protocolVersion c.sequenceNumber)
      c.socket c.listening ev with
  | listening r b =>
      rw [hr] at hlistened
      have hc : c.step scfg ev = c.stirred r b := ClientConnection.step_of_listening h.unwindowed hlistened
      refine .nothing ?_ ?_ ?_
      · rw [hc]
        exact .inl ⟨h.point, h.number, h.repeats⟩
      · rw [hc]
        intro o ho
        cases b with
        | false => exact absurd ho List.not_mem_nil
        | true => exact h.repeats o ho
      · unfold takenFilename
        rw [hlistened]
        rcases h.point with hp | hp <;> rw [hp] <;> rfl
  | returned a =>
      obtain ⟨raw, source, hrecv, hcheck⟩ := returned_check hr
      obtain ⟨raw, now, rfl, rfl⟩ := ReListen.recvfrom_packet hrecv
      have hsource : source = some scfg.clientAddress := by
        cases j with
        | some raw' =>
            obtain ⟨now', h⟩ := hev
            exact (Event.datagram.inj h).2.1
        | none =>
            obtain ⟨now', h | h⟩ := hev <;> cases h
      subst hsource
      rw [hr] at hlistened
      refine .filename rfl ?_ ?_
      · have hnumber := number_of_receiveFilename hcheck
        rwa [h.number] at hnumber
      · unfold takenFilename
        rw [hlistened]
        rcases h.point with hp | hp <;> rw [hp] <;> rfl
  | raised e b =>
      have hraises : (ServerProtocol.receiveFilename scfg.protocolVersion c.sequenceNumber).Raises e := by
        rw [hr] at hspec
        cases hspec with
        | letThrough hf => exact hf.raises
        | exhausted hf => exact hf.raises
      obtain ⟨state, disk, herr⟩ := ClientConnection.handle_error scfg ev.now
        (ClientConnection.retransmit { c with outbox := [] } b)
        (ClientConnection.receiveRaises_ne (ServerProtocol.receiveFilename_raises hraises))
      have hlisten : ClientConnection.listen { c with outbox := [] }
          (ServerProtocol.receiveFilename scfg.protocolVersion c.sequenceNumber) ev
          (ClientConnection.onSuccess k) =
            .error (e, ClientConnection.retransmit { c with outbox := [] } b) := by
        simp only [ClientConnection.listen, hr, ClientConnection.onSuccess]
      rw [hr] at hlistened
      refine .nothing ?_ ?_ ?_
      · rw [hstep, hlisten, herr]
        exact .inr rfl
      · rw [hstep, hlisten, herr]
        intro o ho
        cases b with
        | false => exact absurd ho List.not_mem_nil
        | true => exact h.repeats o ho
      · unfold takenFilename
        rw [hlistened]
        rcases h.point with hp | hp <;> rw [hp] <;> rfl

theorem Unnamed.hears {c : ClientConnection} (h : Unnamed scfg c) {j : Option Bytes}
    (hev : ev ∈ arrivals scfg.clientAddress j) : Hears scfg c ev := by
  rcases h with h | hp
  · exact h.hears hev
  · refine .nothing ?_ ?_ ?_
    · rw [ClientConnection.step_ended hp]
      exact .inr hp
    · rw [ClientConnection.step_ended hp]
      exact fun _ ho ↦ absurd ho List.not_mem_nil
    · simp [takenFilename, hp]

/-! ## The client until the filename is confirmed -/

section Waiting

variable {A : Address} {c : Client}

/-- The name given to either subclass -/
def filenameOf (cfg : Client.Config) : String :=
  match cfg.task with
  | .upload _ filenameInServer => filenameInServer
  | .download _ filenameForDownload => filenameForDownload

/-- The packet of `inform_filename` -/
def InformsFilename (cfg : Client.Config) (raw : Bytes) : Prop :=
  Carries raw 0 false false (encodeUtf8 (filenameOf cfg))

/-- The client waits for the confirmation of the operation.  `A` is the connection's address. -/
structure AwaitsOperation (peer A : Address) (c : Client) : Prop where
  point : c.point = .sendOperationIntention peer
  number : c.sequenceNumber = ⟨1, .stopAndWait⟩
  ack : c.ackNumber = none
  repeats : ∀ o ∈ c.socket.retransmission.to A, ∃ data, Carries o 1 true false data

/-- The client waits for the confirmation of the filename, or for the first chunk. -/
structure AwaitsConfirmation (cfg : Client.Config) (A : Address) (c : Client) : Prop where
  point : c.point = .informFilename ∨ c.point = .informNameToDownload
  number : c.sequenceNumber = ⟨0, .stopAndWait⟩
  ack : c.ackNumber = none
  repeats : ∀ o ∈ c.socket.retransmission.to A, InformsFilename cfg o

theorem AwaitsConfirmation.step (hproto : ccfg.protocolVersion = .stopAndWait)
    (h : AwaitsConfirmation ccfg A c) (ev : Event) :
    Client.PastFilename (c.step ccfg ev) ∨ AwaitsConfirmation ccfg A (c.step ccfg ev) ∧
      ∀ o ∈ (c.step ccfg ev).outbox.to A, InformsFilename ccfg o := by
  have hpoints : c.point ≠ .handshake ∧ c.point ≠ .handleConnectionFinalization .exceptClause := by
    rcases h.point with hp | hp <;> rw [hp] <;> simp
  let op := (ClientProtocol.waitForAck c.sequenceNumber c.ackNumber).letThrough
    [.unexpectedFinMessage, .messageIsNotAck]
  have hpasses : (∀ r b, reListenIfFailed op c.socket c.listening ev ≠ .listening r b) →
      Client.PastFilename (c.step ccfg ev) := by
    intro hne
    rw [Client.step_eq_handle hpoints.1 hpoints.2]
    refine Client.Passes.handle ?_ ev.now
    unfold Client.onEvent
    dsimp only
    rcases h.point with hp | hp
    · rw [hp]
      dsimp only [Client.listen]
      split
      · exact absurd ‹_› (hne _ _)
      · exact Client.passes_onConfirmation _ (Client.passes_informFilesize ev.now) _ _
      · exact Client.passes_onConfirmation _ (Client.passes_informFilesize ev.now) _ _
    · rw [hp]
      dsimp only [Client.listen]
      split
      · exact absurd ‹_› (hne _ _)
      · exact Client.passes_onDownloadAnswer hproto ev.now _ _
      · exact Client.passes_onDownloadAnswer hproto ev.now _ _
  cases hr : reListenIfFailed op c.socket c.listening ev with
  | listening r b =>
      right
      have hlistened : c.listened ccfg ev = .listening r b := by
        unfold Client.listened
        rcases h.point with hp | hp <;> rw [hp] <;> exact congrArg Listened.void hr
      have hu : c.Unwindowed := by
        unfold Client.Unwindowed
        rcases h.point with hp | hp <;> rw [hp] <;> trivial
      rw [Client.step_of_listening hu hlistened]
      refine ⟨⟨h.point, h.number, h.ack, h.repeats⟩, ?_⟩
      intro o ho
      cases b with
      | false => exact absurd ho List.not_mem_nil
      | true => exact h.repeats o ho
  | returned a =>
      refine .inl (hpasses fun r b ↦ ?_)
      rw [hr]
      exact fun h ↦ (by cases h)
  | raised e b' =>
      refine .inl (hpasses fun r b ↦ ?_)
      rw [hr]
      exact fun h ↦ (by cases h)

/-- The filename is sent, unless it is too long for a packet. -/
theorem informName_sends (hproto : ccfg.protocolVersion = .stopAndWait) {now : Time}
    (hnumber : c.sequenceNumber = ⟨1, .stopAndWait⟩) (hack : c.ackNumber = none)
    (hout : c.outbox = []) :
    Client.PastFilename (Client.handle ccfg now (Client.informName ccfg now c)) ∨
      AwaitsConfirmation ccfg A (Client.handle ccfg now (Client.informName ccfg now c)) ∧
        ∀ o ∈ (Client.handle ccfg now (Client.informName ccfg now c)).outbox.to A,
          InformsFilename ccfg o := by
  have hseq : c.stepSequence.stepAck.sequenceNumber = ⟨0, .stopAndWait⟩ := by
    show c.sequenceNumber.step = _
    rw [hnumber]
    rfl
  have hnone : c.stepSequence.stepAck.ackNumber = none := by
    show c.ackNumber.map _ = none
    rw [hack]
    rfl
  have hname : ∃ point, (point = .informFilename ∨ point = .informNameToDownload) ∧
      Client.informName ccfg now c =
        Client.informFilename ccfg now point (filenameOf ccfg) c := by
    unfold Client.informName filenameOf
    cases ccfg.task with
    | upload src name => exact ⟨_, .inl rfl, rfl⟩
    | download dst name => exact ⟨_, .inr rfl, rfl⟩
  obtain ⟨point, hpoint, hname⟩ := hname
  rw [hname, Client.informFilename]
  cases hsend : Client.send ccfg c.stepSequence.stepAck false false false ccfg.myAddress.port
    (encodeUtf8 (filenameOf ccfg)) with
  | error e =>
      left
      exact .of_leaving (Client.leaving_handle_error ccfg now e)
  | ok d =>
      right
      obtain ⟨-, raw, henc, rfl⟩ := (Client.send_eq_ok ccfg).mp hsend
      rcases encode_cases (m := c.stepSequence.stepAck.sequenceNumber) (by rw [hseq]; decide)
        c.stepSequence.stepAck.ackNumber false false false ccfg.myAddress.port
        (encodeUtf8 (filenameOf ccfg)) with ⟨-, raw', henc', hraw⟩ | ⟨-, herr⟩
      · rw [hproto, henc', Except.ok.injEq] at henc
        subst henc
        rw [hseq] at hraw
        have only : ∀ o ∈ Outbox.to [(raw', c.serverAddress)] A, InformsFilename ccfg o := by
          intro o ho
          rw [Outbox.eq_of_mem_to ho]
          exact hraw
        refine ⟨⟨hpoint, hseq, hnone, only⟩, ?_⟩
        intro o ho
        refine only o ?_
        have ho : o ∈ (c.outbox ++ [(raw', c.serverAddress)]).to A := ho
        rwa [hout] at ho
      · rw [hproto, herr] at henc
        cases henc

/-- The datagrams the client may get as long as the connection has no filename: ACKs without
data. -/
def AckOrQuiet (ev : Event) : Prop :=
  ev.Quiet ∨ ∃ raw source now n, ev = .datagram raw (some source) now ∧ Carries raw n true false []

theorem operation_fails (hack : c.ackNumber = none) (hev : AckOrQuiet ev) {r : ReListen} {e : Exn}
    {es : List ExnClass} (h : ((ClientProtocol.waitForOperationConfirmation c.sequenceNumber
      c.ackNumber).letThrough es).Fails c.socket r ev e) : e.cls ≠ .unexpectedFinMessage := by
  rcases h with ⟨raw, source, hrecv, hcheck⟩ | ⟨e', hrecv, rfl⟩
  · obtain ⟨raw, now, rfl, rfl⟩ := ReListen.recvfrom_packet hrecv
    rcases hev with ⟨now', h | h⟩ | ⟨raw', A, now', n, h, hcarries⟩
    · cases h
    · cases h
    · obtain ⟨rfl, rfl, -⟩ := Event.datagram.inj h
      obtain ⟨packet, -, -, -, hc⟩ := check_confirmation (A := A) (s := c.sequenceNumber) hcarries
      rw [hack] at hcheck
      have hcheck : (ClientProtocol.validateConfirmation c.sequenceNumber none
          (raw.take commsBufferSize) (some A)).map Prod.fst = .error e := hcheck
      rw [hc] at hcheck
      simp only [Bool.not_true, Bool.false_eq_true, if_false] at hcheck
      split at hcheck
      · rw [← Except.error.inj hcheck]
        decide
      · cases hcheck
  · rcases ReListen.recvfrom_failed hrecv with rfl | rfl <;> decide

theorem AwaitsOperation.step (hproto : ccfg.protocolVersion = .stopAndWait)
    (h : AwaitsOperation peer A c) (hev : AckOrQuiet ev) :
    (AwaitsOperation peer A (c.step ccfg ev) ∧
        ∀ o ∈ (c.step ccfg ev).outbox.to A, ∃ data, Carries o 1 true false data) ∨
      Client.PastFilename (c.step ccfg ev) ∨ AwaitsConfirmation ccfg A (c.step ccfg ev) ∧
        ∀ o ∈ (c.step ccfg ev).outbox.to A, InformsFilename ccfg o := by
  have hstep : c.step ccfg ev = Client.handle ccfg ev.now (Client.onEvent ccfg
      { c with outbox := [] } ev) :=
    Client.step_eq_handle (by rw [h.point]; simp) (by rw [h.point]; simp)
  let op := (ClientProtocol.waitForOperationConfirmation c.sequenceNumber c.ackNumber).letThrough
    [.unexpectedFinMessage]
  cases hr : reListenIfFailed op c.socket c.listening ev with
  | listening r b =>
      left
      have hlistened : c.listened ccfg ev = .listening r b := by
        unfold Client.listened
        rw [h.point]
        exact congrArg Listened.void hr
      have hu : c.Unwindowed := by
        unfold Client.Unwindowed
        rw [h.point]
        trivial
      rw [Client.step_of_listening hu hlistened]
      refine ⟨⟨h.point, h.number, h.ack, h.repeats⟩, ?_⟩
      intro o ho
      cases b with
      | false => exact absurd ho List.not_mem_nil
      | true => exact h.repeats o ho
  | returned packet =>
      right
      have hok : Client.onEvent ccfg { c with outbox := [] } ev =
          Client.informName ccfg ev.now { c with outbox := [], serverAddress := peer } := by
        unfold Client.onEvent
        dsimp only
        rw [h.point]
        dsimp only [Client.listen]
        rw [hr]
        rfl
      rw [hstep, hok]
      exact informName_sends hproto h.number h.ack rfl
  | raised e b =>
      have hfin : e.cls ≠ .unexpectedFinMessage := by
        have hack := h.ack
        have hspec := reListens op c.socket c.listening ev
        rw [hr] at hspec
        cases hspec with
        | letThrough hf => exact operation_fails hack hev hf
        | exhausted hf => exact operation_fails hack hev hf
      have herr : Client.onEvent ccfg { c with outbox := [] } ev =
          .error (e, Client.retransmit { c with outbox := [] } b) := by
        unfold Client.onEvent
        dsimp only
        rw [h.point]
        dsimp only [Client.listen]
        rw [hr]
        exact if_neg hfin
      right
      left
      rw [hstep, herr]
      exact .of_leaving (Client.leaving_handle_error ccfg ev.now _)

end Waiting

end Saw

end Rdt
