import Rdt.Server.Accepting
import Rdt.Server.Storage

/-!
# Connections that have ended

Which ended connections `rip_finished_clients` collects, and which of them have closed
their file.
-/

namespace Rdt.Server.ClientConnection

open PacketParser ServerProtocol

variable {cfg : Config} {disk : Disk} {c c' : ClientConnection} {ev : Event} {now : Time}

/-! ## What gets out of a receive -/

/-- The exception that gets out of the receive the connection is blocked in, or out of
`await_ack_phase` around it. -/
def escaping (cfg : Config) (c : ClientConnection) (ev : Event) : Option Exn :=
  match c.point with
  | .sendFileGbn sender =>
      match sender.point, SocketGbn.recvfrom commsBufferSize ev with
      | .waitForAck startTime, some received =>
          match sender.awaitAckPhaseServer
            (received.bind fun r ↦ ServerProtocolGbn.waitForAck sender.ackNumber r.1 r.2)
            (ev.now - startTime) with
          | .raised e => some e
          | _ => none
      | _, _ => none
  | _ => (c.listened cfg ev).exn

/-- An exception gets out that `run` calls recoverable: it logs it and ends, the state as it is.  The
closing handshake of an upload and `initiate_close_connection` have their own ways. -/
def Lingers (cfg : Config) (c : ClientConnection) (ev : Event) : Prop :=
  c.point ≠ .closingHandshakeForUpload ∧ c.point ≠ .initiateCloseConnection ∧
    ∃ e ∈ escaping cfg c ev, e.cls ∈ recoverable

/-- The first packet names an operation, with an ACK number under Go-Back-N. -/
def NamesOperation (cfg : Config) : Prop :=
  (cfg.protocolVersion = .goBackN → cfg.initialPacket.ackNumber ≠ none) ∧
    ∃ opCode, ServerProtocol.processOperationIntention cfg.initialPacket = .ok opCode

/-! ## The states -/

/-- The states a connection can have where it waits. -/
structure Stands (c : ClientConnection) : Prop where
  refusing : c.point = .initiateCloseConnection → c.state = .unrecoverableBadState
  working : c.point ≠ .initiateCloseConnection → c.point ≠ .closingHandshakeForUpload →
    c.point ≠ .ended → c.isReadyToDie = false

/-- What the code that goes on from a value received leaves. -/
def GoesOn (c : ClientConnection) : Exec → Prop
  | .ok c' => c'.state = c.state ∧ c'.point ≠ .ended ∧ c'.point ≠ .initiateCloseConnection ∨
      c'.state = .doneReadyToDie ∧ c'.point = .ended
  | .error (e, c') => e.cls ∉ recoverable ∧
      (e.cls = .connectionClosingNeeded → c'.state = .unrecoverableBadState)

/-- A step at the end of which a run has ended in a state it is collected in, or goes on. -/
structure Proceeds (c' : ClientConnection) : Prop where
  stands : Stands c'
  ready : c'.point = .ended → c'.isReadyToDie = true

theorem isReadyToDie_of_done (h : c.state = .doneReadyToDie) : c.isReadyToDie = true := by
  rw [isReadyToDie, h]
  rfl

theorem isReadyToDie_of_bad (h : c.state = .unrecoverableBadState) : c.isReadyToDie = true := by
  rw [isReadyToDie, h]
  rfl

theorem proceeds_initiateCloseConnection (h : c.state = .unrecoverableBadState) :
    Proceeds (initiateCloseConnection cfg now c) := by
  simp only [initiateCloseConnection, sendFin, ClientConnection.send_eq_encode]
  cases Protocol.encode cfg.protocolVersion c.stepSequence.stepAck.sequenceNumber
      c.stepSequence.stepAck.ackNumber false false true cfg.address.port [] with
  | error e =>
      exact ⟨⟨fun hp ↦ absurd hp (by simp [swallow, finish, bind, Except.bind]), fun _ _ hp ↦ absurd rfl hp⟩,
        fun _ ↦ isReadyToDie_of_bad h⟩
  | ok raw => exact ⟨⟨fun _ ↦ h, fun hp ↦ absurd rfl hp⟩, fun hp ↦ by cases hp⟩

theorem state_fileCleanupAfterError (cfg : Config) (c : ClientConnection) :
    (fileCleanupAfterError cfg c).state = c.state := by
  unfold fileCleanupAfterError
  split <;> rfl

theorem Proceeds.handle_error {e : Exn} (he : e.cls ∉ recoverable)
    (h : e.cls = .connectionClosingNeeded → c.state = .unrecoverableBadState) :
    Proceeds (handle cfg now (.error (e, c))) := by
  simp only [handle]
  split
  · rename_i hclosing
    exact proceeds_initiateCloseConnection (h hclosing)
  · refine ⟨⟨fun hp ↦ (by cases hp), fun _ _ hp ↦ absurd rfl hp⟩, fun _ ↦ isReadyToDie_of_bad ?_⟩
    exact state_fileCleanupAfterError cfg _

theorem GoesOn.handle {x : Exec} (h : GoesOn c x) (hc : c.isReadyToDie = false) :
    Proceeds (handle cfg now x) := by
  cases x with
  | ok c' =>
      rcases h with ⟨hstate, hended, hrefusing⟩ | ⟨hstate, hended⟩
      · refine ⟨⟨fun hp ↦ absurd hp hrefusing, fun _ _ _ ↦ ?_⟩, fun hp ↦ absurd hp hended⟩
        show c'.isReadyToDie = false
        rw [isReadyToDie, hstate]
        exact hc
      · exact ⟨⟨fun hp ↦ absurd (hended.symm.trans hp) (by simp), fun _ _ hp ↦ absurd hended hp⟩,
          fun _ ↦ isReadyToDie_of_done hstate⟩
  | error e => exact Proceeds.handle_error h.1 h.2

/-! ## Going on after a receive -/

/-- A Python error of a send: it is not recoverable, and asks for no closing. -/
theorem GoesOn.of_encode_error {protocol : ProtocolType} {n : SequenceNumber}
    {ack : Option SequenceNumber} {isAck isSyn isFin : Bool} {port : UInt16} {data : Bytes} {e : Exn}
    (h : Protocol.encode protocol n ack isAck isSyn isFin port data = .error e) :
    GoesOn c (.error (e, c')) := by
  rcases Protocol.encode_error h with rfl | rfl
  · exact ⟨by decide, fun h ↦ by cases h⟩
  · exact ⟨by decide, fun h ↦ by cases h⟩

/-- A packet is handed over, and the code goes on. -/
theorem GoesOn.send {isAck isFin : Bool} {data : Bytes} {k : ClientConnection → Exec}
    (hk : ∀ raw, GoesOn c (k (handed cfg c' raw))) :
    GoesOn c ((ClientConnection.send cfg c' isAck isFin data).bind k) := by
  rw [ClientConnection.send_eq_encode]
  cases h : Protocol.encode cfg.protocolVersion c'.sequenceNumber c'.ackNumber isAck false isFin
      cfg.address.port data with
  | ok raw => exact hk raw
  | error e => exact GoesOn.of_encode_error h

/-- The next receive. -/
theorem GoesOn.block {p : Point} (hstate : c'.state = c.state) (hp : p ≠ .ended)
    (hp' : p ≠ .initiateCloseConnection) : GoesOn c (.ok (c'.block p now)) :=
  .inl ⟨hstate, hp, hp'⟩

theorem GoesOn.closing (h : c'.state = .unrecoverableBadState) :
    GoesOn c (raise c' .connectionClosingNeeded) :=
  ⟨by decide, fun _ ↦ h⟩

theorem onFilenameForUpload_goesOn (now : Time) (r : SequenceNumber × String) :
    GoesOn c (onFilenameForUpload cfg now c r) := by
  unfold onFilenameForUpload
  dsimp only
  split
  · exact GoesOn.send fun raw ↦ GoesOn.block rfl (by simp) (by simp)
  · rename_i e ho
    split
    · exact GoesOn.closing rfl
    · rename_i hne
      rcases FileHandler.openFileWriteMode_error ho with rfl | rfl
      · exact ⟨by decide, fun h ↦ by cases h⟩
      · exact absurd rfl hne

theorem onFilesize_goesOn (now : Time) (filename : String) (r : SequenceNumber × Nat) :
    GoesOn c (onFilesize cfg now filename c r) := by
  unfold onFilesize
  dsimp only
  split
  · refine GoesOn.send fun raw ↦ ?_
    simp only [startReception]
    split
    · exact GoesOn.block rfl (by simp) (by simp)
    · exact GoesOn.block rfl (by simp) (by simp)
  · exact GoesOn.closing rfl

@[simp] theorem state_appendToFile (cfg : Config) (c : ClientConnection) (packet : Packet) :
    (appendToFile cfg c packet).state = c.state := by
  unfold appendToFile
  split <;> rfl

@[simp] theorem state_appendTaken (cfg : Config) (c : ClientConnection) (taken : Option Packet) :
    (appendTaken cfg c taken).state = c.state := by
  cases taken with
  | none => rfl
  | some packet => exact state_appendToFile cfg c packet

@[simp] theorem state_closeWritten (c : ClientConnection) : c.closeWritten.state = c.state := by
  unfold closeWritten
  split <;> rfl

theorem closingHandshakeForUpload_goesOn (now : Time) (h : c'.state = c.state) :
    GoesOn c (closingHandshakeForUpload cfg now c') := by
  simp only [closingHandshakeForUpload, sendAck, sendFin, ClientConnection.send_eq_encode]
  cases hack : Protocol.encode cfg.protocolVersion (c'.report .connectionFinalizationReceived).sequenceNumber
      (c'.report .connectionFinalizationReceived).ackNumber true false false cfg.address.port [] with
  | error e => exact GoesOn.of_encode_error hack
  | ok raw =>
      simp only [bind, Except.bind]
      split
      · rename_i e heq
        split at heq
        · rename_i e' hfin
          obtain rfl := Except.error.inj heq
          exact GoesOn.of_encode_error hfin
        · cases heq
      · rename_i c₁ heq
        split at heq
        · cases heq
        · obtain rfl := Except.ok.inj heq
          exact GoesOn.block h (by simp) (by simp)

theorem onFileChunk_goesOn (now : Time) (r : SequenceNumber × Packet) :
    GoesOn c (onFileChunk cfg now c r) := by
  unfold onFileChunk
  dsimp only
  cases r.2.isFin with
  | true => exact closingHandshakeForUpload_goesOn now (by simp)
  | false => exact GoesOn.send fun raw ↦ GoesOn.block (by simp [stepSequence, handed]) (by simp) (by simp)

theorem GoesOn.sendReplies {receiver : GoBackNReceiver} {k : ClientConnection → Exec}
    (hk : ∀ c'', c''.state = c.state → GoesOn c (k c'')) (replies : List GoBackNReceiver.Reply)
    (h : c'.state = c.state) :
    GoesOn c ((replies.foldlM (sendReply cfg receiver) c' : Exec).bind k) := by
  induction replies generalizing c' with
  | nil => exact hk c' h
  | cons reply replies ih =>
      rw [List.foldlM_cons]
      cases reply with
      | resendLast => exact ih h
      | sendAck sequenceNumber ackNumber =>
          cases henc : Protocol.encode .goBackN sequenceNumber (some ackNumber) true false false
              cfg.address.port [] with
          | ok raw =>
              simp only [sendReply, henc, bind, Except.bind] at ih ⊢
              exact ih h
          | error e =>
              simp only [sendReply, henc, bind, Except.bind]
              exact GoesOn.of_encode_error henc

theorem onGbnPacket_goesOn (now : Time) (receiver : GoBackNReceiver) (packet : Packet) :
    GoesOn c (onGbnPacket cfg now receiver c packet) := by
  refine GoesOn.sendReplies (fun c' h ↦ ?_) _ rfl
  split
  · exact closingHandshakeForUpload_goesOn now (by simpa using h)
  · refine .inl ⟨by simpa using h, ?_, ?_⟩
    · simp [point_appendTaken]
    · simp [point_appendTaken]

theorem completeDownload_goesOn (c' : ClientConnection) : GoesOn c (completeDownload cfg c') :=
  GoesOn.send fun _ ↦ .inr ⟨rfl, rfl⟩

theorem closingHandshakeForDownload_goesOn (now : Time) (b : Bool) (h : c'.state = c.state) :
    GoesOn c (closingHandshakeForDownload cfg now b c') := by
  cases b with
  | true => exact completeDownload_goesOn c'
  | false => exact GoesOn.block h (by simp) (by simp)

theorem transmitFile_goesOn (now : Time) (total : Nat) (remaining : List Bytes) (n : Nat) (isFirst : Bool)
    (h : c'.state = c.state) : GoesOn c (transmitFile cfg now total remaining n isFirst c') := by
  induction remaining generalizing n isFirst c' with
  | nil => exact closingHandshakeForDownload_goesOn now false h
  | cons chunk remaining ih =>
      refine GoesOn.send fun raw ↦ ?_
      have hstate : (handed cfg (if isFirst then c' else c'.stepSequence) raw).state = c.state := by
        cases isFirst <;> exact h
      split
      · exact ih (n + 1) false hstate
      · exact GoesOn.block hstate (by simp) (by simp)

theorem sendFirstPacket_goesOn (now : Time) (file : File) (h : c'.state = c.state) :
    GoesOn c (sendFirstPacket cfg now file c') := by
  refine GoesOn.send fun raw ↦ ?_
  split
  · exact closingHandshakeForDownload_goesOn now false h
  · exact GoesOn.block h (by simp) (by simp)

theorem onFilenameForDownload_goesOn (now : Time) (r : SequenceNumber × String) :
    GoesOn c (onFilenameForDownload cfg now c r) := by
  unfold onFilenameForDownload
  dsimp only
  split
  · split
    · exact transmitFile_goesOn now _ _ 1 true rfl
    · exact sendFirstPacket_goesOn now _ rfl
  · rename_i e ho
    split
    · exact GoesOn.send fun raw ↦ GoesOn.closing rfl
    · rename_i hne
      rcases FileHandler.openFileReadMode_error ho with rfl | rfl
      · exact ⟨by decide, fun h ↦ by cases h⟩
      · exact absurd rfl hne

theorem onSender_goesOn (now : Time) {r : GoBackNSender.Result} (h : c'.state = c.state)
    (hr : ∀ e, r = .raised e → GoesOn c (.error (e, c'))) : GoesOn c (onSender cfg now c' r) := by
  cases r with
  | running s sent => exact .inl ⟨h, by simp, by simp⟩
  | returned s => exact closingHandshakeForDownload_goesOn now _ h
  | raised e => exact hr e rfl

theorem onFirstPacketAck_goesOn (now : Time) (hp : c.point = .waitForFirstPacketAck) :
    GoesOn c (onFirstPacketAck cfg now c) := by
  unfold onFirstPacketAck
  split
  · refine onSender_goesOn now rfl fun e he ↦ ?_
    exact absurd he (GoBackNSender.loop_ne_raised _ _ e)
  · exact .inl ⟨rfl, by simp [hp], by simp [hp]⟩

/-! ## One event -/

/-- An event brings the run to an end that is collected, unless it makes the run linger. -/
def Decides (cfg : Config) (c : ClientConnection) (ev : Event) (c' : ClientConnection) : Prop :=
  (¬Lingers cfg c ev → Proceeds c') ∧
    (Lingers cfg c ev → Stands c' ∧ c'.point = .ended ∧ c'.isReadyToDie = false)

/-- An exception that gets out of a receive of `run`. -/
theorem decides_of_escaping {e : Exn} (he : escaping cfg c ev = some e)
    (hne : e.cls ≠ .connectionClosingNeeded) (hp : c.point ≠ .closingHandshakeForUpload)
    (hp' : c.point ≠ .initiateCloseConnection) (hc : c.isReadyToDie = false)
    (hstate : c'.state = c.state) : Decides cfg c ev (handle cfg now (.error (e, c'))) := by
  by_cases hrec : e.cls ∈ recoverable
  · have hl : Lingers cfg c ev := ⟨hp, hp', e, he, hrec⟩
    refine ⟨fun h ↦ absurd hl h, fun _ ↦ ?_⟩
    simp only [handle, if_neg hne, if_pos hrec]
    refine ⟨⟨fun h ↦ (by cases h), fun _ _ h ↦ absurd rfl h⟩, rfl, ?_⟩
    rw [isReadyToDie, finish, hstate]
    exact hc
  · refine ⟨fun _ ↦ Proceeds.handle_error hrec fun h ↦ absurd h hne, ?_⟩
    rintro ⟨-, -, e', he', hrec'⟩
    obtain rfl := Option.some.inj (he.symm.trans he')
    exact absurd hrec' hrec

theorem decides_of_goesOn {x : Exec} (he : escaping cfg c ev = none) (hc : c.isReadyToDie = false)
    (h : GoesOn c x) : Decides cfg c ev (handle cfg now x) := by
  refine ⟨fun _ ↦ h.handle hc, ?_⟩
  rintro ⟨-, -, e, he', -⟩
  rw [he] at he'
  cases he'

/-- A wrapped receive of `run`. -/
theorem listen_decides {α : Type} {op : Operation α} {k : ClientConnection → α → Exec}
    (hesc : escaping cfg c ev = (reListenIfFailed op c.socket c.listening ev).exn)
    (hraises : ∀ {e}, op.Raises e → e.cls ∈ receiveRaises) (hp : c.point ≠ .closingHandshakeForUpload)
    (hp' : c.point ≠ .initiateCloseConnection) (hp'' : c.point ≠ .ended) (hc : c.isReadyToDie = false)
    (hk : ∀ a, GoesOn c (k c a)) :
    Decides cfg c ev (handle cfg now (listen c op ev (onSuccess k))) := by
  have hspec := reListens op c.socket c.listening ev
  unfold listen
  cases h : reListenIfFailed op c.socket c.listening ev with
  | listening r b =>
      rw [h] at hesc
      exact decides_of_goesOn hesc hc (.inl ⟨rfl, hp'', hp'⟩)
  | returned a =>
      rw [h] at hesc
      exact decides_of_goesOn hesc hc (hk a)
  | raised e b =>
      rw [h] at hesc hspec
      have he : op.Raises e := by
        cases hspec with
        | letThrough he => exact he.raises
        | exhausted he => exact he.raises
      exact decides_of_escaping hesc (receiveRaises_ne (hraises he)) hp hp' hc rfl

theorem receiver_decides {receiver : GoBackNReceiver} (hp : c.point = .receiveFileGbn receiver)
    (hc : c.isReadyToDie = false) (ev : Event) :
    Decides cfg c ev (handle cfg ev.now (listenReceiver cfg receiver c ev)) := by
  have hp' : c.point ≠ .closingHandshakeForUpload := by simp [hp]
  have hp'' : c.point ≠ .initiateCloseConnection := by simp [hp]
  unfold listenReceiver
  cases ev with
  | proceed now =>
      refine decides_of_goesOn ?_ hc (.inl ⟨rfl, by simp [hp], hp''⟩)
      simp only [escaping, listened, hp]
      rfl
  | timeout now | osError now =>
      refine decides_of_escaping ?_ (by decide) hp' hp'' hc rfl
      simp only [escaping, listened, hp]
      rfl
  | datagram raw source now =>
      dsimp only [SocketGbn.recvfrom, ServerProtocolGbn.receiveFileChunk,
        ServerProtocolGbn.validateInboundPacket]
      cases hin : Protocol.validateInboundPacket .missingClientAddress (raw.take fullBufferSize) source with
      | error e =>
          refine decides_of_escaping ?_ (receiveRaises_ne (validateInboundPacket_error hin)) hp' hp'' hc rfl
          simp only [escaping, listened, hp, SocketGbn.recvfrom, ServerProtocolGbn.receiveFileChunk,
            ServerProtocolGbn.validateInboundPacket, hin]
          rfl
      | ok received =>
          refine decides_of_goesOn ?_ hc (onGbnPacket_goesOn now receiver received.1)
          simp only [escaping, listened, hp, SocketGbn.recvfrom, ServerProtocolGbn.receiveFileChunk,
            ServerProtocolGbn.validateInboundPacket, hin]
          rfl

theorem received_error {n : Nat} {k : SequenceNumber} {received : Except Exn (Bytes × Option Address)}
    {e : Exn} (hr : SocketGbn.recvfrom n ev = some received)
    (h : received.bind (fun r ↦ ServerProtocolGbn.waitForAck k r.1 r.2) = .error e) :
    e.cls ≠ .connectionClosingNeeded := by
  cases received with
  | ok r =>
      have he := ServerProtocolGbn.waitForAck_error h
      intro hcls
      rw [hcls] at he
      revert he
      decide
  | error e' =>
      obtain rfl := Except.error.inj h
      cases ev with
      | datagram | proceed => cases hr
      | timeout | osError =>
          obtain rfl := Except.error.inj (Option.some.inj hr)
          decide

theorem sender_decides {sender : GoBackNSender} (hp : c.point = .sendFileGbn sender)
    (hc : c.isReadyToDie = false) (ev : Event) :
    Decides cfg c ev (handle cfg ev.now (listenSender cfg sender c ev)) := by
  have hp' : c.point ≠ .closingHandshakeForUpload := by simp [hp]
  have hp'' : c.point ≠ .initiateCloseConnection := by simp [hp]
  have idle : GoesOn c (.ok c) := .inl ⟨rfl, by simp [hp], hp''⟩
  have proceeds : ∀ now, GoesOn c (onSender cfg now c (sender.proceed cfg.address.port now)) := by
    intro now
    refine onSender_goesOn now rfl fun e he ↦ ?_
    rcases GoBackNSender.proceed_raised he with rfl | rfl
    · exact ⟨by decide, fun h ↦ by cases h⟩
    · exact ⟨by decide, fun h ↦ by cases h⟩
  unfold listenSender
  cases hs : sender.point with
  | waitForAck startTime =>
      dsimp only
      cases hr : SocketGbn.recvfrom commsBufferSize ev with
      | none => exact decides_of_goesOn (by simp only [escaping, hp, hs, hr]) hc idle
      | some received =>
          dsimp only
          generalize hreceived : (received.bind fun r ↦
            ServerProtocolGbn.waitForAck sender.ackNumber r.1 r.2) = outcome
          cases hres : sender.awaitAckPhaseServer outcome (ev.now - startTime) with
          | raised e =>
              refine decides_of_escaping ?_ ?_ hp' hp'' hc rfl
              · simp only [escaping, hp, hs, hr, hreceived, hres]
              · rcases GoBackNSender.awaitAckPhaseServer_raised hres with h | rfl | rfl
                · exact received_error hr (hreceived.trans h)
                · decide
                · decide
          | running s sent =>
              refine decides_of_goesOn ?_ hc (onSender_goesOn ev.now rfl fun e he ↦ by cases he)
              simp only [escaping, hp, hs, hr, hreceived, hres]
          | returned s =>
              refine decides_of_goesOn ?_ hc (onSender_goesOn ev.now rfl fun e he ↦ by cases he)
              simp only [escaping, hp, hs, hr, hreceived, hres]
  | sendPacketsInWindow packet =>
      refine decides_of_goesOn (by simp only [escaping, hp, hs]) hc ?_
      cases ev with
      | proceed now => exact proceeds now
      | datagram | timeout | osError => exact idle
  | awaitAckPhase =>
      refine decides_of_goesOn (by simp only [escaping, hp, hs]) hc ?_
      cases ev with
      | proceed now => exact proceeds now
      | datagram | timeout | osError => exact idle

theorem closing_decides (hp : c.point = .closingHandshakeForUpload) (ev : Event) :
    Decides cfg c ev (handle cfg ev.now (listen c
      ((waitForAck c.sequenceNumber).letThrough [.connectionLost]) ev (onClosingUpload cfg))) := by
  refine ⟨fun _ ↦ ?_, fun h ↦ absurd hp h.1⟩
  have done : ∀ c' : ClientConnection, c'.state = .doneReadyToDie → Proceeds c'.finish := fun c' h ↦
    ⟨⟨fun hp ↦ (by cases hp), fun _ _ hp ↦ absurd rfl hp⟩, fun _ ↦ isReadyToDie_of_done h⟩
  have hspec := reListens ((waitForAck c.sequenceNumber).letThrough [.connectionLost]) c.socket
    c.listening ev
  unfold listen
  cases h : reListenIfFailed ((waitForAck c.sequenceNumber).letThrough [.connectionLost]) c.socket
      c.listening ev with
  | listening r b =>
      exact ⟨⟨fun hp' ↦ absurd (hp.symm.trans hp') (by simp), fun _ hp' ↦ absurd hp hp'⟩,
        fun hp' ↦ absurd (hp.symm.trans hp') (by simp)⟩
  | returned a => exact done _ rfl
  | raised e b =>
      rw [h] at hspec
      have he : e.cls ∈ receiveRaises := by
        cases hspec with
        | letThrough he => exact waitForAck_raises he.raises
        | exhausted he => exact waitForAck_raises he.raises
      simp only [onClosingUpload]
      split
      · exact done _ rfl
      · simp only [handle, if_neg (receiveRaises_ne he)]
        split
        · exact done _ rfl
        · refine ⟨⟨fun hp ↦ (by cases hp), fun _ _ hp ↦ absurd rfl hp⟩, fun _ ↦ isReadyToDie_of_bad ?_⟩
          exact state_fileCleanupAfterError cfg _

theorem refusing_decides (hp : c.point = .initiateCloseConnection)
    (hstate : c.state = .unrecoverableBadState) (ev : Event) :
    Decides cfg c ev (swallow (listen c (waitForFinOrAck c.sequenceNumber) ev
      (onSuccess (onFinOrAck cfg)))) := by
  refine ⟨fun _ ↦ ?_, fun h ↦ absurd hp h.2.1⟩
  have bad : ∀ c' : ClientConnection, c'.state = .unrecoverableBadState → Proceeds c'.finish := fun c' h ↦
    ⟨⟨fun hp ↦ (by cases hp), fun _ _ hp ↦ absurd rfl hp⟩, fun _ ↦ isReadyToDie_of_bad h⟩
  unfold listen
  cases reListenIfFailed (waitForFinOrAck c.sequenceNumber) c.socket c.listening ev with
  | listening r b =>
      exact ⟨⟨fun _ ↦ hstate, fun hp' ↦ absurd hp hp'⟩, fun hp' ↦ absurd (hp.symm.trans hp') (by simp)⟩
  | returned a =>
      simp only [onSuccess, onFinOrAck, sendAck, ClientConnection.send_eq_encode]
      cases Protocol.encode cfg.protocolVersion c.stepSequence.stepAck.sequenceNumber
          c.stepSequence.stepAck.ackNumber true false false cfg.address.port [] with
      | error e => exact bad _ hstate
      | ok raw => exact bad _ hstate
  | raised e b => exact bad _ hstate

theorem step_decides (h : Stands c) (hended : c.point ≠ .ended) (ev : Event) :
    Decides cfg c ev (step cfg c ev) := by
  have wait : ∀ {α : Type} {op : Operation α} {k : ClientConnection → α → Exec},
      step cfg c ev = handle cfg ev.now (listen { c with outbox := [] } op ev (onSuccess k)) →
      escaping cfg c ev = (reListenIfFailed op c.socket c.listening ev).exn →
      (∀ {e}, op.Raises e → e.cls ∈ receiveRaises) → c.point ≠ .closingHandshakeForUpload →
      c.point ≠ .initiateCloseConnection →
      (∀ a, GoesOn { c with outbox := [] } (k { c with outbox := [] } a)) →
      Decides cfg c ev (step cfg c ev) := by
    intro α op k hstep hesc hraises hp hp' hk
    rw [hstep]
    exact listen_decides (c := { c with outbox := [] }) hesc hraises hp hp' hended
      (h.working hp' hp hended) hk
  have escapes : ∀ {α : Type} {op : Operation α}, (∀ s, c.point ≠ .sendFileGbn s) →
      (c.listened cfg ev).exn = (reListenIfFailed op c.socket c.listening ev).exn →
      escaping cfg c ev = (reListenIfFailed op c.socket c.listening ev).exn := by
    intro α op hp hl
    unfold escaping
    split
    · rename_i s hs
      exact absurd hs (hp s)
    · exact hl
  have notSender : ∀ {p : Point}, c.point = p → (∀ s, p ≠ .sendFileGbn s) →
      ∀ s, c.point ≠ .sendFileGbn s := fun h hp s hs ↦ hp s (h ▸ hs)
  cases hp : c.point with
  | ended => exact absurd hp hended
  | initiateCloseConnection =>
      have hstep : step cfg c ev = swallow (listen { c with outbox := [] }
          (waitForFinOrAck c.sequenceNumber) ev (onSuccess (onFinOrAck cfg))) := by
        simp only [step, hp, onEvent]
      rw [hstep]
      exact refusing_decides (c := { c with outbox := [] }) hp (h.refusing hp) ev
  | closingHandshakeForUpload =>
      have hstep : step cfg c ev = handle cfg ev.now (listen { c with outbox := [] }
          ((waitForAck c.sequenceNumber).letThrough [.connectionLost]) ev (onClosingUpload cfg)) := by
        simp only [step, hp, onEvent]
      rw [hstep]
      exact closing_decides (c := { c with outbox := [] }) hp ev
  | receiveFileGbn receiver =>
      have hstep : step cfg c ev =
          handle cfg ev.now (listenReceiver cfg receiver { c with outbox := [] } ev) := by
        simp only [step, hp, onEvent]
      rw [hstep]
      exact receiver_decides (c := { c with outbox := [] }) hp
        (h.working (by simp [hp]) (by simp [hp]) hended) ev
  | sendFileGbn sender =>
      have hstep : step cfg c ev =
          handle cfg ev.now (listenSender cfg sender { c with outbox := [] } ev) := by
        simp only [step, hp, onEvent]
      rw [hstep]
      exact sender_decides (c := { c with outbox := [] }) hp
        (h.working (by simp [hp]) (by simp [hp]) hended) ev
  | receiveFilenameForUpload =>
      refine wait (by simp only [step, hp, onEvent]; rfl) (escapes (notSender hp (by simp)) ?_)
        receiveFilename_raises (by simp [hp]) (by simp [hp]) fun r ↦ onFilenameForUpload_goesOn ev.now r
      simp only [listened, hp, Listened.exn_void]
  | receiveFilesize filename =>
      refine wait (by simp only [step, hp, onEvent]; rfl) (escapes (notSender hp (by simp)) ?_)
        receiveFilesize_raises (by simp [hp]) (by simp [hp]) fun r ↦ onFilesize_goesOn ev.now filename r
      simp only [listened, hp, Listened.exn_void]
  | receiveFileChunk =>
      refine wait (by simp only [step, hp, onEvent]; rfl) (escapes (notSender hp (by simp)) ?_)
        receiveFileChunk_raises (by simp [hp]) (by simp [hp]) fun r ↦ onFileChunk_goesOn ev.now r
      simp only [listened, hp, Listened.exn_void]
  | receiveFilenameForDownload =>
      refine wait (by simp only [step, hp, onEvent]; rfl) (escapes (notSender hp (by simp)) ?_)
        receiveFilename_raises (by simp [hp]) (by simp [hp]) fun r ↦ onFilenameForDownload_goesOn ev.now r
      simp only [listened, hp, Listened.exn_void]
  | waitForChunkAck remaining chunkNumber totalChunks =>
      refine wait (by simp only [step, hp, onEvent]; rfl) (escapes (notSender hp (by simp)) ?_)
        (fun h ↦ waitForAck_raises (show ((waitForAck _).letThrough []).Raises _ from h)) (by simp [hp])
        (by simp [hp]) fun _ ↦ transmitFile_goesOn ev.now totalChunks remaining chunkNumber false rfl
      simp only [listened, hp]
      rfl
  | waitForFirstPacketAck =>
      refine wait (by simp only [step, hp, onEvent]; rfl) (escapes (notSender hp (by simp)) ?_)
        (fun h ↦ waitForAck_raises (show ((waitForAck _).letThrough []).Raises _ from h)) (by simp [hp])
        (by simp [hp]) fun _ ↦ onFirstPacketAck_goesOn (c := { c with outbox := [] }) ev.now hp
      simp only [listened, hp]
      rfl
  | closingHandshakeForDownload =>
      refine wait (by simp only [step, hp, onEvent]; rfl) (escapes (notSender hp (by simp)) ?_)
        waitForFinOrAck_raises (by simp [hp]) (by simp [hp]) fun _ ↦ completeDownload_goesOn _
      simp only [listened, hp]

theorem proceeds_decides (h : Proceeds c) (ev : Event) : Decides cfg c ev (step cfg c ev) := by
  by_cases hended : c.point = .ended
  · rw [step_ended hended]
    refine ⟨fun _ ↦ ⟨⟨h.stands.refusing, h.stands.working⟩, h.ready⟩, ?_⟩
    rintro ⟨-, -, e, he, -⟩
    simp [escaping, listened, hended, Listened.exn] at he
  · exact step_decides h.stands hended ev

/-! ## Whole runs -/

/-- The first packet of a connection that is collected once it has ended -/
theorem proceeds_operation (now : Time)
    (hop : ∃ opCode, ServerProtocol.processOperationIntention cfg.initialPacket = .ok opCode) :
    Proceeds (handle cfg now (processOperationIntention cfg now c)) := by
  obtain ⟨opCode, hop⟩ := hop
  have answered : ∀ (state : ConnectionState) (k : ClientConnection → Exec),
      isReadyToDie { c with state := state } = false →
      (∀ raw, GoesOn { c with state } (k (handed cfg { c with state } raw))) →
      Proceeds (handle cfg now ((sendAck cfg { c with state }).bind k)) :=
    fun state k hready hk ↦ (GoesOn.send hk).handle hready
  unfold processOperationIntention
  rw [hop]
  dsimp only
  split
  · exact answered _ _ rfl fun raw ↦ GoesOn.block rfl (by simp) (by simp)
  · exact answered _ _ rfl fun raw ↦ GoesOn.block rfl (by simp) (by simp)

theorem start_proceeds (h : NamesOperation cfg) (disk : Disk) (now : Time) :
    Proceeds (start cfg disk now) := by
  unfold start
  dsimp only
  split
  · exact proceeds_operation now h.2
  · rename_i hproto
    split
    · rename_i hnone
      exact absurd hnone (h.1 hproto)
    · exact proceeds_operation now h.2

/-- The thread has ended in a state that is not collected. -/
def Lost (c : ClientConnection) : Prop := c.point = .ended ∧ c.isReadyToDie = false

theorem lost_operation (now : Time) (h : c.state = .handshakeFinished)
    (hop : ¬∃ opCode, ServerProtocol.processOperationIntention cfg.initialPacket = .ok opCode) :
    Lost (handle cfg now (processOperationIntention cfg now c)) := by
  unfold processOperationIntention
  split
  · rename_i e he
    have hcls : e = ExnClass.unexpectedOperation.exn := by
      unfold ServerProtocol.processOperationIntention at he
      dsimp only at he
      split at he
      · exact (Except.error.inj he).symm
      · cases he
    subst hcls
    refine ⟨rfl, ?_⟩
    show isReadyToDie c.finish = false
    rw [isReadyToDie, finish, h]
    rfl
  · rename_i opCode hok
    exact absurd ⟨opCode, hok⟩ hop

theorem start_lost (h : ¬NamesOperation cfg) (disk : Disk) (now : Time) :
    Lost (start cfg disk now) := by
  unfold start
  dsimp only
  split
  · rename_i hproto
    refine lost_operation now rfl fun hop ↦ h ⟨fun hg ↦ ?_, hop⟩
    cases hproto.symm.trans hg
  · split
    · exact ⟨rfl, rfl⟩
    · rename_i n hn
      exact lost_operation now rfl fun hop ↦ h ⟨fun _ ↦ by simp [hn], hop⟩

theorem Lost.run (h : Lost c) (cfg : Config) (es : List Event) : Lost (es.foldl (step cfg) c) := by
  induction es generalizing c with
  | nil => exact h
  | cons ev es ih =>
      refine ih ?_
      rw [step_ended h.1]
      exact h

/-- `is_ready_to_die()` is true, and the next `rip_finished_clients` takes the connection out of any
pool it is in. -/
def Collected (connection : Connection) : Prop :=
  connection.isReadyToDie = true ∧
    ∀ p : ClientPool, p.Keyed → ∃ p', Accepter.ripFinishedClients p = .ok p' ∧
      ∀ key, (key, connection) ∉ p'

theorem collected_iff {connection : Connection} :
    Collected connection ↔ connection.isReadyToDie = true := by
  refine ⟨And.left, fun h ↦ ⟨h, fun p hp ↦ ⟨_, hp.ripFinishedClients, fun key hmem ↦ ?_⟩⟩⟩
  simpa [h] using List.of_mem_filter hmem

namespace Local

/-- The first packet carries the code 3. -/
def unnamed : Config := { upload with initialPacket := getPacketFromBytes (saw 48 [0, 3]) }

end Local

end Rdt.Server.ClientConnection
