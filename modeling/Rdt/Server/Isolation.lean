import Rdt.Server.Storage

/-!
# A connection looks at the storage once

Between two receives a thread may write to the storage, but what it does next depends on the
storage only when it opens its file.
-/

namespace Rdt.Server.ClientConnection

open PacketParser ServerProtocol

/-- The thread finds another storage. -/
def withDisk (c : ClientConnection) (d : Disk) : ClientConnection := { c with disk := d }

@[simp] theorem withDisk_disk (c : ClientConnection) : c.withDisk c.disk = c := rfl

@[simp] theorem withDisk_withDisk (c : ClientConnection) (d d' : Disk) :
    (c.withDisk d).withDisk d' = c.withDisk d' := rfl

@[simp] theorem disk_withDisk (c : ClientConnection) (d : Disk) : (c.withDisk d).disk = d := rfl

@[simp] theorem point_withDisk (c : ClientConnection) (d : Disk) :
    (c.withDisk d).point = c.point := rfl

@[simp] theorem sequenceNumber_withDisk (c : ClientConnection) (d : Disk) :
    (c.withDisk d).sequenceNumber = c.sequenceNumber := rfl

def leftOn (d : Disk) : Exec → Exec
  | .ok c => .ok (c.withDisk d)
  | .error (e, c) => .error (e, c.withDisk d)

/-- The storage a stretch of code finds is handed on, changed or not, and has no influence on
anything else. -/
def Blind (x : Disk → Exec) : Prop := ∃ (y : Exec) (g : Disk → Disk), ∀ d, x d = leftOn (g d) y

/-- The same of code that catches its exceptions -/
def Oblivious (x : Disk → ClientConnection) : Prop :=
  ∃ (c : ClientConnection) (g : Disk → Disk), ∀ d, x d = c.withDisk (g d)

variable {cfg : Config} {c : ClientConnection} {ev : Event} {now : Time} {x : Disk → Exec}

theorem blind_ok (c : ClientConnection) : Blind fun d ↦ .ok (c.withDisk d) :=
  ⟨.ok c, id, fun _ ↦ rfl⟩

theorem blind_error (e : Exn) (c : ClientConnection) : Blind fun d ↦ .error (e, c.withDisk d) :=
  ⟨.error (e, c), id, fun _ ↦ rfl⟩

theorem Blind.bind (hx : Blind x) {k : ClientConnection → Exec}
    (hk : ∀ c : ClientConnection, Blind fun d ↦ k (c.withDisk d)) : Blind fun d ↦ x d >>= k := by
  obtain ⟨y, g, hy⟩ := hx
  cases y with
  | ok c =>
      obtain ⟨z, f, hz⟩ := hk c
      refine ⟨z, f ∘ g, fun d ↦ ?_⟩
      dsimp only
      rw [hy d]
      exact hz (g d)
  | error e =>
      refine ⟨.error e, g, fun d ↦ ?_⟩
      dsimp only
      rw [hy d]
      rfl

theorem Oblivious.blind {f : Disk → ClientConnection} (hf : Oblivious f) {k : ClientConnection → Exec}
    (hk : ∀ c : ClientConnection, Blind fun d ↦ k (c.withDisk d)) : Blind fun d ↦ k (f d) := by
  obtain ⟨c, g, hc⟩ := hf
  obtain ⟨y, g', hy⟩ := hk c
  refine ⟨y, g' ∘ g, fun d ↦ ?_⟩
  dsimp only
  rw [hc d]
  exact hy (g d)

theorem Oblivious.ok {f : Disk → ClientConnection} (hf : Oblivious f) : Blind fun d ↦ .ok (f d) :=
  hf.blind blind_ok

theorem oblivious_withDisk (c : ClientConnection) : Oblivious fun d ↦ c.withDisk d :=
  ⟨c, id, fun _ ↦ rfl⟩

/-! ## What the functions of a connection make of the storage -/

theorem blind_send (cfg : Config) (c : ClientConnection) (isAck isFin : Bool) (data : Bytes) :
    Blind fun d ↦ send cfg (c.withDisk d) isAck isFin data := by
  refine ⟨send cfg c isAck isFin data, id, fun d ↦ ?_⟩
  simp only [send_eq_encode, withDisk]
  cases Protocol.encode cfg.protocolVersion c.sequenceNumber c.ackNumber isAck false isFin
      cfg.address.port data with
  | error e => rfl
  | ok raw => rfl

theorem Blind.finallyDone (hx : Blind x) : Blind fun d ↦ finallyDone (x d) := by
  obtain ⟨y, g, hy⟩ := hx
  refine ⟨ClientConnection.finallyDone y, g, fun d ↦ ?_⟩
  dsimp only
  rw [hy d]
  cases y <;> rfl

theorem oblivious_appendToFile (cfg : Config) (c : ClientConnection) (packet : Packet) :
    Oblivious fun d ↦ appendToFile cfg (c.withDisk d) packet := by
  unfold appendToFile
  cases hf : c.file with
  | some file =>
      refine ⟨{ c with file := some (FileHandler.appendToFile file packet) },
        fun d ↦ cfg.fileHandler.flush d (FileHandler.appendToFile file packet), fun d ↦ ?_⟩
      simp only [withDisk, hf]
  | none => exact ⟨c, id, fun d ↦ by simp only [withDisk, hf]; rfl⟩

theorem oblivious_appendTaken (cfg : Config) (c : ClientConnection) (taken : Option Packet) :
    Oblivious fun d ↦ appendTaken cfg (c.withDisk d) taken := by
  cases taken with
  | none => exact oblivious_withDisk c
  | some packet => exact oblivious_appendToFile cfg c packet

theorem oblivious_closeWritten (c : ClientConnection) : Oblivious fun d ↦ (c.withDisk d).closeWritten := by
  unfold closeWritten
  cases hf : c.file with
  | some file =>
      refine ⟨{ c with file := some (FileHandler.close file) },
        fun d ↦ FileHandler.closeOnDisk d file, fun d ↦ ?_⟩
      simp only [withDisk, hf]
  | none => exact ⟨c, id, fun d ↦ by simp only [withDisk, hf]; rfl⟩

theorem blind_closingHandshakeForUpload (cfg : Config) (now : Time) (c : ClientConnection) :
    Blind fun d ↦ closingHandshakeForUpload cfg now (c.withDisk d) := by
  unfold closingHandshakeForUpload
  refine Blind.finallyDone (Blind.bind (blind_send cfg (c.report .connectionFinalizationReceived)
    true false []) fun c₁ ↦ ?_)
  exact Blind.bind (blind_send cfg c₁ false true []) fun c₂ ↦
    blind_ok (c₂.stepSequence.block .closingHandshakeForUpload now)

theorem blind_closing (cfg : Config) (now : Time) (c : ClientConnection) :
    Blind fun d ↦ closingHandshakeForUpload cfg now (c.withDisk d).closeWritten :=
  (oblivious_closeWritten c).blind (blind_closingHandshakeForUpload cfg now)

theorem blind_onFileChunk (cfg : Config) (now : Time) (c : ClientConnection)
    (r : SequenceNumber × Packet) : Blind fun d ↦ onFileChunk cfg now (c.withDisk d) r := by
  unfold onFileChunk
  dsimp only
  cases r.2.isFin with
  | true =>
      exact (oblivious_appendToFile cfg { c with sequenceNumber := r.1 } r.2).blind
        (k := fun c ↦ closingHandshakeForUpload cfg now c.closeWritten) (blind_closing cfg now)
  | false =>
      refine Blind.bind (blind_send cfg { c with sequenceNumber := r.1 } true false []) fun c₁ ↦ ?_
      exact (oblivious_appendToFile cfg c₁ r.2).blind
        (k := fun c ↦ .ok (c.stepSequence.block .receiveFileChunk now))
        fun c₂ ↦ blind_ok (c₂.stepSequence.block .receiveFileChunk now)

theorem blind_sendReply (cfg : Config) (receiver : GoBackNReceiver) (c : ClientConnection)
    (reply : GoBackNReceiver.Reply) : Blind fun d ↦ sendReply cfg receiver (c.withDisk d) reply := by
  unfold sendReply
  split
  · split
    · rename_i e _
      exact blind_error e c
    · rename_i raw _
      exact blind_ok { c with outbox := c.outbox ++ [(raw, cfg.clientAddress)] }
  · exact blind_ok { c with outbox := c.outbox ++
      (receiver.lastTransmittedPacket.map fun raw ↦ (raw, cfg.clientAddress)).toList }

theorem blind_sendReplies (cfg : Config) (receiver : GoBackNReceiver)
    (replies : List GoBackNReceiver.Reply) (c : ClientConnection) :
    Blind fun d ↦ replies.foldlM (sendReply cfg receiver) (c.withDisk d) := by
  induction replies generalizing c with
  | nil => exact blind_ok c
  | cons reply replies ih =>
      simp only [List.foldlM_cons]
      exact Blind.bind (blind_sendReply cfg receiver c reply) ih

theorem blind_onGbnPacket (cfg : Config) (now : Time) (receiver : GoBackNReceiver)
    (c : ClientConnection) (packet : Packet) :
    Blind fun d ↦ onGbnPacket cfg now receiver (c.withDisk d) packet := by
  unfold onGbnPacket
  dsimp only
  refine Blind.bind (blind_sendReplies cfg receiver _ c) fun c₁ ↦ ?_
  have appended := oblivious_appendTaken cfg
    { c₁ with
      sequenceNumber := (receiver.onPacket packet).receiver.sqnNumber
      ackNumber := some (receiver.onPacket packet).receiver.ackNumber
      point := .receiveFileGbn (receiver.onPacket packet).receiver }
    (receiver.onPacket packet).appended
  cases (receiver.onPacket packet).finished with
  | true =>
      exact appended.blind (k := fun c ↦ closingHandshakeForUpload cfg now c.closeWritten)
        (blind_closing cfg now)
  | false => exact appended.ok

/-- The receiver's own receive -/
theorem blind_listenReceiver (cfg : Config) (receiver : GoBackNReceiver) (c : ClientConnection)
    (ev : Event) : Blind fun d ↦ listenReceiver cfg receiver (c.withDisk d) ev := by
  unfold listenReceiver
  split
  · exact blind_ok c
  · rename_i e _
    split
    · exact blind_error ExnClass.connectionLost.exn c
    · exact blind_error e c
  · split
    · rename_i e _
      exact blind_error e c
    · exact blind_onGbnPacket cfg ev.now receiver c _

theorem blind_completeDownload (cfg : Config) (c : ClientConnection) :
    Blind fun d ↦ completeDownload cfg (c.withDisk d) :=
  Blind.bind (blind_send cfg (c.report .fileTransferComplete).stepSequence true false []) fun c₁ ↦
    blind_ok (report { c₁ with state := .doneReadyToDie } .downloadCompleted).finish

theorem blind_closingHandshakeForDownload (cfg : Config) (now : Time) (b : Bool)
    (c : ClientConnection) : Blind fun d ↦ closingHandshakeForDownload cfg now b (c.withDisk d) := by
  cases b with
  | true => exact blind_completeDownload cfg c
  | false => exact blind_ok (c.block .closingHandshakeForDownload now)

theorem blind_transmitFile (cfg : Config) (now : Time) (totalChunks : Nat) (chunks : List Bytes)
    (chunkNumber : Nat) (isFirstChunk : Bool) (c : ClientConnection) :
    Blind fun d ↦ transmitFile cfg now totalChunks chunks chunkNumber isFirstChunk (c.withDisk d) := by
  induction chunks generalizing chunkNumber isFirstChunk c with
  | nil => exact blind_closingHandshakeForDownload cfg now false c
  | cons chunk chunks ih =>
      simp only [transmitFile]
      have sent : Blind fun d ↦ sendFileChunk cfg
          (if isFirstChunk then c.withDisk d else (c.withDisk d).stepSequence) chunk
          (chunkNumber = totalChunks) isFirstChunk := by
        cases isFirstChunk with
        | true => exact blind_send cfg c true _ chunk
        | false => exact blind_send cfg c.stepSequence false _ chunk
      refine sent.bind fun c₁ ↦ ?_
      split
      · exact ih (chunkNumber + 1) false c₁
      · exact blind_ok (c₁.block (.waitForChunkAck chunks (chunkNumber + 1) totalChunks) now)

theorem blind_onSender (cfg : Config) (now : Time) (c : ClientConnection) (r : GoBackNSender.Result) :
    Blind fun d ↦ onSender cfg now (c.withDisk d) r := by
  cases r with
  | running s sent =>
      exact blind_ok { c with
        point := .sendFileGbn s
        outbox := c.outbox ++ (sent.map fun raw ↦ (raw, cfg.clientAddress)).toList }
  | returned s =>
      exact blind_closingHandshakeForDownload cfg now s.alreadyReceivedFinBack
        { c with
          sequenceNumber := s.returnedSequenceNumber
          ackNumber := some s.ackNumber
          file := c.file.map FileHandler.close
          socket := c.socket.saveState s.lastRawPacket cfg.clientAddress }
  | raised e => exact blind_error e c

theorem blind_onFirstPacketAck (cfg : Config) (now : Time) (c : ClientConnection) :
    Blind fun d ↦ onFirstPacketAck cfg now (c.withDisk d) := by
  obtain ⟨socket, state, file, disk, sequenceNumber, ackNumber, name, size, listening, point, outbox,
    reports⟩ := c
  cases file with
  | none => exact blind_ok ⟨socket, state, none, disk, sequenceNumber, ackNumber, name, size, listening,
      point, outbox, reports⟩
  | some file =>
      cases ackNumber with
      | none => exact blind_ok ⟨socket, state, some file, disk, sequenceNumber, none, name, size,
          listening, point, outbox, reports⟩
      | some ackNumber =>
          let r := GoBackNSender.splitFileInChunksServer file file.content.length
          let sender := GoBackNSender.initServer sequenceNumber ackNumber r.1
          exact blind_onSender cfg now ⟨socket.resetState, state, some r.2, disk, sequenceNumber,
            some sender.ackNumber, name, size, listening, point, outbox, reports⟩ (sender.loop false)

theorem blind_listenSender (cfg : Config) (sender : GoBackNSender) (c : ClientConnection) (ev : Event) :
    Blind fun d ↦ listenSender cfg sender (c.withDisk d) ev := by
  unfold listenSender
  split
  · split
    · exact blind_ok c
    · exact blind_onSender cfg ev.now c _
  · split
    · exact blind_onSender cfg _ c _
    · exact blind_ok c

/-! ## Steps -/

theorem Oblivious.of_blind {k : Exec → ClientConnection} (hx : Blind x)
    (hk : ∀ y : Exec, Oblivious fun d ↦ k (leftOn d y)) : Oblivious fun d ↦ k (x d) := by
  obtain ⟨y, g, hy⟩ := hx
  obtain ⟨c, f, hc⟩ := hk y
  refine ⟨c, f ∘ g, fun d ↦ ?_⟩
  dsimp only
  rw [hy d]
  exact hc (g d)

theorem oblivious_swallow (y : Exec) : Oblivious fun d ↦ swallow (leftOn d y) := by
  cases y with
  | ok c => exact oblivious_withDisk c
  | error e => exact oblivious_withDisk e.2.finish

theorem oblivious_handle (cfg : Config) (now : Time) (y : Exec) :
    Oblivious fun d ↦ handle cfg now (leftOn d y) := by
  cases y with
  | ok c => exact oblivious_withDisk c
  | error e =>
      obtain ⟨e, c⟩ := e
      dsimp only [leftOn, handle]
      split
      · have sent : Blind fun d ↦ sendFin cfg (c.withDisk d).stepSequence.stepAck >>= fun c ↦
            pure (c.block .initiateCloseConnection now) :=
          Blind.bind (blind_send cfg c.stepSequence.stepAck false true []) fun c₁ ↦
            blind_ok (c₁.block .initiateCloseConnection now)
        exact Oblivious.of_blind sent oblivious_swallow
      · split
        · exact oblivious_withDisk c.finish
        · unfold fileCleanupAfterError
          obtain ⟨socket, state, file, disk, sequenceNumber, ackNumber, name, size, listening, point,
            outbox, reports⟩ := c
          cases name with
          | none => exact oblivious_withDisk ⟨socket, .unrecoverableBadState, file, disk,
              sequenceNumber, ackNumber, none, size, listening, .ended, outbox, reports⟩
          | some name =>
              exact ⟨⟨socket, .unrecoverableBadState, file, disk, sequenceNumber, ackNumber, some name,
                size, listening, .ended, outbox, reports⟩, fun d ↦
                cfg.fileHandler.removeFileIfCorruptedOrIncomplete d name size false, fun _ ↦ rfl⟩

/-- The thread waits for the name of the file it is going to open. -/
def Looks (c : ClientConnection) : Prop :=
  c.point = .receiveFilenameForUpload ∨ c.point = .receiveFilenameForDownload

instance (c : ClientConnection) : Decidable c.Looks := inferInstanceAs (Decidable (_ ∨ _))

theorem blind_listen {α : Type} (c : ClientConnection) (op : Operation α) (ev : Event)
    {k : ClientConnection → Except Exn α → Exec}
    (hk : ∀ (c : ClientConnection) (r : Except Exn α), Blind fun d ↦ k (c.withDisk d) r) :
    Blind fun d ↦ ClientConnection.listen (c.withDisk d) op ev k := by
  unfold ClientConnection.listen
  dsimp only [withDisk]
  cases reListenIfFailed op c.socket c.listening ev with
  | listening r b => exact blind_ok { c.retransmit b with listening := r }
  | returned a => exact hk c (.ok a)
  | raised e b => exact hk (c.retransmit b) (.error e)

theorem blind_onSuccess {α : Type} {k : ClientConnection → α → Exec}
    (hk : ∀ (c : ClientConnection) (a : α), Blind fun d ↦ k (c.withDisk d) a) (c : ClientConnection)
    (r : Except Exn α) : Blind fun d ↦ onSuccess k (c.withDisk d) r := by
  cases r with
  | ok a => exact hk c a
  | error e => exact blind_error e c

theorem blind_onFilesize (cfg : Config) (now : Time) (filename : String) (c : ClientConnection)
    (r : SequenceNumber × Nat) : Blind fun d ↦ onFilesize cfg now filename (c.withDisk d) r := by
  unfold onFilesize
  dsimp only
  split
  · refine Blind.bind (blind_send cfg { c with sequenceNumber := r.1 }.stepAck true false [])
      fun c₁ ↦ ?_
    unfold startReception
    dsimp only [withDisk]
    split
    · rename_i ackNumber _ _
      exact blind_ok (block { c₁ with
        filenameForUpload := some filename
        filesizeForUpload := some r.2
        socket := c₁.socket.resetState }
        (.receiveFileGbn (.init c₁.sequenceNumber ackNumber c₁.socket.lastRawPacket)) now)
    · exact blind_ok (block (stepSequence { c₁ with
        filenameForUpload := some filename, filesizeForUpload := some r.2 }) .receiveFileChunk now)
  · exact blind_error ExnClass.connectionClosingNeeded.exn
      { { c with sequenceNumber := r.1 }.stepAck with state := .unrecoverableBadState }

theorem blind_onClosingUpload (cfg : Config) (c : ClientConnection) (r : Except Exn Unit) :
    Blind fun d ↦ onClosingUpload cfg (c.withDisk d) r := by
  have completed : Blind fun d ↦
      .ok (({ c with state := .doneReadyToDie }.report .uploadCompleted).finish.withDisk d) :=
    blind_ok _
  cases r with
  | ok _ => exact completed
  | error e =>
      dsimp only [onClosingUpload]
      split
      · exact completed
      · exact blind_error e { c with state := .doneReadyToDie }

theorem blind_onFinOrAck (cfg : Config) (c : ClientConnection) :
    Blind fun d ↦ onFinOrAck cfg (c.withDisk d) () :=
  Blind.bind (blind_send cfg c.stepSequence.stepAck true false []) fun c₁ ↦ blind_ok c₁.finish

theorem blind_onEvent (cfg : Config) (h : ¬c.Looks) (ev : Event) :
    Blind fun d ↦ onEvent cfg (c.withDisk d) ev := by
  unfold onEvent
  cases hp : c.point with
  | receiveFilenameForUpload => exact absurd (.inl hp) h
  | receiveFilenameForDownload => exact absurd (.inr hp) h
  | receiveFilesize filename =>
      simp only [point_withDisk, sequenceNumber_withDisk, hp]
      exact blind_listen c _ ev (blind_onSuccess (blind_onFilesize cfg ev.now filename))
  | receiveFileChunk =>
      simp only [point_withDisk, sequenceNumber_withDisk, hp]
      exact blind_listen c _ ev (blind_onSuccess (blind_onFileChunk cfg ev.now))
  | receiveFileGbn receiver =>
      simp only [point_withDisk, hp]
      exact blind_listenReceiver cfg receiver c ev
  | closingHandshakeForUpload =>
      simp only [point_withDisk, sequenceNumber_withDisk, hp]
      exact blind_listen c _ ev (blind_onClosingUpload cfg)
  | initiateCloseConnection =>
      simp only [point_withDisk, sequenceNumber_withDisk, hp]
      exact blind_listen c _ ev (blind_onSuccess (k := onFinOrAck cfg)
        fun c _ ↦ blind_onFinOrAck cfg c)
  | waitForChunkAck remaining chunkNumber totalChunks =>
      simp only [point_withDisk, sequenceNumber_withDisk, hp]
      exact blind_listen c _ ev (blind_onSuccess
        (k := fun c _ ↦ transmitFile cfg ev.now totalChunks remaining chunkNumber false c)
        fun c _ ↦ blind_transmitFile cfg ev.now totalChunks remaining chunkNumber false c)
  | waitForFirstPacketAck =>
      simp only [point_withDisk, sequenceNumber_withDisk, hp]
      exact blind_listen c _ ev (blind_onSuccess (k := fun c _ ↦ onFirstPacketAck cfg ev.now c)
        fun c _ ↦ blind_onFirstPacketAck cfg ev.now c)
  | sendFileGbn sender =>
      simp only [point_withDisk, hp]
      exact blind_listenSender cfg sender c ev
  | closingHandshakeForDownload =>
      simp only [point_withDisk, sequenceNumber_withDisk, hp]
      exact blind_listen c _ ev (blind_onSuccess (k := fun c _ ↦ completeDownload cfg c)
        fun c _ ↦ blind_completeDownload cfg c)
  | ended =>
      simp only [point_withDisk, hp]
      exact blind_ok c

theorem oblivious_step (cfg : Config) (h : ¬c.Looks) (ev : Event) :
    Oblivious fun d ↦ step cfg (c.withDisk d) ev := by
  have hblind := blind_onEvent cfg (c := { c with outbox := [] }) h ev
  unfold step
  dsimp only [withDisk]
  split
  · exact Oblivious.of_blind hblind oblivious_swallow
  · exact Oblivious.of_blind hblind (oblivious_handle cfg ev.now)

theorem Oblivious.eq {f : Disk → ClientConnection} (h : Oblivious f) (d d' : Disk) :
    f d = (f d').withDisk (f d).disk := by
  obtain ⟨c, g, hc⟩ := h
  rw [hc d, hc d']
  rfl

/-! ## The one look -/

/-- Wherever a stretch of code gets to, the file is opened, or never will be. -/
def Past (x : Exec) : Prop := ∀ c, x = .ok c → ¬c.Looks

theorem Leaving.not_looks (h : c.Leaving) : ¬c.Looks := by
  rintro (hl | hl)
  · cases h with
    | closing hp => cases hp.symm.trans hl
    | ended hp => cases hp.symm.trans hl
  · cases h with
    | closing hp => cases hp.symm.trans hl
    | ended hp => cases hp.symm.trans hl

theorem Past.handle {y : Exec} (h : Past y) (cfg : Config) (now : Time) :
    ¬(handle cfg now y).Looks := by
  cases y with
  | ok c => exact h c rfl
  | error e => exact (leaving_handle_error cfg now e).not_looks

theorem past_error (e : Exn × ClientConnection) : Past (.error e) := fun _ h ↦ (by cases h)

theorem Past.ok (h : ¬c.Looks) : Past (.ok c) := by
  rintro _ ⟨⟩
  exact h

theorem past_block (c : ClientConnection) {p : Point} (now : Time) (hu : p ≠ .receiveFilenameForUpload)
    (hd : p ≠ .receiveFilenameForDownload) : Past (.ok (c.block p now)) := by
  refine Past.ok ?_
  rintro (h | h)
  · exact hu h
  · exact hd h

theorem Past.bind {y : Exec} {k : ClientConnection → Exec} (hk : ∀ c, Past (k c)) :
    Past (y >>= k) := by
  cases y with
  | ok c => exact hk c
  | error e => exact past_error e

theorem past_onFilenameForUpload (cfg : Config) (now : Time) (c : ClientConnection)
    (r : SequenceNumber × String) : Past (onFilenameForUpload cfg now c r) := by
  unfold onFilenameForUpload
  dsimp only
  split
  · exact Past.bind fun c₁ ↦ past_block c₁.stepSequence now (by simp) (by simp)
  · split
    · exact past_error _
    · exact past_error _

theorem past_closingHandshakeForDownload (cfg : Config) (now : Time) (c : ClientConnection) :
    Past (closingHandshakeForDownload cfg now false c) := past_block c now (by simp) (by simp)

theorem past_transmitFile (cfg : Config) (now : Time) (totalChunks : Nat) (chunks : List Bytes)
    (chunkNumber : Nat) (isFirstChunk : Bool) (c : ClientConnection) :
    Past (transmitFile cfg now totalChunks chunks chunkNumber isFirstChunk c) := by
  induction chunks generalizing chunkNumber isFirstChunk c with
  | nil => exact past_closingHandshakeForDownload cfg now c
  | cons chunk chunks ih =>
      simp only [transmitFile]
      refine Past.bind fun c₁ ↦ ?_
      split
      · exact ih (chunkNumber + 1) false c₁
      · exact past_block c₁ now (by simp) (by simp)

theorem past_onFilenameForDownload (cfg : Config) (now : Time) (c : ClientConnection)
    (r : SequenceNumber × String) : Past (onFilenameForDownload cfg now c r) := by
  unfold onFilenameForDownload
  dsimp only
  split
  · split
    · exact past_transmitFile cfg now _ _ 1 true _
    · unfold sendFirstPacket
      refine Past.bind fun c₁ ↦ ?_
      split
      · exact past_closingHandshakeForDownload cfg now c₁
      · exact past_block c₁ now (by simp) (by simp)
  · split
    · exact Past.bind fun c₁ ↦ past_error _
    · exact past_error _

/-- While the thread still waits for the name, it leaves the storage alone. -/
theorem listen_looks {op : Operation (SequenceNumber × String)}
    {k : ClientConnection → SequenceNumber × String → Exec} (hk : ∀ c r, Past (k c r))
    (h : (handle cfg ev.now (ClientConnection.listen c op ev (onSuccess k))).Looks) (d : Disk) :
    handle cfg ev.now (ClientConnection.listen (c.withDisk d) op ev (onSuccess k)) =
      (handle cfg ev.now (ClientConnection.listen c op ev (onSuccess k))).withDisk d := by
  unfold ClientConnection.listen at h ⊢
  dsimp only [withDisk] at h ⊢
  cases hr : reListenIfFailed op c.socket c.listening ev with
  | listening r b => rfl
  | returned a =>
      rw [hr] at h
      exact absurd h ((hk c a).handle cfg ev.now)
  | raised e b =>
      rw [hr] at h
      exact absurd h ((past_error _).handle cfg ev.now)

theorem looks_step (hc : c.Looks) (h : (step cfg c ev).Looks) (d : Disk) :
    step cfg (c.withDisk d) ev = (step cfg c ev).withDisk d := by
  rcases hc with hp | hp
  · have hne : c.point ≠ .initiateCloseConnection := by simp [hp]
    rw [step_eq_handle hne, onEvent] at h ⊢
    rw [step_eq_handle (c := c.withDisk d) hne, onEvent]
    simp only [point_withDisk, hp] at h ⊢
    exact listen_looks (past_onFilenameForUpload cfg ev.now) h d
  · have hne : c.point ≠ .initiateCloseConnection := by simp [hp]
    rw [step_eq_handle hne, onEvent] at h ⊢
    rw [step_eq_handle (c := c.withDisk d) hne, onEvent]
    simp only [point_withDisk, hp] at h ⊢
    exact listen_looks (past_onFilenameForDownload cfg ev.now) h d

theorem past_onFilesize (cfg : Config) (now : Time) (filename : String) (c : ClientConnection)
    (r : SequenceNumber × Nat) : Past (onFilesize cfg now filename c r) := by
  unfold onFilesize
  dsimp only
  split
  · refine Past.bind fun c₁ ↦ ?_
    unfold startReception
    dsimp only
    split
    · exact past_block _ now (by simp) (by simp)
    · exact past_block _ now (by simp) (by simp)
  · exact past_error _

theorem past_closingHandshakeForUpload (cfg : Config) (now : Time) (c : ClientConnection) :
    Past (closingHandshakeForUpload cfg now c) := by
  have hpast : Past (sendAck cfg (c.report .connectionFinalizationReceived) >>= fun c ↦
      sendFin cfg c >>= fun c ↦ pure (c.stepSequence.block .closingHandshakeForUpload now)) :=
    Past.bind fun c₁ ↦ Past.bind fun c₂ ↦ past_block c₂.stepSequence now (by simp) (by simp)
  unfold closingHandshakeForUpload
  generalize (sendAck cfg _ >>= _ : Exec) = x at hpast
  cases x with
  | ok c' => exact Past.ok (hpast c' rfl)
  | error e => exact past_error _

theorem past_onFileChunk (cfg : Config) (now : Time) (c : ClientConnection)
    (r : SequenceNumber × Packet) : Past (onFileChunk cfg now c r) := by
  unfold onFileChunk
  dsimp only
  cases r.2.isFin with
  | true => exact past_closingHandshakeForUpload cfg now _
  | false => exact Past.bind fun c₁ ↦ past_block _ now (by simp) (by simp)

theorem past_onGbnPacket (cfg : Config) (now : Time) (receiver : GoBackNReceiver)
    (c : ClientConnection) (packet : Packet) : Past (onGbnPacket cfg now receiver c packet) := by
  unfold onGbnPacket
  dsimp only
  refine Past.bind fun c₁ ↦ ?_
  split
  · exact past_closingHandshakeForUpload cfg now _
  · refine Past.ok ?_
    unfold Looks
    rw [point_appendTaken]
    simp

theorem past_completeDownload (cfg : Config) (c : ClientConnection) :
    Past (completeDownload cfg c) :=
  Past.bind fun _ ↦ Past.ok (Leaving.not_looks (.ended rfl))

theorem past_onSender (cfg : Config) (now : Time) (c : ClientConnection) (r : GoBackNSender.Result) :
    Past (onSender cfg now c r) := by
  cases r with
  | running s sent => exact Past.ok (by simp [Looks])
  | returned s =>
      dsimp only [onSender]
      cases s.alreadyReceivedFinBack with
      | true => exact past_completeDownload cfg _
      | false => exact past_closingHandshakeForDownload cfg now _
  | raised e => exact past_error _

theorem past_onFirstPacketAck (h : ¬c.Looks) (cfg : Config) (now : Time) :
    Past (onFirstPacketAck cfg now c) := by
  unfold onFirstPacketAck
  split
  · exact past_onSender cfg now _ _
  · exact Past.ok h

theorem past_listen {α : Type} {op : Operation α} {k : ClientConnection → Except Exn α → Exec}
    (h : ¬c.Looks) (hk : ∀ c : ClientConnection, ¬c.Looks → ∀ r, Past (k c r)) :
    Past (ClientConnection.listen c op ev k) := by
  unfold ClientConnection.listen
  split
  · exact Past.ok h
  · exact hk c h _
  · exact hk (c.retransmit _) h _

theorem past_onSuccess {α : Type} {k : ClientConnection → α → Exec} (hk : ∀ a, Past (k c a))
    (r : Except Exn α) : Past (onSuccess k c r) := by
  cases r with
  | ok a => exact hk a
  | error e => exact past_error _

theorem past_onEvent (cfg : Config) (h : ¬c.Looks) (ev : Event) : Past (onEvent cfg c ev) := by
  unfold onEvent
  split
  case h_1 hp => exact absurd (.inl hp) h
  case h_7 hp => exact absurd (.inr hp) h
  · exact past_listen h fun c _ ↦ past_onSuccess (past_onFilesize cfg ev.now _ c)
  · exact past_listen h fun c _ ↦ past_onSuccess (past_onFileChunk cfg ev.now c)
  · unfold listenReceiver
    split
    · exact Past.ok h
    · split
      · exact past_error _
      · exact past_error _
    · split
      · exact past_error _
      · exact past_onGbnPacket cfg ev.now _ c _
  · refine past_listen h fun c hc r ↦ ?_
    unfold onClosingUpload
    dsimp only
    split
    · exact Past.ok (Leaving.not_looks (.ended rfl))
    · split
      · exact Past.ok (Leaving.not_looks (.ended rfl))
      · exact past_error _
  · exact past_listen h fun c _ ↦ past_onSuccess fun _ ↦
      Past.bind fun c₁ ↦ Past.ok (Leaving.not_looks (.ended rfl))
  · exact past_listen h fun c _ ↦ past_onSuccess fun _ ↦ past_transmitFile cfg ev.now _ _ _ false c
  · exact past_listen h fun c hc ↦ past_onSuccess fun _ ↦ past_onFirstPacketAck hc cfg ev.now
  · unfold listenSender
    split
    · split
      · exact Past.ok h
      · exact past_onSender cfg ev.now c _
    · split
      · exact past_onSender cfg _ c _
      · exact Past.ok h
  · exact past_listen h fun c _ ↦ past_onSuccess fun _ ↦ past_completeDownload cfg c
  · exact Past.ok h

theorem not_looks_step (cfg : Config) (h : ¬c.Looks) (ev : Event) : ¬(step cfg c ev).Looks := by
  have hpast := past_onEvent cfg (c := { c with outbox := [] }) h ev
  unfold step
  dsimp only
  split
  · generalize onEvent cfg _ ev = x at hpast
    cases x with
    | ok c' => exact hpast c' rfl
    | error e => exact Leaving.not_looks (.ended rfl)
  · exact hpast.handle cfg ev.now

/-! ## Alone and among others -/

/-- A thread that finds at each of its events the storage that the others have left -/
def runAmong (cfg : Config) (disk : Disk) (now : Time) (es : List (Disk × Event)) :
    ClientConnection :=
  es.foldl (fun c e ↦ step cfg (c.withDisk e.1) e.2) (start cfg disk now)

theorem blind_processOperationIntention (cfg : Config) (now : Time) (c : ClientConnection) :
    Blind fun d ↦ processOperationIntention cfg now (c.withDisk d) := by
  unfold processOperationIntention
  cases ServerProtocol.processOperationIntention cfg.initialPacket with
  | error e => exact blind_error e c
  | ok opCode =>
      dsimp only
      split
      · exact Blind.bind (blind_send cfg { c with state := .readyToReceive } true false [])
          fun c₁ ↦ blind_ok (c₁.stepSequence.stepAck.block .receiveFilenameForUpload now)
      · exact Blind.bind (blind_send cfg { c with state := .readyToTransmit } true false [])
          fun c₁ ↦ blind_ok (c₁.stepSequence.block .receiveFilenameForDownload now)

theorem start_withDisk (cfg : Config) (disk d : Disk) (now : Time) :
    start cfg d now = (start cfg disk now).withDisk d := by
  have hobl : Oblivious fun d ↦ start cfg d now := by
    unfold start
    dsimp only
    split
    · exact Oblivious.of_blind
        (blind_processOperationIntention cfg now (init cfg disk now)) (oblivious_handle cfg now)
    · split
      · exact oblivious_withDisk (init cfg disk now)
      · rename_i n _
        exact Oblivious.of_blind (blind_processOperationIntention cfg now
          { init cfg disk now with ackNumber := some ⟨n, .goBackN⟩ }) (oblivious_handle cfg now)
  have hdisk : (start cfg d now).disk = d := congrArg Store.disk (starts cfg d now).store
  rw [hobl.eq d disk, hdisk]

theorem run_append (cfg : Config) (disk : Disk) (now : Time) (es : List Event) (ev : Event) :
    run cfg disk now (es ++ [ev]) = step cfg (run cfg disk now es) ev := by
  simp [run]

theorem runAmong_append (cfg : Config) (disk : Disk) (now : Time) (es : List (Disk × Event))
    (e : Disk × Event) :
    runAmong cfg disk now (es ++ [e]) = step cfg ((runAmong cfg disk now es).withDisk e.1) e.2 := by
  simp [runAmong]

/-- Where a thread among others is when one alone gets the same events -/
inductive Matches (cfg : Config) (disk : Disk) (now : Time) (es : List (Disk × Event))
    (c : ClientConnection) : Prop
  | looks (h : c.Looks) (heq : ∀ d, run cfg d now (es.map Prod.snd) = c.withDisk d)
  | past (h : ¬c.Looks) {d : Disk} (hd : d ∈ disk :: es.map Prod.fst)
      (heq : c = (run cfg d now (es.map Prod.snd)).withDisk c.disk)

theorem matches_start (cfg : Config) (disk : Disk) (now : Time) :
    Matches cfg disk now [] (start cfg disk now) := by
  by_cases h : (start cfg disk now).Looks
  · exact .looks h fun d ↦ start_withDisk cfg disk d now
  · exact .past h List.mem_cons_self rfl

theorem Matches.step {disk : Disk} {es : List (Disk × Event)} (h : Matches cfg disk now es c)
    (e : Disk × Event) : Matches cfg disk now (es ++ [e]) (step cfg (c.withDisk e.1) e.2) := by
  obtain ⟨found, ev⟩ := e
  have hevents : (es ++ [(found, ev)]).map Prod.snd = es.map Prod.snd ++ [ev] := by simp
  cases h with
  | looks h heq =>
      by_cases h' : (ClientConnection.step cfg (c.withDisk found) ev).Looks
      · refine .looks h' fun d ↦ ?_
        rw [hevents, run_append, heq d]
        exact looks_step (c := c.withDisk found) h h' d
      · refine .past h' (d := found) (by simp) ?_
        rw [hevents, run_append, heq found]
        rfl
  | @past h d hd heq =>
      refine .past (not_looks_step cfg (c := c.withDisk found) h ev) (d := d) ?_ ?_
      · rw [List.map_append]
        exact List.mem_append_left _ hd
      · rw [hevents, run_append]
        generalize run cfg d now (es.map Prod.snd) = r at heq
        have hr : ¬r.Looks := by
          rw [heq] at h
          exact h
        have hfound : c.withDisk found = r.withDisk found := by rw [heq, withDisk_withDisk]
        dsimp only
        rw [hfound]
        exact (oblivious_step cfg hr ev).eq found r.disk

/-- But for the storage itself, a thread among others is where it would be alone with the storage of
one moment. -/
theorem runAmong_eq (cfg : Config) (disk : Disk) (now : Time) (es : List (Disk × Event)) :
    ∃ d ∈ disk :: es.map Prod.fst, runAmong cfg disk now es =
      (run cfg d now (es.map Prod.snd)).withDisk (runAmong cfg disk now es).disk := by
  have hmatches : Matches cfg disk now es (runAmong cfg disk now es) := by
    induction es using List.reverseRecOn with
    | nil => exact matches_start cfg disk now
    | append_singleton es e ih =>
        rw [runAmong_append]
        exact ih.step e
  cases hmatches with
  | looks h heq => exact ⟨disk, List.mem_cons_self, by rw [heq disk]; rfl⟩
  | past h hd heq => exact ⟨_, hd, heq⟩

end Rdt.Server.ClientConnection
