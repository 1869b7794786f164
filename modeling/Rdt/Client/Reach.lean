import Rdt.Client.Datagrams

/-!
# The addresses a client sends to

Every datagram a client hands over goes to an address that can be sent to.  The sends of the window and
the retransmissions, which have no failing branch, are to an address that a send has gone through to.
-/

namespace Rdt.Client

/-- What has been handed over gets out. -/
def GetsOut (c : Client) : Prop := ∀ o ∈ c.outbox, o.2.port ≠ 0

/-- The client has sent to the server's address, and what it would repeat has got out before. -/
structure Reaches (c : Client) : Prop where
  server : c.serverAddress.port ≠ 0
  socket : ∀ o ∈ c.socket.retransmission, o.2.port ≠ 0

/-- A stretch of the thread that hands over what gets out, and goes on, if it does, where it has sent to -/
abbrev Reaching : Exec → Prop := Keeps GetsOut fun c ↦ c.point = .ended ∨ Reaches c

variable {cfg : Config} {c : Client} {now : Time} {x : Exec}

theorem getsOut_append (h : GetsOut c) {o : Outbox} (ho : ∀ x ∈ o, x.2.port ≠ 0) :
    GetsOut { c with outbox := c.outbox ++ o } :=
  fun x hx ↦ (List.mem_append.mp hx).elim (h x) (ho x)

theorem getsOut_clear (c : Client) : GetsOut { c with outbox := [] } := fun _ ho ↦ (by cases ho)

theorem Reaches.to_server (h : Reaches c) (raw : Option Bytes) :
    ∀ x ∈ (raw.map fun raw ↦ (raw, c.serverAddress)).toList, x.2.port ≠ 0 := by
  intro x hx
  obtain ⟨raw, -, rfl⟩ := Option.map_eq_some_iff.mp (Option.mem_toList.mp hx)
  exact h.server

/-- What is kept for the server's address can be repeated there. -/
theorem reaches_saveState (raw : Option Bytes) (hserver : c.serverAddress.port ≠ 0) :
    Reaches { c with socket := c.socket.saveState raw c.serverAddress } := by
  refine ⟨hserver, fun o ho ↦ ?_⟩
  cases raw with
  | none => cases ho
  | some raw => exact List.mem_singleton.mp ho ▸ hserver

/-- Only what is handed over before matters: a send that goes through tells the rest. -/
theorem GetsOut.send (h : GetsOut c) (isAck isSyn isFin : Bool) (port : UInt16) (data : Bytes) :
    Keeps GetsOut Reaches (Client.send cfg c isAck isSyn isFin port data) := by
  cases hsend : Client.send cfg c isAck isSyn isFin port data with
  | ok c' =>
      obtain ⟨hport, raw, -, rfl⟩ := (send_eq_ok cfg).mp hsend
      refine ⟨getsOut_append h fun o ho ↦ List.mem_singleton.mp ho ▸ hport, hport, fun o ho ↦ ?_⟩
      exact List.mem_singleton.mp ho ▸ hport
  | error x =>
      rcases send_cases cfg c isAck isSyn isFin port data with
        ⟨e, -, heq⟩ | ⟨raw, -, heq | heq⟩
      · obtain rfl := Except.error.inj (hsend.symm.trans heq)
        exact h
      · cases hsend.symm.trans heq
      · obtain rfl := Except.error.inj (hsend.symm.trans heq)
        exact h

/-! ## The stretches that begin with a send -/

theorem GetsOut.cleanup (h : GetsOut c) : GetsOut (fileCleanupAfterError cfg c).finish := by
  unfold fileCleanupAfterError
  split <;> exact h

theorem GetsOut.sendOperationIntention (h : GetsOut c) (serverAddress : Address) (opCode : Nat) :
    Reaching (Client.sendOperationIntention cfg now serverAddress opCode c) :=
  (GetsOut.send (c := c.stepSequence.stepAck) h true false false _ _).bind
    fun _ h₁ hr ↦ ⟨h₁, .inr ⟨hr.server, hr.socket⟩⟩

theorem GetsOut.informName (h : GetsOut c) : Reaching (Client.informName cfg now c) := by
  have informs : ∀ point filename, Reaching (informFilename cfg now point filename c) :=
    fun point filename ↦ (GetsOut.send (c := c.stepSequence.stepAck) h false false false _ _).bind
      fun _ h₁ hr ↦ ⟨h₁, .inr ⟨hr.server, hr.socket⟩⟩
  unfold Client.informName
  split
  · exact informs .informFilename _
  · exact informs .informNameToDownload _

theorem GetsOut.finalized (h : GetsOut c) (caller : Finalization) :
    Reaching (Client.finalized cfg now caller c) := by
  cases caller with
  | sendOperationIntention => exact h.informName
  | performDownload => exact ⟨h, .inl rfl⟩
  | exceptClause => exact ⟨h.cleanup, .inl rfl⟩

theorem GetsOut.handleConnectionFinalization (h : GetsOut c) (caller : Finalization) :
    Reaching (Client.handleConnectionFinalization cfg now caller c) := by
  have hsent : Reaching (sendFinalization cfg now caller c) :=
    (h.send true false false _ _).bind fun _ h₁ _ ↦ (h₁.send false false true _ _).bind
      fun _ h₂ hr ↦ ⟨h₂, .inr ⟨hr.server, hr.socket⟩⟩
  unfold Client.handleConnectionFinalization
  generalize sendFinalization cfg now caller c = x at hsent
  cases x with
  | ok c' => exact hsent
  | error x =>
      have h' : GetsOut x.2 := hsent
      dsimp only
      split
      · exact h'.finalized caller
      · exact h'

theorem GetsOut.informFilesize (h : GetsOut c) : Reaching (Client.informFilesize cfg now c) := by
  unfold Client.informFilesize
  dsimp only
  split
  · exact (GetsOut.send (c := c.stepSequence.stepAck) h false false false _ _).bind
      fun _ h₁ hr ↦ ⟨h₁, .inr ⟨hr.server, hr.socket⟩⟩
  · exact h

theorem GetsOut.completeUpload (h : GetsOut c) : Reaching (Client.completeUpload cfg c) :=
  (GetsOut.send (c := (c.report .uploadCompleted).stepSequence) h true false false _ _).bind
    fun _ h₁ _ ↦ ⟨h₁, .inl rfl⟩

theorem GetsOut.completeDownload (h : GetsOut c) : Reaching (Client.completeDownload cfg now c) :=
  GetsOut.handleConnectionFinalization (c := { c.report .downloadCompleted with
    downloadCompleted := true
    file := FileHandler.close c.file
    disk := FileHandler.closeOnDisk c.disk c.file }) h .performDownload

/-! ## The others -/

theorem Reaches.initiateCloseConnection (hr : Reaches c) (h : GetsOut c) (alreadyReceivedFinBack : Bool) :
    Reaching (Client.initiateCloseConnection cfg now alreadyReceivedFinBack c) := by
  unfold Client.initiateCloseConnection
  split
  · exact h.completeUpload
  · exact ⟨h, .inr ⟨hr.server, hr.socket⟩⟩

theorem Reaches.sendFileSaw (totalChunks : Nat) (remaining : List Bytes) (chunkNumber : Nat)
    (hr : Reaches c) (h : GetsOut c) :
    Reaching (Client.sendFileSaw cfg now totalChunks remaining chunkNumber c) := by
  induction remaining generalizing chunkNumber c with
  | nil =>
      exact initiateCloseConnection (c := { c with file := FileHandler.close c.file })
        ⟨hr.server, hr.socket⟩ h false
  | cons chunk remaining ih =>
      refine (GetsOut.send (c := c.stepSequence) h false false _ _ _).bind fun c₁ h₁ hr₁ ↦ ?_
      split
      · exact ih (chunkNumber + 1) hr₁ h₁
      · exact ⟨h₁, .inr ⟨hr₁.server, hr₁.socket⟩⟩

theorem Reaches.onSender (hr : Reaches c) (h : GetsOut c) (r : GoBackNSender.Result) :
    Reaching (Client.onSender cfg now c r) := by
  cases r with
  | running s sent => exact ⟨getsOut_append h (hr.to_server sent), .inr ⟨hr.server, hr.socket⟩⟩
  | returned s =>
      have hsaved : Reaches { c with socket := c.socket.saveState s.lastRawPacket c.serverAddress } :=
        reaches_saveState s.lastRawPacket hr.server
      exact initiateCloseConnection (c := { c with
        sequenceNumber := s.returnedSequenceNumber
        ackNumber := some s.ackNumber
        file := FileHandler.close c.file
        socket := c.socket.saveState s.lastRawPacket c.serverAddress })
        ⟨hsaved.server, hsaved.socket⟩ h s.alreadyReceivedFinBack
  | raised e => exact h

theorem Reaches.sendFile (hr : Reaches c) (h : GetsOut c) : Reaching (Client.sendFile cfg now c) := by
  unfold Client.sendFile
  split
  · refine onSender ?_ ?_ _
    · exact ⟨hr.server, fun o ho ↦ (by cases ho)⟩
    · exact h
  · exact hr.sendFileSaw _ _ 1 h

theorem Reaches.listenSender (hr : Reaches c) (h : GetsOut c) (sender : GoBackNSender) (ev : Event) :
    Reaching (Client.listenSender cfg sender c ev) := by
  unfold Client.listenSender
  split
  · split
    · exact ⟨h, .inr hr⟩
    · exact hr.onSender h _
  · split
    · exact hr.onSender h _
    · exact ⟨h, .inr hr⟩

theorem onConfirmation_reaching (refused : ExnClass) {k : Client → Exec} (h : GetsOut c)
    (hk : Reaching (k c)) (r : Except Exn Packet) : Reaching (onConfirmation refused k c r) := by
  cases r with
  | ok packet => exact hk
  | error e =>
      unfold onConfirmation
      dsimp only
      split <;> exact h

theorem Reaches.afterChunk (hr : Reaches c) (h : GetsOut c) (isFin : Bool) :
    Reaching (Client.afterChunk cfg now isFin c) := by
  unfold Client.afterChunk
  split
  · exact h.completeDownload
  · exact ⟨h, .inr ⟨hr.server, hr.socket⟩⟩

/-- The last chunk is not acknowledged. -/
theorem Reaches.acknowledge (hr : Reaches c) (h : GetsOut c) (isFin : Bool) {k : Client → Exec}
    (hk : ∀ c', Reaches c' → GetsOut c' → Reaching (k c')) :
    Reaching (if isFin then .ok c >>= k else Client.sendAck cfg c >>= k) := by
  split
  · exact hk c hr h
  · exact (h.send true false false _ _).bind fun c' h' hr' ↦ hk c' hr' h'

theorem Reaches.receiveFile (hr : Reaches c) (h : GetsOut c) (packet : Packet) :
    Reaching (Client.receiveFile cfg now c packet) := by
  unfold Client.receiveFile
  refine hr.acknowledge h packet.isFin fun c₁ hr₁ h₁ ↦ ?_
  have h₂ : GetsOut (appendToFile cfg c₁ packet) := h₁
  have hr₂ : Reaches (appendToFile cfg c₁ packet) := ⟨hr₁.server, hr₁.socket⟩
  dsimp only
  split
  · split
    · exact h₂.completeDownload
    · exact ⟨h₂, .inr ⟨hr₂.server, fun o ho ↦ (by cases ho)⟩⟩
  · exact hr₂.afterChunk h₂ packet.isFin

theorem Reaches.onFileChunk (hr : Reaches c) (h : GetsOut c) (r : SequenceNumber × Packet) :
    Reaching (Client.onFileChunk cfg now c r) := by
  refine acknowledge (c := { c with sequenceNumber := r.1 }) ⟨hr.server, hr.socket⟩ h r.2.isFin
    fun c₁ hr₁ h₁ ↦ ?_
  exact afterChunk (c := appendToFile cfg c₁ r.2) ⟨hr₁.server, hr₁.socket⟩ h₁ r.2.isFin

theorem Reaches.onDownloadAnswer (hr : Reaches c) (h : GetsOut c) (r : Except Exn Packet) :
    Reaching (Client.onDownloadAnswer cfg now c r) := by
  unfold Client.onDownloadAnswer
  split
  · exact hr.receiveFile h _
  · split
    · split
      · split
        · exact hr.receiveFile h _
        · exact h
      · exact h
    · split <;> exact h

theorem Reaches.sendReplies (receiver : GoBackNReceiver) (replies : List GoBackNReceiver.Reply)
    (hr : Reaches c) (h : GetsOut c) :
    Keeps GetsOut Reaches (replies.foldlM (sendReply cfg receiver) c) := by
  induction replies generalizing c with
  | nil => exact ⟨h, hr⟩
  | cons reply replies ih =>
      have hreply : Keeps GetsOut Reaches (sendReply cfg receiver c reply) := by
        cases reply with
        | sendAck n ack =>
            unfold sendReply
            dsimp only
            split
            · exact h
            · rename_i raw _
              exact ⟨getsOut_append h (hr.to_server (some raw)), hr.server, hr.socket⟩
        | resendLast =>
            exact ⟨getsOut_append h (hr.to_server receiver.lastTransmittedPacket), hr.server, hr.socket⟩
      rw [List.foldlM_cons]
      exact hreply.bind fun c₁ h₁ hr₁ ↦ ih hr₁ h₁

theorem Reaches.onGbnPacket (hr : Reaches c) (h : GetsOut c) (receiver : GoBackNReceiver)
    (packet : Packet) : Reaching (Client.onGbnPacket cfg now receiver c packet) := by
  unfold Client.onGbnPacket
  refine (hr.sendReplies receiver (receiver.onPacket packet).replies h).bind fun c₁ h₁ hr₁ ↦ ?_
  have happended : ∀ {d : Client} (taken : Option Packet), d.outbox = c₁.outbox →
      d.serverAddress = c₁.serverAddress → d.socket = c₁.socket →
      GetsOut (appendTaken cfg d taken) ∧ Reaches (appendTaken cfg d taken) := by
    intro d taken hout hserver hsocket
    have hd : GetsOut d ∧ Reaches d :=
      ⟨fun o ho ↦ h₁ o (hout ▸ ho), hserver ▸ hr₁.server, hsocket ▸ hr₁.socket⟩
    cases taken with
    | none => exact hd
    | some packet => exact ⟨hd.1, hd.2.server, hd.2.socket⟩
  obtain ⟨h₂, hr₂⟩ := happended (d := { c₁ with
    sequenceNumber := (receiver.onPacket packet).receiver.sqnNumber
    ackNumber := some (receiver.onPacket packet).receiver.ackNumber
    point := .receiveFileGbn (receiver.onPacket packet).receiver })
    (receiver.onPacket packet).appended rfl rfl rfl
  dsimp only
  split
  · exact h₂.completeDownload
  · exact ⟨h₂, .inr hr₂⟩

theorem Reaches.listenReceiver (hr : Reaches c) (h : GetsOut c) (receiver : GoBackNReceiver)
    (ev : Event) : Reaching (Client.listenReceiver cfg receiver c ev) := by
  unfold Client.listenReceiver
  split
  · split
    · exact h
    · exact hr.onGbnPacket h receiver _
  · exact h
  · exact ⟨h, .inr hr⟩
  · exact ⟨h, .inr hr⟩

/-! ## Steps and runs -/

/-- A retransmission goes where the packet went before. -/
theorem Reaches.listen {α : Type} (hr : Reaches c) (h : GetsOut c) (op : Operation α) (ev : Event)
    {k : Client → Except Exn α → Exec} (hk : ∀ c' r, Reaches c' → GetsOut c' → Reaching (k c' r)) :
    Reaching (Client.listen c op ev k) := by
  have repeated : ∀ b, GetsOut (c.retransmit b) := by
    intro b
    refine getsOut_append h fun o ho ↦ ?_
    split at ho
    · exact hr.socket o ho
    · cases ho
  unfold Client.listen
  split
  · exact ⟨repeated _, .inr ⟨hr.server, hr.socket⟩⟩
  · exact hk c _ hr h
  · exact hk _ _ ⟨hr.server, hr.socket⟩ (repeated _)

theorem Reaching.swallow (hx : Reaching x) : GetsOut (Client.swallow x) ∧
    ((Client.swallow x).point = .ended ∨ Reaches (Client.swallow x)) := by
  cases x with
  | ok c => exact hx
  | error x => exact ⟨hx, .inl rfl⟩

theorem Reaching.handle (hx : Reaching x) : GetsOut (Client.handle cfg now x) ∧
    ((Client.handle cfg now x).point = .ended ∨ Reaches (Client.handle cfg now x)) := by
  cases x with
  | ok c => exact hx
  | error x =>
      have h : GetsOut x.2 := hx
      unfold Client.handle
      dsimp only
      split
      · exact Reaching.swallow
          (GetsOut.handleConnectionFinalization (c := x.2.stepSequence.stepAck) h .exceptClause)
      · exact ⟨h.cleanup, .inl rfl⟩

theorem onSuccess_reaching {α : Type} {k : Client → α → Exec}
    (hk : ∀ c a, Reaches c → GetsOut c → Reaching (k c a)) (c : Client) (r : Except Exn α)
    (hr : Reaches c) (h : GetsOut c) : Reaching (onSuccess k c r) := by
  cases r with
  | ok a => exact hk c a hr h
  | error e => exact h

theorem onOperationConfirmation_reaching (h : GetsOut c) (serverAddress : Address)
    (r : Except Exn Packet) : Reaching (onOperationConfirmation cfg now serverAddress c r) := by
  cases r with
  | ok packet => exact GetsOut.informName (c := { c with serverAddress }) h
  | error e =>
      unfold onOperationConfirmation
      dsimp only
      split
      · exact h.handleConnectionFinalization _
      · exact h

theorem onFinalization_reaching (h : GetsOut c) (caller : Finalization) (r : Except Exn Unit) :
    Reaching (onFinalization cfg now caller c r) := by
  cases r with
  | ok u => exact h.finalized caller
  | error e =>
      unfold onFinalization
      dsimp only
      split
      · exact h.finalized caller
      · exact h

theorem onFinOrAck_reaching (h : GetsOut c) (r : Except Exn Unit) : Reaching (onFinOrAck cfg c r) := by
  cases r with
  | ok u => exact h.completeUpload
  | error e =>
      unfold onFinOrAck
      dsimp only
      split
      · exact ⟨h, .inl rfl⟩
      · exact h

/-- One case per point. -/
theorem Reaches.onEvent (hr : Reaches c) (h : GetsOut c) (ev : Event) :
    Reaching (Client.onEvent cfg c ev) := by
  unfold Client.onEvent
  cases hpoint : c.point with
  | handshake =>
      refine hr.listen h _ ev fun c' r hr' h' ↦ ?_
      cases r with
      | ok serverAddress => exact (h'.sendOperationIntention serverAddress _).handle
      | error e => exact ⟨h', .inl rfl⟩
  | sendOperationIntention serverAddress =>
      exact hr.listen h _ ev fun c' r _ h' ↦ onOperationConfirmation_reaching h' serverAddress r
  | informFilename =>
      exact hr.listen h _ ev fun c' r _ h' ↦ onConfirmation_reaching _ h' h'.informFilesize r
  | informFilesize =>
      exact hr.listen h _ ev fun c' r hr' h' ↦ onConfirmation_reaching _ h' (hr'.sendFile h') r
  | sendFileSaw remaining chunkNumber totalChunks =>
      exact hr.listen h _ ev (onSuccess_reaching fun c' _ hr' h' ↦
        hr'.sendFileSaw totalChunks remaining chunkNumber h')
  | sendFileGbn sender => exact hr.listenSender h sender ev
  | initiateCloseConnection => exact hr.listen h _ ev fun c' r _ h' ↦ onFinOrAck_reaching h' r
  | informNameToDownload => exact hr.listen h _ ev fun c' r hr' h' ↦ hr'.onDownloadAnswer h' r
  | receiveFileSaw => exact hr.listen h _ ev (onSuccess_reaching fun c' r hr' h' ↦ hr'.onFileChunk h' r)
  | receiveFileGbn receiver => exact hr.listenReceiver h receiver ev
  | handleConnectionFinalization caller =>
      exact hr.listen h _ ev fun c' r _ h' ↦ onFinalization_reaching h' caller r
  | ended => exact ⟨h, .inr hr⟩

theorem Reaches.step (h : c.point = .ended ∨ Reaches c) (cfg : Config) (ev : Event) :
    GetsOut (c.step cfg ev) ∧ ((c.step cfg ev).point = .ended ∨ Reaches (c.step cfg ev)) := by
  rcases h with hp | hr
  · rw [step_ended hp]
    exact ⟨getsOut_clear c, .inl hp⟩
  · have hevent : Reaching (Client.onEvent cfg { c with outbox := [] } ev) :=
      onEvent (c := { c with outbox := [] }) ⟨hr.server, hr.socket⟩ (getsOut_clear c) ev
    unfold Client.step
    dsimp only
    split
    · exact hevent.swallow
    · exact hevent.swallow
    · exact hevent.handle

theorem start_reaches {disk : Disk} (hstart : start cfg disk now = .ok c) :
    GetsOut c ∧ (c.point = .ended ∨ Reaches c) := by
  obtain ⟨⟨file, disk'⟩, -, hc⟩ := except_bind_eq_ok.mp hstart
  obtain rfl := Except.ok.inj hc
  have hinit : GetsOut (init cfg file disk' now) := fun _ ho ↦ (by cases ho)
  exact Reaching.swallow ((hinit.send false true false _ _).bind
    fun _ h hr ↦ ⟨h, .inr ⟨hr.server, hr.socket⟩⟩)

/-- Nothing that a client hands over in a run would have failed to get out. -/
theorem run_getsOut {disk : Disk} (hstart : start cfg disk now = .ok c) (es : List Event) :
    GetsOut (es.foldl (step cfg) c) ∧
      ((es.foldl (step cfg) c).point = .ended ∨ Reaches (es.foldl (step cfg) c)) := by
  induction es using List.reverseRecOn with
  | nil => exact start_reaches hstart
  | append_singleton es ev ih =>
      rw [List.foldl_append]
      exact Reaches.step ih.2 cfg ev

end Rdt.Client
