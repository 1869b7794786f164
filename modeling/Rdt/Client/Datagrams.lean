import Rdt.Client.Client
import Rdt.Common.Datagrams

/-!
# The datagrams of a client

What holds of the packets without SYN holds of all that a client sends, if it holds of the packet
that it has sent last.
-/

namespace Rdt.Client

open PacketParser ClientProtocol

/-- What the client has handed over, and what it would repeat, has `P`. -/
structure Hands (P : Bytes → Prop) (c : Client) : Prop where
  socket : ∀ raw ∈ c.socket.lastRawPacket, P raw
  outbox : ∀ o ∈ c.outbox, P o.1

/-- The same of the sender or the receiver of Go-Back-N -/
def HandsAt (P : Bytes → Prop) (c : Client) : Prop :=
  match c.point with
  | .sendFileGbn sender => sender.Hands P
  | .receiveFileGbn receiver => receiver.Hands P
  | _ => True

/-- A stretch of the thread after which both hold -/
abbrev Sends (P : Bytes → Prop) : Exec → Prop := Keeps (Hands P) (HandsAt P)

variable {cfg : Config} {P : Bytes → Prop} {c : Client} {now : Time}

namespace Hands

theorem stepSequence (h : Hands P c) : Hands P c.stepSequence := ⟨h.socket, h.outbox⟩

theorem stepAck (h : Hands P c) : Hands P c.stepAck := ⟨h.socket, h.outbox⟩

theorem block (h : Hands P c) (point : Point) (now : Time) : Hands P (c.block point now) :=
  ⟨h.socket, h.outbox⟩

theorem finish (h : Hands P c) : Hands P c.finish := ⟨h.socket, h.outbox⟩

theorem handed (h : Hands P c) {raw : Bytes} (hraw : P raw) : Hands P (c.handed raw) := by
  refine ⟨fun _ hr ↦ Option.some.inj hr ▸ hraw, ?_⟩
  intro o ho
  rcases List.mem_append.mp ho with ho | ho
  · exact h.outbox o ho
  · exact List.mem_singleton.mp ho ▸ hraw

theorem retransmit (h : Hands P c) (b : Bool) : Hands P (c.retransmit b) := by
  refine ⟨h.socket, ?_⟩
  intro o ho
  rcases List.mem_append.mp ho with ho | ho
  · exact h.outbox o ho
  · split at ho
    · exact SocketSaw.retransmission_all h.socket o ho
    · cases ho

/-- A packet that does not get out is kept all the same. -/
theorem send_of (h : Hands P c) {isAck isSyn isFin : Bool} {port : UInt16} {data : Bytes}
    (hpacked : ∀ raw, Protocol.encode cfg.protocolVersion c.sequenceNumber c.ackNumber isAck isSyn isFin
      port data = .ok raw → P raw) :
    Keeps (Hands P) (fun _ ↦ True) (Client.send cfg c isAck isSyn isFin port data) := by
  rcases send_cases cfg c isAck isSyn isFin port data with ⟨e, -, heq⟩ | ⟨raw, hraw, heq | heq⟩
  · rw [heq]
    exact h
  · rw [heq]
    exact ⟨h.handed (hpacked raw hraw), trivial⟩
  · rw [heq]
    exact ⟨(h.handed (hpacked raw hraw)).socket, h.outbox⟩

theorem send (hP : Composes P) (h : Hands P c) (isAck isFin : Bool) (port : UInt16) (data : Bytes) :
    Keeps (Hands P) (fun _ ↦ True) (Client.send cfg c isAck false isFin port data) :=
  h.send_of fun _ hraw ↦ hP _ _ _ _ _ _ _ _ hraw

theorem fileCleanupAfterError (h : Hands P c) : Hands P (Client.fileCleanupAfterError cfg c) := by
  unfold Client.fileCleanupAfterError
  split <;> exact ⟨h.socket, h.outbox⟩

/-! ### The steps of a transfer -/

theorem sendOperationIntention (hP : Composes P) (h : Hands P c) (serverAddress : Address)
    (opCode : Nat) : Sends P (Client.sendOperationIntention cfg now serverAddress opCode c) :=
  (h.stepSequence.stepAck.send hP true false _ _).bind fun _ h₁ _ ↦ ⟨h₁.block _ now, trivial⟩

theorem informFilename (hP : Composes P) (h : Hands P c) (point : Point) (filename : String)
    (hpoint : ∀ c', HandsAt P (Client.block c' point now)) :
    Sends P (Client.informFilename cfg now point filename c) :=
  (h.stepSequence.stepAck.send hP false false _ _).bind fun c₁ h₁ _ ↦ ⟨h₁.block point now, hpoint c₁⟩

theorem informName (hP : Composes P) (h : Hands P c) : Sends P (Client.informName cfg now c) := by
  unfold Client.informName
  split
  · exact h.informFilename hP .informFilename _ fun _ ↦ trivial
  · exact h.informFilename hP .informNameToDownload _ fun _ ↦ trivial

theorem finalized (hP : Composes P) (h : Hands P c) (caller : Finalization) :
    Sends P (Client.finalized cfg now caller c) := by
  cases caller with
  | sendOperationIntention => exact h.informName hP
  | performDownload => exact ⟨h.finish, trivial⟩
  | exceptClause => exact ⟨h.fileCleanupAfterError.finish, trivial⟩

theorem handleConnectionFinalization (hP : Composes P) (h : Hands P c) (caller : Finalization) :
    Sends P (Client.handleConnectionFinalization cfg now caller c) := by
  have hsent : Sends P (sendFinalization cfg now caller c) :=
    (h.send hP true false _ _).bind fun _ h₁ _ ↦ (h₁.send hP false true _ _).bind fun _ h₂ _ ↦
      ⟨h₂.stepSequence.block _ now, trivial⟩
  unfold Client.handleConnectionFinalization
  generalize sendFinalization cfg now caller c = x at hsent
  cases x with
  | ok c' => exact hsent
  | error x =>
      have h' : Hands P x.2 := hsent
      dsimp only
      split
      · exact h'.finalized hP caller
      · exact h'

theorem informFilesize (hP : Composes P) (h : Hands P c) :
    Sends P (Client.informFilesize cfg now c) := by
  unfold Client.informFilesize
  dsimp only
  split
  · exact (h.stepSequence.stepAck.send hP false false _ _).bind fun _ h₁ _ ↦
      ⟨h₁.block _ now, trivial⟩
  · exact h.stepSequence.stepAck

theorem report (h : Hands P c) (r : Report) : Hands P (c.report r) := ⟨h.socket, h.outbox⟩

theorem completeUpload (hP : Composes P) (h : Hands P c) : Sends P (Client.completeUpload cfg c) :=
  ((h.report .uploadCompleted).stepSequence.send hP true false _ _).bind fun _ h₁ _ ↦
    ⟨h₁.finish, trivial⟩

theorem initiateCloseConnection (hP : Composes P) (h : Hands P c) (alreadyReceivedFinBack : Bool) :
    Sends P (Client.initiateCloseConnection cfg now alreadyReceivedFinBack c) := by
  unfold Client.initiateCloseConnection
  split
  · exact h.completeUpload hP
  · exact ⟨h.block _ now, trivial⟩

theorem sendFileSaw (hP : Composes P) (totalChunks : Nat) (remaining : List Bytes)
    (chunkNumber : Nat) (h : Hands P c) :
    Sends P (Client.sendFileSaw cfg now totalChunks remaining chunkNumber c) := by
  induction remaining generalizing chunkNumber c with
  | nil =>
      refine initiateCloseConnection hP ?_ false
      exact ⟨h.socket, h.outbox⟩
  | cons chunk remaining ih =>
      refine (h.stepSequence.send hP false _ _ _).bind fun c₁ h₁ _ ↦ ?_
      split
      · exact ih (chunkNumber + 1) h₁
      · exact ⟨h₁.block _ now, trivial⟩

theorem onSender (hP : Composes P) (h : Hands P c) {r : GoBackNSender.Result} (hr : r.Hands P) :
    Sends P (Client.onSender cfg now c r) := by
  cases r with
  | running s sent =>
      refine ⟨⟨h.socket, ?_⟩, hr.1⟩
      intro o ho
      rcases List.mem_append.mp ho with ho | ho
      · exact h.outbox o ho
      · obtain ⟨raw, hraw, rfl⟩ := Option.map_eq_some_iff.mp (Option.mem_toList.mp ho)
        exact hr.2 raw hraw
  | returned s =>
      refine initiateCloseConnection hP ?_ s.alreadyReceivedFinBack
      exact ⟨hr.lastRawPacket, h.outbox⟩
  | raised e => exact h

theorem sendFile (hP : Composes P) (h : Hands P c) : Sends P (Client.sendFile cfg now c) := by
  unfold Client.sendFile
  split
  · refine onSender hP ?_ ((GoBackNSender.hands_initClient _ _ _).loop false)
    exact ⟨fun _ hr ↦ (by cases hr), h.outbox⟩
  · exact h.sendFileSaw hP _ _ 1

theorem listenSender (hP : Composes P) (h : Hands P c) {sender : GoBackNSender}
    (hs : sender.Hands P) (hp : HandsAt P c) (ev : Event) :
    Sends P (Client.listenSender cfg sender c ev) := by
  unfold Client.listenSender
  split
  · split
    · exact ⟨h, hp⟩
    · exact h.onSender hP (hs.awaitAckPhaseClient _ _)
  · split
    · exact h.onSender hP (hs.proceed hP cfg.myAddress.port _)
    · exact ⟨h, hp⟩

theorem onConfirmation (h : Hands P c) {refused : ExnClass} {k : Client → Exec}
    (hk : Sends P (k c)) (r : Except Exn Packet) : Sends P (Client.onConfirmation refused k c r) := by
  cases r with
  | ok packet => exact hk
  | error e =>
      unfold Client.onConfirmation
      dsimp only
      split <;> exact h

theorem appendToFile (h : Hands P c) (packet : Packet) : Hands P (Client.appendToFile cfg c packet) :=
  ⟨h.socket, h.outbox⟩

theorem completeDownload (hP : Composes P) (h : Hands P c) :
    Sends P (Client.completeDownload cfg now c) := by
  refine handleConnectionFinalization hP ?_ .performDownload
  exact ⟨h.socket, h.outbox⟩

theorem afterChunk (hP : Composes P) (h : Hands P c) (isFin : Bool) :
    Sends P (Client.afterChunk cfg now isFin c) := by
  unfold Client.afterChunk
  split
  · exact h.completeDownload hP
  · exact ⟨h.stepSequence.block _ now, trivial⟩

/-- The last chunk is not acknowledged. -/
theorem acknowledge (hP : Composes P) (h : Hands P c) (isFin : Bool) {k : Client → Exec}
    (hk : ∀ c', Hands P c' → Sends P (k c')) :
    Sends P (if isFin then .ok c >>= k else Client.sendAck cfg c >>= k) := by
  split
  · exact hk c h
  · exact (h.send hP true false _ _).bind fun c' h' _ ↦ hk c' h'

theorem receiveFile (hP : Composes P) (h : Hands P c) (packet : Packet) :
    Sends P (Client.receiveFile cfg now c packet) := by
  unfold Client.receiveFile
  refine h.acknowledge hP packet.isFin fun c₁ h₁ ↦ ?_
  have h₂ : Hands P (Client.appendToFile cfg c₁ packet) := h₁.appendToFile packet
  dsimp only
  split
  · split
    · exact h₂.completeDownload hP
    · exact ⟨⟨fun _ hr ↦ (by cases hr), h₂.outbox⟩, h₂.socket⟩
  · exact h₂.afterChunk hP packet.isFin

theorem onFileChunk (hP : Composes P) (h : Hands P c) (r : SequenceNumber × Packet) :
    Sends P (Client.onFileChunk cfg now c r) := by
  refine acknowledge (c := { c with sequenceNumber := r.1 }) hP ⟨h.socket, h.outbox⟩ r.2.isFin
    fun c₁ h₁ ↦ ?_
  exact (h₁.appendToFile r.2).afterChunk hP r.2.isFin

theorem onDownloadAnswer (hP : Composes P) (h : Hands P c) (r : Except Exn Packet) :
    Sends P (Client.onDownloadAnswer cfg now c r) := by
  unfold Client.onDownloadAnswer
  split
  · exact h.receiveFile hP _
  · split
    · split
      · split
        · exact h.receiveFile hP _
        · exact h
      · exact h
    · split <;> exact h

theorem sendReply (hP : Composes P) (h : Hands P c) {receiver : GoBackNReceiver}
    (hr : receiver.Hands P) (reply : GoBackNReceiver.Reply) :
    Keeps (Hands P) (fun _ ↦ True) (Client.sendReply cfg receiver c reply) := by
  cases reply with
  | sendAck n ack =>
      unfold Client.sendReply
      dsimp only
      split
      · exact h
      · rename_i raw hraw
        refine ⟨⟨h.socket, ?_⟩, trivial⟩
        intro o ho
        rcases List.mem_append.mp ho with ho | ho
        · exact h.outbox o ho
        · exact List.mem_singleton.mp ho ▸ hP _ _ _ _ _ _ _ _ hraw
  | resendLast =>
      refine ⟨⟨h.socket, ?_⟩, trivial⟩
      intro o ho
      rcases List.mem_append.mp ho with ho | ho
      · exact h.outbox o ho
      · obtain ⟨raw, hraw, rfl⟩ := Option.map_eq_some_iff.mp (Option.mem_toList.mp ho)
        exact hr raw hraw

theorem sendReplies (hP : Composes P) {receiver : GoBackNReceiver} (hr : receiver.Hands P)
    (replies : List GoBackNReceiver.Reply) (h : Hands P c) :
    Keeps (Hands P) (fun _ ↦ True) (replies.foldlM (Client.sendReply cfg receiver) c) := by
  induction replies generalizing c with
  | nil => exact ⟨h, trivial⟩
  | cons reply replies ih =>
      rw [List.foldlM_cons]
      exact (h.sendReply hP hr reply).bind fun c₁ h₁ _ ↦ ih h₁

theorem appendTaken (h : Hands P c) (taken : Option Packet) :
    Hands P (Client.appendTaken cfg c taken) := by
  cases taken <;> exact ⟨h.socket, h.outbox⟩

theorem onGbnPacket (hP : Composes P) (h : Hands P c) {receiver : GoBackNReceiver}
    (hr : receiver.Hands P) (packet : Packet) :
    Sends P (Client.onGbnPacket cfg now receiver c packet) := by
  unfold Client.onGbnPacket
  refine (sendReplies hP hr (receiver.onPacket packet).replies h).bind fun c₁ h₁ _ ↦ ?_
  let c₂ : Client := { c₁ with
    sequenceNumber := (receiver.onPacket packet).receiver.sqnNumber
    ackNumber := some (receiver.onPacket packet).receiver.ackNumber
    point := .receiveFileGbn (receiver.onPacket packet).receiver }
  have hc₂ : Hands P c₂ := ⟨h₁.socket, h₁.outbox⟩
  have h₂ : Hands P (Client.appendTaken cfg c₂ (receiver.onPacket packet).appended) :=
    hc₂.appendTaken _
  dsimp only
  split
  · exact h₂.completeDownload hP
  · refine ⟨h₂, ?_⟩
    cases (receiver.onPacket packet).appended <;> exact hr.onPacket packet

theorem listenReceiver (hP : Composes P) (h : Hands P c) {receiver : GoBackNReceiver}
    (hr : receiver.Hands P) (hp : HandsAt P c) (ev : Event) :
    Sends P (Client.listenReceiver cfg receiver c ev) := by
  unfold Client.listenReceiver
  split
  · split
    · exact h
    · exact h.onGbnPacket hP hr _
  · exact h
  · exact ⟨h, hp⟩
  · exact ⟨h, hp⟩

/-- One event in a wrapped receive -/
theorem listen {α : Type} (h : Hands P c) (hp : HandsAt P c) (op : Operation α) (ev : Event)
    {k : Client → Except Exn α → Exec} (hk : ∀ c' r, Hands P c' → Sends P (k c' r)) :
    Sends P (Client.listen c op ev k) := by
  unfold Client.listen
  split
  · rename_i r b _
    exact ⟨⟨h.socket, (h.retransmit b).outbox⟩, hp⟩
  · exact hk c _ h
  · exact hk _ _ (h.retransmit _)

end Hands

/-! ## Steps -/

/-- What the client has handed over, and what it would repeat where it is -/
structure Emits (P : Bytes → Prop) (c : Client) : Prop extends Hands P c where
  at_point : HandsAt P c

variable {x : Exec}

theorem Sends.swallow (h : Sends P x) : Emits P (Client.swallow x) := by
  cases x with
  | ok c => exact ⟨h.1, h.2⟩
  | error x => exact ⟨Hands.finish h, trivial⟩

theorem Sends.handle (hP : Composes P) (h : Sends P x) : Emits P (Client.handle cfg now x) := by
  cases x with
  | ok c => exact ⟨h.1, h.2⟩
  | error x =>
      have h : Hands P x.2 := h
      unfold Client.handle
      dsimp only
      split
      · exact Sends.swallow (h.stepSequence.stepAck.handleConnectionFinalization hP .exceptClause)
      · exact ⟨h.fileCleanupAfterError.finish, trivial⟩

theorem sends_onOperationConfirmation (hP : Composes P) (h : Hands P c) (serverAddress : Address)
    (r : Except Exn Packet) : Sends P (onOperationConfirmation cfg now serverAddress c r) := by
  cases r with
  | ok packet => exact Hands.informName hP ⟨h.socket, h.outbox⟩
  | error e =>
      unfold onOperationConfirmation
      dsimp only
      split
      · exact h.handleConnectionFinalization hP _
      · exact h

theorem sends_onFinalization (hP : Composes P) (h : Hands P c) (caller : Finalization)
    (r : Except Exn Unit) : Sends P (onFinalization cfg now caller c r) := by
  cases r with
  | ok u => exact h.finalized hP caller
  | error e =>
      unfold onFinalization
      dsimp only
      split
      · exact h.finalized hP caller
      · exact h

theorem sends_onFinOrAck (hP : Composes P) (h : Hands P c) (r : Except Exn Unit) :
    Sends P (onFinOrAck cfg c r) := by
  cases r with
  | ok u => exact h.completeUpload hP
  | error e =>
      unfold onFinOrAck
      dsimp only
      split
      · exact ⟨h.finish, trivial⟩
      · exact h

theorem sends_onSuccess {α : Type} {k : Client → α → Exec} (hk : ∀ c a, Hands P c → Sends P (k c a))
    (c : Client) (r : Except Exn α) (h : Hands P c) : Sends P (onSuccess k c r) := by
  cases r with
  | ok a => exact hk c a h
  | error e => exact h

theorem emits_onConnectionRequestAnswer (hP : Composes P) (h : Hands P c) (r : Except Exn Address) :
    Emits P (onConnectionRequestAnswer cfg now c r) := by
  cases r with
  | ok serverAddress => exact Sends.handle hP (h.sendOperationIntention hP serverAddress _)
  | error e => exact ⟨h.finish, trivial⟩

/-- One case per point. -/
theorem Emits.onEvent (hP : Composes P) (h : Emits P c) (ev : Event) : Sends P (onEvent cfg c ev) := by
  have hp := h.at_point
  unfold Client.onEvent
  cases hpoint : c.point with
  | handshake =>
      refine h.listen hp _ ev fun c' r h' ↦ ?_
      have hemits : Emits P (onConnectionRequestAnswer cfg ev.now c' r) :=
        emits_onConnectionRequestAnswer hP h' r
      exact ⟨hemits.toHands, hemits.at_point⟩
  | sendOperationIntention serverAddress =>
      exact h.listen hp _ ev fun c' r h' ↦ sends_onOperationConfirmation hP h' serverAddress r
  | informFilename => exact h.listen hp _ ev fun c' r h' ↦ h'.onConfirmation (h'.informFilesize hP) r
  | informFilesize => exact h.listen hp _ ev fun c' r h' ↦ h'.onConfirmation (h'.sendFile hP) r
  | sendFileSaw remaining chunkNumber totalChunks =>
      exact h.listen hp _ ev (sends_onSuccess fun c' _ h' ↦ h'.sendFileSaw hP totalChunks remaining chunkNumber)
  | sendFileGbn sender =>
      have hs : sender.Hands P := by
        unfold HandsAt at hp
        rwa [hpoint] at hp
      exact h.toHands.listenSender hP hs h.at_point ev
  | initiateCloseConnection => exact h.listen hp _ ev fun c' r h' ↦ sends_onFinOrAck hP h' r
  | informNameToDownload => exact h.listen hp _ ev fun c' r h' ↦ h'.onDownloadAnswer hP r
  | receiveFileSaw =>
      exact h.listen hp _ ev (sends_onSuccess fun c' r h' ↦ h'.onFileChunk hP r)
  | receiveFileGbn receiver =>
      have hr : receiver.Hands P := by
        unfold HandsAt at hp
        rwa [hpoint] at hp
      exact h.toHands.listenReceiver hP hr h.at_point ev
  | handleConnectionFinalization caller =>
      exact h.listen hp _ ev fun c' r h' ↦ sends_onFinalization hP h' caller r
  | ended => exact ⟨h.toHands, hp⟩

/-- Whatever arrives, the client keeps to it. -/
theorem Emits.step (hP : Composes P) (h : Emits P c) (ev : Event) : Emits P (Client.step cfg c ev) := by
  have hclear : Emits P { c with outbox := [] } :=
    ⟨⟨h.socket, fun _ ho ↦ (by cases ho)⟩, h.at_point⟩
  unfold Client.step
  dsimp only
  split
  · exact Sends.swallow (hclear.onEvent hP ev)
  · exact Sends.swallow (hclear.onEvent hP ev)
  · exact Sends.handle hP (hclear.onEvent hP ev)

/-- A client begins by a SYN. -/
theorem emits_start {disk : Disk} (hsyn : ∀ n ack port raw,
      Protocol.encode cfg.protocolVersion n ack false true false port [] = .ok raw → P raw)
    (hstart : start cfg disk now = .ok c) : Emits P c := by
  obtain ⟨⟨file, disk'⟩, -, hc⟩ := except_bind_eq_ok.mp hstart
  obtain rfl := Except.ok.inj hc
  have hinit : Hands P (init cfg file disk' now) := ⟨fun _ hr ↦ (by cases hr), fun _ ho ↦ (by cases ho)⟩
  have hsent : Keeps (Hands P) (fun _ ↦ True) (requestConnection cfg (init cfg file disk' now)) :=
    hinit.send_of fun raw hraw ↦ hsyn _ _ _ raw hraw
  exact Sends.swallow (hsent.bind fun _ h _ ↦ ⟨h.block .handshake now, trivial⟩)

end Rdt.Client
