import Rdt.Common.Datagrams
import Rdt.Server.Connection

/-!
# The datagrams of a connection

What holds of the packets without SYN holds of all that a connection sends, and it sends nothing to
anyone but its client.
-/

namespace Rdt.Server.ClientConnection

open PacketParser ServerProtocol

/-- What the connection has handed over, and what it would repeat, has `P` and is for its client. -/
structure Hands (cfg : Config) (P : Bytes → Prop) (c : ClientConnection) : Prop where
  socket : ∀ raw ∈ c.socket.lastRawPacket, P raw
  address : ∀ a ∈ c.socket.lastAddress, a = cfg.clientAddress
  outbox : ∀ o ∈ c.outbox, P o.1 ∧ o.2 = cfg.clientAddress

/-- The same of the sender or the receiver of Go-Back-N -/
def HandsAt (P : Bytes → Prop) (c : ClientConnection) : Prop :=
  match c.point with
  | .sendFileGbn sender => sender.Hands P
  | .receiveFileGbn receiver => receiver.Hands P
  | _ => True

/-- A stretch of `run` after which both hold -/
abbrev Sends (cfg : Config) (P : Bytes → Prop) : Exec → Prop := Keeps (Hands cfg P) (HandsAt P)

variable {cfg : Config} {P : Bytes → Prop} {c : ClientConnection} {now : Time}

namespace Hands

theorem stepSequence (h : Hands cfg P c) : Hands cfg P c.stepSequence :=
  ⟨h.socket, h.address, h.outbox⟩

theorem stepAck (h : Hands cfg P c) : Hands cfg P c.stepAck := ⟨h.socket, h.address, h.outbox⟩

theorem block (h : Hands cfg P c) (point : Point) (now : Time) : Hands cfg P (c.block point now) :=
  ⟨h.socket, h.address, h.outbox⟩

theorem report (h : Hands cfg P c) (r : Report) : Hands cfg P (c.report r) :=
  ⟨h.socket, h.address, h.outbox⟩

theorem finish (h : Hands cfg P c) : Hands cfg P c.finish := ⟨h.socket, h.address, h.outbox⟩

/-- More is handed over, for the client. -/
theorem outbox_append (h : Hands cfg P c) {raws : Outbox}
    (hraws : ∀ o ∈ raws, P o.1 ∧ o.2 = cfg.clientAddress) :
    ∀ o ∈ c.outbox ++ raws, P o.1 ∧ o.2 = cfg.clientAddress := by
  intro o ho
  exact (List.mem_append.mp ho).elim (h.outbox o) (hraws o)

theorem handed (h : Hands cfg P c) {raw : Bytes} (hraw : P raw) : Hands cfg P (c.handed cfg raw) := by
  refine ⟨fun _ hr ↦ Option.some.inj hr ▸ hraw, fun _ ha ↦ (Option.some.inj ha).symm, ?_⟩
  refine h.outbox_append fun o ho ↦ ?_
  rw [List.mem_singleton.mp ho]
  exact ⟨hraw, rfl⟩

theorem retransmission (h : Hands cfg P c) :
    ∀ o ∈ c.socket.retransmission, P o.1 ∧ o.2 = cfg.clientAddress := by
  intro o ho
  refine ⟨SocketSaw.retransmission_all h.socket o ho, ?_⟩
  unfold SocketSaw.retransmission at ho
  split at ho
  · rename_i raw a _ ha
    rw [List.mem_singleton.mp ho]
    exact h.address a ha
  · cases ho

theorem retransmit (h : Hands cfg P c) (b : Bool) : Hands cfg P (c.retransmit b) := by
  refine ⟨h.socket, h.address, h.outbox_append ?_⟩
  cases b with
  | false => exact fun _ ho ↦ (by cases ho)
  | true => exact h.retransmission

theorem send (hP : Composes P) (h : Hands cfg P c) (isAck isFin : Bool) (data : Bytes) :
    Keeps (Hands cfg P) (fun _ ↦ True) (ClientConnection.send cfg c isAck isFin data) := by
  rw [ClientConnection.send_eq_encode]
  split
  · exact h
  · rename_i raw hraw
    exact ⟨h.handed (hP _ _ _ _ _ _ _ _ hraw), trivial⟩

theorem fileCleanupAfterError (h : Hands cfg P c) :
    Hands cfg P (ClientConnection.fileCleanupAfterError cfg c) := by
  unfold ClientConnection.fileCleanupAfterError
  split
  · exact ⟨h.socket, h.address, h.outbox⟩
  · exact h

/-! ### The steps of an upload -/

theorem receiveFileInfoForUpload (h : Hands cfg P c) :
    Sends cfg P (ClientConnection.receiveFileInfoForUpload now c) :=
  ⟨h.stepSequence.stepAck.block _ now, trivial⟩

theorem onFilenameForUpload (hP : Composes P) (h : Hands cfg P c) (r : SequenceNumber × String) :
    Sends cfg P (ClientConnection.onFilenameForUpload cfg now c r) := by
  unfold ClientConnection.onFilenameForUpload
  dsimp only
  split
  · refine (send hP ?_ true false _).bind fun _ h₁ _ ↦ ⟨h₁.stepSequence.block _ now, trivial⟩
    exact ⟨h.socket, h.address, h.outbox⟩
  · split <;> exact ⟨h.socket, h.address, h.outbox⟩

theorem startReception (h : Hands cfg P c) :
    Hands cfg P (ClientConnection.startReception cfg now c) ∧
      HandsAt P (ClientConnection.startReception cfg now c) := by
  unfold ClientConnection.startReception
  split
  · exact ⟨⟨fun _ hr ↦ (by cases hr), fun _ ha ↦ (by cases ha), h.outbox⟩, h.socket⟩
  · exact ⟨h.stepSequence.block _ now, trivial⟩

theorem onFilesize (hP : Composes P) (h : Hands cfg P c) (filename : String)
    (r : SequenceNumber × Nat) :
    Sends cfg P (ClientConnection.onFilesize cfg now filename c r) := by
  unfold ClientConnection.onFilesize
  dsimp only
  split
  · refine (send hP ?_ true false _).bind fun _ h₁ _ ↦ startReception ?_
    · exact ⟨h.socket, h.address, h.outbox⟩
    · exact ⟨h₁.socket, h₁.address, h₁.outbox⟩
  · exact ⟨h.socket, h.address, h.outbox⟩

theorem appendToFile (h : Hands cfg P c) (packet : Packet) :
    Hands cfg P (ClientConnection.appendToFile cfg c packet) := by
  unfold ClientConnection.appendToFile
  split
  · exact ⟨h.socket, h.address, h.outbox⟩
  · exact h

theorem appendTaken (h : Hands cfg P c) (taken : Option Packet) :
    Hands cfg P (ClientConnection.appendTaken cfg c taken) := by
  cases taken with
  | none => exact h
  | some packet => exact h.appendToFile packet

theorem closeWritten (h : Hands cfg P c) : Hands cfg P c.closeWritten := by
  unfold ClientConnection.closeWritten
  split
  · exact ⟨h.socket, h.address, h.outbox⟩
  · exact h

theorem closingHandshakeForUpload (hP : Composes P) (h : Hands cfg P c) :
    Sends cfg P (ClientConnection.closingHandshakeForUpload cfg now c) := by
  have hclosing : Sends cfg P (do
      let c ← sendAck cfg (c.report .connectionFinalizationReceived)
      let c ← sendFin cfg c
      return c.stepSequence.block .closingHandshakeForUpload now) :=
    ((h.report _).send hP true false _).bind fun _ h₁ _ ↦ (h₁.send hP false true _).bind
      fun _ h₂ _ ↦ ⟨h₂.stepSequence.block _ now, trivial⟩
  unfold ClientConnection.closingHandshakeForUpload finallyDone
  split
  · rename_i hok
    rwa [hok] at hclosing
  · rename_i e c₁ herror
    rw [herror] at hclosing
    exact ⟨hclosing.socket, hclosing.address, hclosing.outbox⟩

theorem onClosingUpload (h : Hands cfg P c) (r : Except Exn Unit) :
    Sends cfg P (ClientConnection.onClosingUpload cfg c r) := by
  cases r with
  | ok u => exact ⟨⟨h.socket, h.address, h.outbox⟩, trivial⟩
  | error e =>
      unfold ClientConnection.onClosingUpload
      dsimp only
      split
      · exact ⟨⟨h.socket, h.address, h.outbox⟩, trivial⟩
      · exact ⟨h.socket, h.address, h.outbox⟩

/-- The last chunk is not acknowledged. -/
theorem acknowledge (hP : Composes P) (h : Hands cfg P c) (isFin : Bool)
    {k : ClientConnection → Exec} (hk : ∀ c', Hands cfg P c' → Sends cfg P (k c')) :
    Sends cfg P (if isFin then .ok c >>= k else ClientConnection.sendAck cfg c >>= k) := by
  split
  · exact hk c h
  · exact (h.send hP true false _).bind fun c' h' _ ↦ hk c' h'

theorem onFileChunk (hP : Composes P) (h : Hands cfg P c) (r : SequenceNumber × Packet) :
    Sends cfg P (ClientConnection.onFileChunk cfg now c r) := by
  refine acknowledge (c := { c with sequenceNumber := r.1 }) hP ⟨h.socket, h.address, h.outbox⟩
    r.2.isFin fun c₁ h₁ ↦ ?_
  have h₂ : Hands cfg P (ClientConnection.appendToFile cfg c₁ r.2) := h₁.appendToFile r.2
  dsimp only
  split
  · exact h₂.closeWritten.closingHandshakeForUpload hP
  · exact ⟨h₂.stepSequence.block _ now, trivial⟩

theorem sendReply (hP : Composes P) (h : Hands cfg P c) {receiver : GoBackNReceiver}
    (hr : receiver.Hands P) (reply : GoBackNReceiver.Reply) :
    Keeps (Hands cfg P) (fun _ ↦ True) (ClientConnection.sendReply cfg receiver c reply) := by
  cases reply with
  | sendAck n ack =>
      unfold ClientConnection.sendReply
      dsimp only
      split
      · exact h
      · rename_i raw hraw
        refine ⟨⟨h.socket, h.address, h.outbox_append fun o ho ↦ ?_⟩, trivial⟩
        rw [List.mem_singleton.mp ho]
        exact ⟨hP _ _ _ _ _ _ _ _ hraw, rfl⟩
  | resendLast =>
      refine ⟨⟨h.socket, h.address, h.outbox_append fun o ho ↦ ?_⟩, trivial⟩
      obtain ⟨raw, hraw, rfl⟩ := Option.map_eq_some_iff.mp (Option.mem_toList.mp ho)
      exact ⟨hr raw hraw, rfl⟩

theorem sendReplies (hP : Composes P) {receiver : GoBackNReceiver} (hr : receiver.Hands P)
    (replies : List GoBackNReceiver.Reply) (h : Hands cfg P c) :
    Keeps (Hands cfg P) (fun _ ↦ True)
      (replies.foldlM (ClientConnection.sendReply cfg receiver) c) := by
  induction replies generalizing c with
  | nil => exact ⟨h, trivial⟩
  | cons reply replies ih =>
      rw [List.foldlM_cons]
      exact (h.sendReply hP hr reply).bind fun c₁ h₁ _ ↦ ih h₁

theorem onGbnPacket (hP : Composes P) (h : Hands cfg P c) {receiver : GoBackNReceiver}
    (hr : receiver.Hands P) (packet : Packet) :
    Sends cfg P (ClientConnection.onGbnPacket cfg now receiver c packet) := by
  unfold ClientConnection.onGbnPacket
  refine (sendReplies hP hr (receiver.onPacket packet).replies h).bind fun c₁ h₁ _ ↦ ?_
  let c₂ : ClientConnection := { c₁ with
    sequenceNumber := (receiver.onPacket packet).receiver.sqnNumber
    ackNumber := some (receiver.onPacket packet).receiver.ackNumber
    point := .receiveFileGbn (receiver.onPacket packet).receiver }
  have hc₂ : Hands cfg P c₂ := ⟨h₁.socket, h₁.address, h₁.outbox⟩
  have h₂ : Hands cfg P (ClientConnection.appendTaken cfg c₂ (receiver.onPacket packet).appended) :=
    hc₂.appendTaken _
  dsimp only
  split
  · exact h₂.closeWritten.closingHandshakeForUpload hP
  · refine ⟨h₂, ?_⟩
    unfold HandsAt
    rw [point_appendTaken]
    exact hr.onPacket packet

theorem listenReceiver (hP : Composes P) (h : Hands cfg P c) {receiver : GoBackNReceiver}
    (hr : receiver.Hands P) (hp : HandsAt P c) (ev : Event) :
    Sends cfg P (ClientConnection.listenReceiver cfg receiver c ev) := by
  unfold ClientConnection.listenReceiver
  split
  · exact ⟨h, hp⟩
  · split <;> exact h
  · split
    · exact h
    · exact h.onGbnPacket hP hr _

/-! ### The steps of a download -/

theorem completeDownload (hP : Composes P) (h : Hands cfg P c) :
    Sends cfg P (ClientConnection.completeDownload cfg c) := by
  refine ((h.report _).stepSequence.send hP true false _).bind fun c₁ h₁ _ ↦ ⟨?_, trivial⟩
  exact ⟨h₁.socket, h₁.address, h₁.outbox⟩

theorem closingHandshakeForDownload (hP : Composes P) (h : Hands cfg P c)
    (alreadyReceivedFinBack : Bool) :
    Sends cfg P (ClientConnection.closingHandshakeForDownload cfg now alreadyReceivedFinBack c) := by
  unfold ClientConnection.closingHandshakeForDownload
  split
  · exact h.completeDownload hP
  · exact ⟨h.block _ now, trivial⟩

theorem transmitFile (hP : Composes P) (totalChunks : Nat) (chunks : List Bytes) (chunkNumber : Nat)
    (isFirstChunk : Bool) (h : Hands cfg P c) :
    Sends cfg P (ClientConnection.transmitFile cfg now totalChunks chunks chunkNumber isFirstChunk
      c) := by
  induction chunks generalizing chunkNumber isFirstChunk c with
  | nil => exact h.closingHandshakeForDownload hP false
  | cons chunk remaining ih =>
      have hstepped : Hands cfg P (if isFirstChunk then c else c.stepSequence) := by
        split
        · exact h
        · exact h.stepSequence
      refine (hstepped.send hP _ _ _).bind fun c₁ h₁ _ ↦ ?_
      split
      · exact ih (chunkNumber + 1) false h₁
      · exact ⟨h₁.block _ now, trivial⟩

theorem sendFirstPacket (hP : Composes P) (h : Hands cfg P c) (file : File) :
    Sends cfg P (ClientConnection.sendFirstPacket cfg now file c) := by
  unfold ClientConnection.sendFirstPacket
  refine (send hP ?_ true _ _).bind fun c₁ h₁ _ ↦ ?_
  · exact ⟨h.socket, h.address, h.outbox⟩
  · split
    · exact h₁.closingHandshakeForDownload hP false
    · exact ⟨h₁.block _ now, trivial⟩

theorem onFilenameForDownload (hP : Composes P) (h : Hands cfg P c) (r : SequenceNumber × String) :
    Sends cfg P (ClientConnection.onFilenameForDownload cfg now c r) := by
  unfold ClientConnection.onFilenameForDownload
  dsimp only
  split
  · split
    · refine transmitFile hP _ _ _ _ ?_
      exact ⟨h.socket, h.address, h.outbox⟩
    · refine sendFirstPacket hP ?_ _
      exact ⟨h.socket, h.address, h.outbox⟩
  · split
    · refine (send hP ?_ false true _).bind fun c₁ h₁ _ ↦ ?_
      · exact ⟨h.socket, h.address, h.outbox⟩
      · exact ⟨h₁.socket, h₁.address, h₁.outbox⟩
    · exact ⟨h.socket, h.address, h.outbox⟩

theorem onSender (hP : Composes P) (h : Hands cfg P c) {r : GoBackNSender.Result}
    (hr : r.Hands P) : Sends cfg P (ClientConnection.onSender cfg now c r) := by
  cases r with
  | running s sent =>
      refine ⟨⟨h.socket, h.address, h.outbox_append fun o ho ↦ ?_⟩, hr.1⟩
      obtain ⟨raw, hraw, rfl⟩ := Option.map_eq_some_iff.mp (Option.mem_toList.mp ho)
      exact ⟨hr.2 raw hraw, rfl⟩
  | returned s =>
      refine closingHandshakeForDownload hP ?_ s.alreadyReceivedFinBack
      exact ⟨hr.lastRawPacket, fun _ ha ↦ (Option.some.inj ha).symm, h.outbox⟩
  | raised e => exact h

theorem onFirstPacketAck (hP : Composes P) (h : Hands cfg P c) (hp : HandsAt P c) :
    Sends cfg P (ClientConnection.onFirstPacketAck cfg now c) := by
  unfold ClientConnection.onFirstPacketAck
  split
  · refine onSender hP ?_ ((GoBackNSender.hands_initServer _ _ _).loop false)
    exact ⟨fun _ hr ↦ (by cases hr), fun _ ha ↦ (by cases ha), h.outbox⟩
  · exact ⟨h, hp⟩

theorem listenSender (hP : Composes P) (h : Hands cfg P c) {sender : GoBackNSender}
    (hs : sender.Hands P) (hp : HandsAt P c) (ev : Event) :
    Sends cfg P (ClientConnection.listenSender cfg sender c ev) := by
  unfold ClientConnection.listenSender
  split
  · split
    · exact ⟨h, hp⟩
    · exact h.onSender hP (hs.awaitAckPhaseServer _ _)
  · split
    · exact h.onSender hP (hs.proceed hP cfg.address.port _)
    · exact ⟨h, hp⟩

/-- One event in a wrapped receive, whose exceptions are left alone -/
theorem listen {α : Type} (h : Hands cfg P c) (hp : HandsAt P c) (op : Operation α) (ev : Event)
    {k : ClientConnection → α → Exec} (hk : ∀ a, Sends cfg P (k c a)) :
    Sends cfg P (ClientConnection.listen c op ev (onSuccess k)) := by
  unfold ClientConnection.listen
  split
  · rename_i r b _
    have hb := h.retransmit b
    exact ⟨⟨hb.socket, hb.address, hb.outbox⟩, hp⟩
  · exact hk _
  · exact h.retransmit _

end Hands

/-! ## Steps -/

/-- What the connection has handed over, and what it would repeat where it is -/
structure Emits (cfg : Config) (P : Bytes → Prop) (c : ClientConnection) : Prop
    extends Hands cfg P c where
  at_point : HandsAt P c

variable {x : Exec}

theorem Sends.swallow (h : Sends cfg P x) : Emits cfg P (ClientConnection.swallow x) := by
  cases x with
  | ok c => exact ⟨h.1, h.2⟩
  | error x => exact ⟨Hands.finish h, trivial⟩

theorem emits_initiateCloseConnection (hP : Composes P) (h : Hands cfg P c) :
    Emits cfg P (initiateCloseConnection cfg now c) :=
  Sends.swallow ((h.stepSequence.stepAck.send hP false true _).bind fun _ h₁ _ ↦
    ⟨h₁.block _ now, trivial⟩)

theorem Sends.handle (hP : Composes P) (h : Sends cfg P x) :
    Emits cfg P (ClientConnection.handle cfg now x) := by
  cases x with
  | ok c => exact ⟨h.1, h.2⟩
  | error x =>
      have h : Hands cfg P x.2 := h
      unfold ClientConnection.handle
      dsimp only
      split
      · exact emits_initiateCloseConnection hP h
      · split
        · exact ⟨h.finish, trivial⟩
        · refine ⟨(Hands.fileCleanupAfterError ?_).finish, trivial⟩
          exact ⟨h.socket, h.address, h.outbox⟩

/-- One case per point. -/
theorem Emits.onEvent (hP : Composes P) (h : Emits cfg P c) (ev : Event) :
    Sends cfg P (onEvent cfg c ev) := by
  have hp := h.at_point
  unfold ClientConnection.onEvent
  cases hpoint : c.point with
  | receiveFilenameForUpload => exact h.listen hp _ ev fun r ↦ h.onFilenameForUpload hP r
  | receiveFilesize filename => exact h.listen hp _ ev fun r ↦ h.onFilesize hP filename r
  | receiveFileChunk => exact h.listen hp _ ev fun r ↦ h.onFileChunk hP r
  | receiveFileGbn receiver =>
      have hr : receiver.Hands P := by
        unfold HandsAt at hp
        rwa [hpoint] at hp
      exact h.toHands.listenReceiver hP hr h.at_point ev
  | closingHandshakeForUpload =>
      dsimp only
      unfold ClientConnection.listen
      split
      · rename_i r b _
        have hb := h.retransmit b
        exact ⟨⟨hb.socket, hb.address, hb.outbox⟩, hp⟩
      · exact h.onClosingUpload _
      · exact (h.retransmit _).onClosingUpload _
  | initiateCloseConnection =>
      exact h.listen hp _ ev fun _ ↦ (h.stepSequence.stepAck.send hP true false _).bind
        fun _ h₁ _ ↦ ⟨h₁.finish, trivial⟩
  | receiveFilenameForDownload => exact h.listen hp _ ev fun r ↦ h.onFilenameForDownload hP r
  | waitForChunkAck remaining chunkNumber totalChunks =>
      exact h.listen hp _ ev fun _ ↦ h.transmitFile hP totalChunks remaining chunkNumber false
  | waitForFirstPacketAck => exact h.listen hp _ ev fun _ ↦ h.onFirstPacketAck hP hp
  | sendFileGbn sender =>
      have hs : sender.Hands P := by
        unfold HandsAt at hp
        rwa [hpoint] at hp
      exact h.toHands.listenSender hP hs h.at_point ev
  | closingHandshakeForDownload => exact h.listen hp _ ev fun _ ↦ h.completeDownload hP
  | ended => exact ⟨h.toHands, hp⟩

/-- Whatever arrives, the connection keeps to it. -/
theorem Emits.step (hP : Composes P) (h : Emits cfg P c) (ev : Event) :
    Emits cfg P (ClientConnection.step cfg c ev) := by
  have hclear : Emits cfg P { c with outbox := [] } :=
    ⟨⟨h.socket, h.address, fun _ ho ↦ (by cases ho)⟩, h.at_point⟩
  unfold ClientConnection.step
  dsimp only
  split
  · exact Sends.swallow (hclear.onEvent hP ev)
  · exact Sends.handle hP (hclear.onEvent hP ev)

theorem sends_processOperationIntention (hP : Composes P) (h : Hands cfg P c) :
    Sends cfg P (processOperationIntention cfg now c) := by
  have answered : ∀ {state} {k : ClientConnection → Exec}, (∀ c', Hands cfg P c' → Sends cfg P (k c')) →
      Sends cfg P (sendAck cfg { c with state } >>= k) := by
    intro state k hk
    refine (Hands.send hP ?_ true false _).bind fun c₁ h₁ _ ↦ hk c₁ h₁
    exact ⟨h.socket, h.address, h.outbox⟩
  unfold processOperationIntention
  split
  · exact h
  · split
    · exact answered fun c' h' ↦ h'.receiveFileInfoForUpload
    · exact answered fun c' h' ↦ ⟨h'.stepSequence.block _ now, trivial⟩

/-- A thread begins by answering the operation. -/
theorem emits_start (hP : Composes P) (cfg : Config) (disk : Disk) (now : Time) :
    Emits cfg P (start cfg disk now) := by
  have hinit : Hands cfg P (init cfg disk now) :=
    ⟨fun _ hr ↦ (by cases hr), fun _ ha ↦ (by cases ha), fun _ ho ↦ (by cases ho)⟩
  unfold start
  dsimp only
  split
  · exact (sends_processOperationIntention hP hinit).handle hP
  · split
    · exact ⟨hinit, trivial⟩
    · refine (sends_processOperationIntention hP ?_).handle hP
      exact ⟨hinit.socket, hinit.address, hinit.outbox⟩

end Rdt.Server.ClientConnection
