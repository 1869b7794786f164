import Mathlib.Data.List.Forall2
import Rdt.Client.Client
import Rdt.Server.Storage

/-!
# Source addresses

Every receive asks whether a datagram has a source address, and none of those of an
established connection asks which.
-/

namespace Rdt

open PacketParser

/-- The same event, but for the source of a datagram. -/
inductive SameButSource : Event → Event → Prop
  | datagram (raw : Bytes) (A B : Address) (now : Time) :
      SameButSource (.datagram raw (some A) now) (.datagram raw (some B) now)
  | refl (ev : Event) : SameButSource ev ev

/-- The check of an operation looks at the source only for being there. -/
def Operation.Blind {α : Type} (op : Operation α) : Prop :=
  ∀ raw A B, op.check raw (some A) = op.check raw (some B)

theorem SameButSource.now {ev ev' : Event} (h : SameButSource ev ev') : ev.now = ev'.now := by
  cases h <;> rfl

theorem Operation.Blind.reListen {α : Type} {op : Operation α} (h : op.Blind) (s : SocketSaw)
    (r : ReListen) {ev ev' : Event} (he : SameButSource ev ev') :
    reListenIfFailed op s r ev = reListenIfFailed op s r ev' := by
  cases he with
  | datagram raw A B now => simp only [reListenIfFailed, ReListen.recvfrom, h _ A B, Event.now]
  | refl => rfl

section Blind

variable {α β : Type} {x y : Except Exn (Packet × Address)}

/-- What goes on from the packet alone does not depend on the address. -/
theorem bind_blind {f : Packet × Address → Except Exn α} (h : x.map Prod.fst = y.map Prod.fst)
    (hf : ∀ p A B, f (p, A) = f (p, B)) : x >>= f = y >>= f := by
  cases x with
  | error e => cases y <;> simp_all [Except.map, bind, Except.bind]
  | ok r =>
      cases y with
      | error e => simp [Except.map] at h
      | ok r' =>
          obtain ⟨p, A⟩ := r
          obtain ⟨p', B⟩ := r'
          obtain rfl : p = p' := Except.ok.inj h
          exact hf p A B

theorem map_bind_blind {f : Packet × Address → Except Exn α} {g : α → β}
    (h : x.map Prod.fst = y.map Prod.fst) (hf : ∀ p A B, (f (p, A)).map g = (f (p, B)).map g) :
    (x >>= f).map g = (y >>= f).map g := by
  have hmap : ∀ z : Except Exn (Packet × Address), (z >>= f).map g = z >>= fun r ↦ (f r).map g := by
    intro z
    cases z <;> rfl
  rw [hmap, hmap]
  exact bind_blind h hf

end Blind

namespace ServerProtocol

theorem validateInboundAck_source (raw : Bytes) (A B : Address) :
    (validateInboundAck raw (some A)).map Prod.fst = (validateInboundAck raw (some B)).map Prod.fst := by
  refine map_bind_blind (Protocol.validateInboundPacket_source _ raw A B) fun p A B ↦ ?_
  dsimp only
  cases Protocol.validateAck ExnClass.messageIsNotAck.exn p with
  | error e => rfl
  | ok u => cases p.isFin <;> rfl

theorem receiveFilename_blind (version : ProtocolType) (n : SequenceNumber) :
    (receiveFilename version n).Blind := fun raw A B ↦
  bind_blind (Protocol.validateInboundPacket_source _ raw A B) fun _ _ _ ↦ rfl

theorem receiveFilesize_blind (version : ProtocolType) (n : SequenceNumber) :
    (receiveFilesize version n).Blind := fun raw A B ↦
  bind_blind (Protocol.validateInboundPacket_source _ raw A B) fun _ _ _ ↦ rfl

theorem receiveFileChunk_blind (version : ProtocolType) (n : SequenceNumber) :
    (receiveFileChunk version n).Blind := fun raw A B ↦
  bind_blind (Protocol.validateInboundPacket_source _ raw A B) fun _ _ _ ↦ rfl

theorem waitForAck_blind (n : SequenceNumber) (es : List ExnClass) :
    ((waitForAck n).letThrough es).Blind := fun raw A B ↦
  bind_blind (validateInboundAck_source raw A B) fun _ _ _ ↦ rfl

theorem waitForFinOrAck_blind (n : SequenceNumber) : (waitForFinOrAck n).Blind := fun raw A B ↦
  bind_blind (Protocol.validateInboundPacket_source _ raw A B) fun _ _ _ ↦ rfl

end ServerProtocol

namespace ServerProtocolGbn

theorem receiveFileChunk_source (raw : Bytes) (A B : Address) :
    receiveFileChunk raw (some A) = receiveFileChunk raw (some B) :=
  Protocol.validateInboundPacket_source _ raw A B

theorem validateInboundAck_source (n : SequenceNumber) (raw : Bytes) (A B : Address) :
    (validateInboundAck raw (some A) n).map Prod.fst =
      (validateInboundAck raw (some B) n).map Prod.fst := by
  refine map_bind_blind (Protocol.validateInboundPacket_source _ raw A B) fun p A B ↦ ?_
  dsimp only
  cases Protocol.validateAck (ExnClass.messageIsNotAck.carrying p) p with
  | error e => rfl
  | ok u =>
      simp only [bind, Except.bind]
      cases validateAckNumber p n <;> rfl

theorem waitForAck_source (n : SequenceNumber) (raw : Bytes) (A B : Address) :
    waitForAck n raw (some A) = waitForAck n raw (some B) := by
  unfold waitForAck
  rw [bind_blind (validateInboundAck_source n raw A B)]
  exact fun _ _ _ ↦ rfl

end ServerProtocolGbn

namespace ClientProtocol

theorem validateConfirmation_source (n : SequenceNumber) (ack : Option SequenceNumber) (raw : Bytes)
    (A B : Address) :
    (validateConfirmation n ack raw (some A)).map Prod.fst =
      (validateConfirmation n ack raw (some B)).map Prod.fst := by
  have hack : (validateInboundAck raw (some A) ack).map Prod.fst =
      (validateInboundAck raw (some B) ack).map Prod.fst := by
    refine map_bind_blind (Protocol.validateInboundPacket_source _ raw A B) fun p A B ↦ ?_
    dsimp only
    cases Protocol.validateAck ExnClass.messageIsNotAck.exn p with
    | error e => rfl
    | ok u =>
        cases ack with
        | none => rfl
        | some m =>
            simp only [bind, Except.bind]
            cases validateAckNumber p m <;> rfl
  refine map_bind_blind hack fun p A B ↦ ?_
  dsimp only
  cases Protocol.validateNotFin p with
  | error e => rfl
  | ok u =>
      simp only [bind, Except.bind]
      cases validateSequenceNumber p n <;> rfl

theorem waitForOperationConfirmation_blind (n : SequenceNumber) (ack : Option SequenceNumber)
    (es : List ExnClass) : ((waitForOperationConfirmation n ack).letThrough es).Blind :=
  fun raw A B ↦ validateConfirmation_source n ack raw A B

theorem waitForAck_blind (n : SequenceNumber) (ack : Option SequenceNumber) (es : List ExnClass) :
    ((waitForAck n ack).letThrough es).Blind :=
  fun raw A B ↦ validateConfirmation_source n ack raw A B

theorem receiveFileChunkSaw_blind (version : ProtocolType) (n : SequenceNumber) :
    (receiveFileChunkSaw version n).Blind := fun raw A B ↦
  bind_blind (Protocol.validateInboundPacket_source _ raw A B) fun _ _ _ ↦ rfl

theorem waitForFinOrAck_blind (n : SequenceNumber) (ack : Option SequenceNumber) (es : List ExnClass) :
    ((waitForFinOrAck n ack).letThrough es).Blind := fun raw A B ↦
  bind_blind (Protocol.validateInboundPacket_source _ raw A B) fun _ _ _ ↦ rfl

end ClientProtocol

namespace ClientProtocolGbn

theorem receiveFileChunk_source (raw : Bytes) (A B : Address) :
    receiveFileChunk raw (some A) = receiveFileChunk raw (some B) :=
  Protocol.validateInboundPacket_source _ raw A B

theorem waitForAck_source (raw : Bytes) (A B : Address) :
    waitForAck raw (some A) = waitForAck raw (some B) :=
  bind_blind (Protocol.validateInboundPacket_source _ raw A B) fun _ _ _ ↦ rfl

end ClientProtocolGbn

/-! ## Connections -/

namespace Server.ClientConnection

open ServerProtocol

variable {cfg : Config} {c : ClientConnection} {ev ev' : Event}

theorem listen_source {α : Type} {op : Operation α} {k k' : ClientConnection → Except Exn α → Exec}
    (h : op.Blind) (he : SameButSource ev ev') (hk : k = k') : listen c op ev k = listen c op ev' k' := by
  unfold listen
  rw [h.reListen c.socket c.listening he, hk]

theorem listenReceiver_source (receiver : GoBackNReceiver) (he : SameButSource ev ev') :
    listenReceiver cfg receiver c ev = listenReceiver cfg receiver c ev' := by
  cases he with
  | datagram raw A B now =>
      simp only [listenReceiver, SocketGbn.recvfrom, ServerProtocolGbn.receiveFileChunk_source _ A B,
        Event.now]
  | refl => rfl

theorem listenSender_source (sender : GoBackNSender) (he : SameButSource ev ev') :
    listenSender cfg sender c ev = listenSender cfg sender c ev' := by
  cases he with
  | datagram raw A B now =>
      unfold listenSender
      split
      · simp only [SocketGbn.recvfrom, Except.bind, ServerProtocolGbn.waitForAck_source _ _ A B,
          Event.now]
      · rfl
  | refl => rfl

theorem onEvent_source (he : SameButSource ev ev') : onEvent cfg c ev = onEvent cfg c ev' := by
  have hnow := he.now
  unfold onEvent
  cases c.point with
  | receiveFilenameForUpload => exact listen_source (receiveFilename_blind _ _) he (by rw [hnow])
  | receiveFilesize filename => exact listen_source (receiveFilesize_blind _ _) he (by rw [hnow])
  | receiveFileChunk => exact listen_source (receiveFileChunk_blind _ _) he (by rw [hnow])
  | receiveFileGbn receiver => exact listenReceiver_source receiver he
  | closingHandshakeForUpload => exact listen_source (waitForAck_blind _ _) he rfl
  | initiateCloseConnection => exact listen_source (waitForFinOrAck_blind _) he rfl
  | receiveFilenameForDownload => exact listen_source (receiveFilename_blind _ _) he (by rw [hnow])
  | waitForChunkAck remaining chunkNumber totalChunks =>
      exact listen_source (waitForAck_blind _ []) he (by rw [hnow])
  | waitForFirstPacketAck => exact listen_source (waitForAck_blind _ []) he (by rw [hnow])
  | sendFileGbn sender => exact listenSender_source sender he
  | closingHandshakeForDownload => exact listen_source (waitForFinOrAck_blind _) he rfl
  | ended => rfl

theorem step_source (he : SameButSource ev ev') : step cfg c ev = step cfg c ev' := by
  unfold step
  dsimp only
  rw [onEvent_source he, he.now]

end Server.ClientConnection

/-! ## Clients -/

namespace Client

open ClientProtocol

variable {cfg : Config} {c : Client} {ev ev' : Event}

theorem listen_source {α : Type} {op : Operation α} {k k' : Client → Except Exn α → Exec}
    (h : op.Blind) (he : SameButSource ev ev') (hk : k = k') : listen c op ev k = listen c op ev' k' := by
  unfold listen
  rw [h.reListen c.socket c.listening he, hk]

theorem listenReceiver_source (receiver : GoBackNReceiver) (he : SameButSource ev ev') :
    listenReceiver cfg receiver c ev = listenReceiver cfg receiver c ev' := by
  cases he with
  | datagram raw A B now =>
      simp only [listenReceiver, ClientProtocolGbn.receiveFileChunk_source _ A B]
  | refl => rfl

theorem listenSender_source (sender : GoBackNSender) (he : SameButSource ev ev') :
    listenSender cfg sender c ev = listenSender cfg sender c ev' := by
  cases he with
  | datagram raw A B now =>
      unfold listenSender
      split
      · simp only [SocketGbn.recvfrom, Except.bind, ClientProtocolGbn.waitForAck_source _ A B,
          Event.now]
      · rfl
  | refl => rfl

variable (cfg) in
theorem onEvent_source (hp : c.point ≠ .handshake) (he : SameButSource ev ev') :
    onEvent cfg c ev = onEvent cfg c ev' := by
  have hnow := he.now
  unfold onEvent
  cases h : c.point with
  | handshake => exact absurd h hp
  | sendOperationIntention serverAddress =>
      exact listen_source (waitForOperationConfirmation_blind _ _ _) he (by rw [hnow])
  | informFilename | informFilesize | informNameToDownload =>
      exact listen_source (waitForAck_blind _ _ _) he (by rw [hnow])
  | sendFileSaw remaining chunkNumber totalChunks =>
      exact listen_source (waitForAck_blind _ _ []) he (by rw [hnow])
  | sendFileGbn sender => exact listenSender_source sender he
  | initiateCloseConnection => exact listen_source (waitForFinOrAck_blind _ _ []) he rfl
  | receiveFileSaw => exact listen_source (receiveFileChunkSaw_blind _ _) he (by rw [hnow])
  | receiveFileGbn receiver => exact listenReceiver_source receiver he
  | handleConnectionFinalization caller =>
      exact listen_source (waitForFinOrAck_blind _ _ _) he (by rw [hnow])
  | ended => rfl

theorem step_source (hp : c.point ≠ .handshake) (he : SameButSource ev ev') :
    step cfg c ev = step cfg c ev' := by
  have hev := onEvent_source cfg (c := { c with outbox := [] }) hp he
  unfold step
  dsimp only
  rw [hev, he.now]

/-! ### The handshake is halted for good -/

/-- A stretch of the thread after the handshake. -/
def Past : Exec → Prop
  | .ok c => c.point ≠ .handshake
  | .error (_, c) => c.point ≠ .handshake

theorem past_send {isAck isSyn isFin : Bool} {port : UInt16} {data : Bytes} {k : Client → Exec}
    (h : c.point ≠ .handshake) (hk : ∀ c', c'.point ≠ .handshake → Past (k c')) :
    Past (send cfg c isAck isSyn isFin port data >>= k) := by
  rcases send_cases cfg c isAck isSyn isFin port data with ⟨e, -, heq⟩ | ⟨raw, -, heq | heq⟩
  · rw [heq]
    exact h
  · rw [heq]
    exact hk _ h
  · rw [heq]
    exact h

theorem past_informFilename (h : c.point ≠ .handshake) (now : Time) {point : Point}
    (hpoint : point ≠ .handshake) (name : String) : Past (informFilename cfg now point name c) :=
  past_send h fun _ _ ↦ hpoint

theorem past_informName (h : c.point ≠ .handshake) (now : Time) : Past (informName cfg now c) := by
  unfold informName
  split
  · exact past_informFilename h now (fun h ↦ by cases h) _
  · exact past_informFilename h now (fun h ↦ by cases h) _

theorem past_finalized (h : c.point ≠ .handshake) (now : Time) (caller : Finalization) :
    Past (finalized cfg now caller c) := by
  cases caller with
  | sendOperationIntention => exact past_informName h now
  | performDownload => exact nofun
  | exceptClause => exact nofun

theorem past_handleConnectionFinalization (h : c.point ≠ .handshake) (now : Time)
    (caller : Finalization) : Past (handleConnectionFinalization cfg now caller c) := by
  have hsent : Past (sendFinalization cfg now caller c) :=
    past_send h fun _ h ↦ past_send h fun _ _ ↦ nofun
  unfold handleConnectionFinalization
  generalize sendFinalization cfg now caller c = x at hsent
  cases x with
  | ok c' => exact hsent
  | error x =>
      dsimp only
      split
      · exact past_finalized hsent now caller
      · exact hsent

theorem past_informFilesize (h : c.point ≠ .handshake) (now : Time) :
    Past (informFilesize cfg now c) := by
  unfold informFilesize
  dsimp only
  split
  · exact past_send h fun _ _ ↦ nofun
  · exact h

theorem past_completeUpload (h : c.point ≠ .handshake) : Past (completeUpload cfg c) :=
  past_send h fun _ _ ↦ nofun

theorem past_initiateCloseConnection (h : c.point ≠ .handshake) (now : Time) (fin : Bool) :
    Past (initiateCloseConnection cfg now fin c) := by
  unfold initiateCloseConnection
  split
  · exact past_completeUpload h
  · exact nofun

theorem past_sendFileSaw (h : c.point ≠ .handshake) (now : Time) (total : Nat) (chunks : List Bytes)
    (number : Nat) : Past (sendFileSaw cfg now total chunks number c) := by
  induction chunks generalizing c number with
  | nil =>
      refine past_initiateCloseConnection ?_ now false
      exact h
  | cons chunk chunks ih =>
      refine past_send h fun c' h' ↦ ?_
      split
      · exact ih h' _
      · exact nofun

theorem past_onSender (h : c.point ≠ .handshake) (now : Time) (result : GoBackNSender.Result) :
    Past (onSender cfg now c result) := by
  unfold onSender
  split
  · exact nofun
  · refine past_initiateCloseConnection ?_ now _
    exact h
  · exact h

theorem past_sendFile (h : c.point ≠ .handshake) (now : Time) : Past (sendFile cfg now c) := by
  unfold sendFile
  split
  · refine past_onSender ?_ now _
    exact h
  · exact past_sendFileSaw h now _ _ _

theorem past_listenSender (h : c.point ≠ .handshake) (sender : GoBackNSender) (ev : Event) :
    Past (listenSender cfg sender c ev) := by
  unfold listenSender
  split
  · split
    · exact h
    · exact past_onSender h _ _
  · split
    · exact past_onSender h _ _
    · exact h

theorem past_completeDownload (h : c.point ≠ .handshake) (now : Time) :
    Past (completeDownload cfg now c) := by
  refine past_handleConnectionFinalization ?_ now _
  exact h

theorem past_afterChunk (h : c.point ≠ .handshake) (now : Time) (fin : Bool) :
    Past (afterChunk cfg now fin c) := by
  unfold afterChunk
  split
  · exact past_completeDownload h now
  · exact nofun

/-- The acknowledgement of a chunk without FIN, and what follows it -/
theorem past_ack (h : c.point ≠ .handshake) (fin : Bool) {k : Client → Exec}
    (hk : ∀ c', c'.point ≠ .handshake → Past (k c')) :
    Past (if fin = true then .ok c >>= k else sendAck cfg c >>= k) := by
  cases fin with
  | true => exact hk c h
  | false => exact past_send h hk

theorem past_receiveFile (h : c.point ≠ .handshake) (now : Time) (packet : Packet) :
    Past (receiveFile cfg now c packet) := by
  unfold receiveFile
  refine past_ack h packet.isFin fun c' h' ↦ ?_
  have h' : (appendToFile cfg c' packet).point ≠ .handshake := h'
  dsimp only
  split
  · split
    · exact past_completeDownload h' now
    · exact nofun
  · exact past_afterChunk h' now _

theorem past_onFileChunk (h : c.point ≠ .handshake) (now : Time) (r : SequenceNumber × Packet) :
    Past (onFileChunk cfg now c r) := by
  unfold onFileChunk
  refine past_ack ?_ r.2.isFin fun c' h' ↦ past_afterChunk ?_ now _
  · exact h
  · exact h'

theorem past_onDownloadAnswer (h : c.point ≠ .handshake) (now : Time) (r : Except Exn Packet) :
    Past (onDownloadAnswer cfg now c r) := by
  unfold onDownloadAnswer
  split
  · exact past_receiveFile h now _
  · split
    · split
      · split
        · exact past_receiveFile h now _
        · exact h
      · exact h
    · split <;> exact h

theorem past_onConfirmation (h : c.point ≠ .handshake) (refused : ExnClass) {k : Client → Exec}
    (hk : Past (k c)) (r : Except Exn Packet) : Past (onConfirmation refused k c r) := by
  unfold onConfirmation
  split
  · exact hk
  · split <;> exact h

theorem past_sendReplies (receiver : GoBackNReceiver) {replies : List GoBackNReceiver.Reply}
    (h : c.point ≠ .handshake) {k : Client → Exec} (hk : ∀ c', c'.point ≠ .handshake → Past (k c')) :
    Past (replies.foldlM (sendReply cfg receiver) c >>= k) := by
  induction replies generalizing c with
  | nil => exact hk c h
  | cons reply replies ih =>
      rw [List.foldlM_cons, bind_assoc]
      cases reply with
      | resendLast => exact ih h
      | sendAck n ack =>
          simp only [sendReply]
          cases Protocol.encode .goBackN n (some ack) true false false cfg.myAddress.port [] with
          | error e => exact h
          | ok raw => exact ih h

theorem past_onGbnPacket (h : c.point ≠ .handshake) (now : Time) (receiver : GoBackNReceiver)
    (packet : Packet) : Past (onGbnPacket cfg now receiver c packet) := by
  refine past_sendReplies receiver h fun c' _ ↦ ?_
  have hpast : (appendTaken cfg
      { c' with
        sequenceNumber := (receiver.onPacket packet).receiver.sqnNumber
        ackNumber := some (receiver.onPacket packet).receiver.ackNumber
        point := .receiveFileGbn (receiver.onPacket packet).receiver }
      (receiver.onPacket packet).appended).point ≠ .handshake := by
    unfold appendTaken
    split <;> exact nofun
  dsimp only
  split
  · exact past_completeDownload hpast now
  · exact hpast

theorem past_listenReceiver (h : c.point ≠ .handshake) (receiver : GoBackNReceiver) (ev : Event) :
    Past (listenReceiver cfg receiver c ev) := by
  unfold listenReceiver
  split
  · split
    · exact h
    · exact past_onGbnPacket h _ _ _
  · exact h
  · exact h
  · exact h

theorem past_onFinalization (h : c.point ≠ .handshake) (now : Time) (caller : Finalization)
    (r : Except Exn Unit) : Past (onFinalization cfg now caller c r) := by
  have hfinalized : Past (finalized cfg now caller c) := past_finalized h now caller
  unfold onFinalization
  cases r with
  | ok => exact hfinalized
  | error e =>
      dsimp only
      split
      · exact hfinalized
      · exact h

theorem past_onFinOrAck (h : c.point ≠ .handshake) (r : Except Exn Unit) :
    Past (onFinOrAck cfg c r) := by
  unfold onFinOrAck
  split
  · exact past_completeUpload h
  · split
    · exact nofun
    · exact h

theorem past_onOperationConfirmation (h : c.point ≠ .handshake) (now : Time) (A : Address)
    (r : Except Exn Packet) : Past (onOperationConfirmation cfg now A c r) := by
  unfold onOperationConfirmation
  split
  · exact past_informName (c := { c with serverAddress := A }) h now
  · split
    · exact past_handleConnectionFinalization h now _
    · exact h

theorem past_listen {α : Type} {op : Operation α} {k : Client → Except Exn α → Exec}
    (h : c.point ≠ .handshake) (hk : ∀ c' r, c'.point ≠ .handshake → Past (k c' r)) (ev : Event) :
    Past (listen c op ev k) := by
  unfold listen
  split
  · exact h
  · exact hk _ _ h
  · exact hk _ _ h

theorem past_onSuccess {α : Type} {k : Client → α → Exec}
    (hk : ∀ c' a, c'.point ≠ .handshake → Past (k c' a)) (c' : Client) (r : Except Exn α)
    (h : c'.point ≠ .handshake) : Past (onSuccess k c' r) := by
  cases r with
  | ok a => exact hk c' a h
  | error e => exact h

variable (cfg) in
theorem past_onEvent (h : c.point ≠ .handshake) (ev : Event) : Past (onEvent cfg c ev) := by
  unfold onEvent
  cases hp : c.point with
  | handshake => exact absurd hp h
  | sendOperationIntention A =>
      exact past_listen h (fun _ r h ↦ past_onOperationConfirmation h _ _ r) ev
  | informFilename =>
      exact past_listen h (fun _ r h ↦ past_onConfirmation h _ (past_informFilesize h _) r) ev
  | informFilesize =>
      exact past_listen h (fun _ r h ↦ past_onConfirmation h _ (past_sendFile h _) r) ev
  | informNameToDownload => exact past_listen h (fun _ r h ↦ past_onDownloadAnswer h _ r) ev
  | sendFileSaw remaining chunkNumber totalChunks =>
      exact past_listen h (past_onSuccess fun _ _ h ↦ past_sendFileSaw h _ _ _ _) ev
  | sendFileGbn sender => exact past_listenSender h sender ev
  | initiateCloseConnection => exact past_listen h (fun _ r h ↦ past_onFinOrAck h r) ev
  | receiveFileSaw =>
      exact past_listen h (past_onSuccess fun _ r h ↦ past_onFileChunk h _ r) ev
  | receiveFileGbn receiver => exact past_listenReceiver h receiver ev
  | handleConnectionFinalization caller =>
      exact past_listen h (fun _ r h ↦ past_onFinalization h _ caller r) ev
  | ended => exact h

theorem past_swallow {x : Exec} (h : Past x) : (swallow x).point ≠ .handshake := by
  cases x with
  | ok c => exact h
  | error r => exact nofun

theorem past_handle {x : Exec} (h : Past x) (now : Time) : (handle cfg now x).point ≠ .handshake := by
  cases x with
  | ok c => exact h
  | error r =>
      obtain ⟨e, c⟩ := r
      have h : c.point ≠ .handshake := h
      simp only [handle]
      split
      · exact past_swallow (past_handleConnectionFinalization (c := c.stepSequence.stepAck) h now _)
      · exact fun h ↦ (by cases h)

/-- A client that has learned the address of its connection does not forget it. -/
theorem step_past (h : c.point ≠ .handshake) (ev : Event) : (step cfg c ev).point ≠ .handshake := by
  have hev := past_onEvent cfg (c := { c with outbox := [] }) h ev
  unfold step
  dsimp only
  split
  · exact past_swallow hev
  · exact past_swallow hev
  · exact past_handle hev _

end Client

/-! ## Runs -/

/-- `es'` is `es` with datagrams put in whose source is not `peer`. -/
inductive Padded (peer : Address) : List Event → List Event → Prop
  | nil : Padded peer [] []
  | cons (ev : Event) {es es' : List Event} (h : Padded peer es es') :
      Padded peer (ev :: es) (ev :: es')
  | stranger (raw : Bytes) {source : Address} (now : Time) (hs : source ≠ peer)
      {es es' : List Event} (h : Padded peer es es') :
      Padded peer es (.datagram raw (some source) now :: es')

/-- Sequences that differ only in source addresses lead an established connection, and a client
that has learned the address of its connection, to the same state. -/
theorem run_source {es es' : List Event} (h : List.Forall₂ SameButSource es es') :
    (∀ cfg disk now, Server.ClientConnection.run cfg disk now es =
        Server.ClientConnection.run cfg disk now es') ∧
      ∀ (cfg : Client.Config) (c : Client), c.point ≠ .handshake →
        es.foldl (Client.step cfg) c = es'.foldl (Client.step cfg) c := by
  refine ⟨fun cfg disk now ↦ ?_, fun cfg c hp ↦ ?_⟩
  · unfold Server.ClientConnection.run
    generalize Server.ClientConnection.start cfg disk now = c
    induction h generalizing c with
    | nil => rfl
    | cons he _ ih =>
        rw [List.foldl_cons, List.foldl_cons, Server.ClientConnection.step_source he]
        exact ih _
  · induction h generalizing c with
    | nil => rfl
    | cons he _ ih =>
        rw [List.foldl_cons, List.foldl_cons, Client.step_source hp he]
        exact ih _ (Client.step_past hp _)

namespace Server.ClientConnection

open Local

/-- A host other than the client. -/
def stranger : Address := ⟨"127.0.0.1", 6666⟩

theorem run_source_announcement :
    run upload emptyDisk 0 announcement = run upload emptyDisk 0
      [.datagram (saw 0 [97]) (some stranger) 0, .datagram (saw 32 [0, 0, 0, 5]) (some stranger) 0] :=
  (run_source (.cons (.datagram _ _ _ _) (.cons (.datagram _ _ _ _) .nil))).1 upload emptyDisk 0

/-- A chunk with the number expected is written whoever it comes from. -/
theorem not_only_peer :
    ¬∀ es es', Padded upload.clientAddress es es' →
      (run upload emptyDisk 0 es').file.map File.written =
          (run upload emptyDisk 0 es).file.map File.written ∧
        (run upload emptyDisk 0 es').sequenceNumber = (run upload emptyDisk 0 es).sequenceNumber ∧
        (run upload emptyDisk 0 es').reports = (run upload emptyDisk 0 es).reports := by
  intro h
  have hpad : Padded upload.clientAddress announcement
      (announcement ++ [.datagram (saw 0 [9]) (some stranger) 0]) :=
    .cons _ (.cons _ (.stranger _ 0 (by decide) .nil))
  have hinjected : (run upload emptyDisk 0
      (announcement ++ [.datagram (saw 0 [9]) (some stranger) 0])).file.map File.written =
        some [9] := by decide +kernel
  have hnone : (run upload emptyDisk 0 announcement).file.map File.written = some [] := by
    decide +kernel
  have hsame := (h _ _ hpad).1
  rw [hinjected, hnone] at hsame
  exact absurd hsame (by decide)

end Server.ClientConnection

end Rdt
