import Rdt.Client.Client
import Rdt.Common.Fields

/-!
# What a client encodes

The numbers of a client fit their fields in every phase, and so does its data unless the name or
the file given on the command line is too long.
-/

namespace Rdt.Client

open PacketParser ClientProtocol Protocol

/-! ## The exceptions of a step -/

/-- What a stretch of the thread raises -/
def raised : Exec → List ExnClass
  | .ok _ => []
  | .error (e, _) => [e.cls]

/-- The same with what the `except` clauses of `perform_upload` and `perform_download` raise -/
def raisedInHandle (cfg : Config) (now : Time) : Exec → List ExnClass
  | .ok _ => []
  | .error (e, c) =>
      e.cls ::
        if closesConnection cfg e.cls then
          raised (handleConnectionFinalization cfg now .exceptClause c.stepSequence.stepAck)
        else []

/-- The exceptions that one event leads to -/
def stepRaised (cfg : Config) (c : Client) (ev : Event) : List ExnClass :=
  let c := { c with outbox := [] }
  match c.point with
  | .handleConnectionFinalization .exceptClause => raised (onEvent cfg c ev)
  | .handshake =>
      match reListenIfFailed ((waitForConnectionRequestAnswer c.sequenceNumber c.ackNumber).letThrough
          [.unexpectedFinMessage, .messageIsNotAck]) c.socket c.listening ev with
      | .listening _ _ => []
      | .returned serverAddress =>
          raisedInHandle cfg ev.now
            (sendOperationIntention cfg ev.now serverAddress (operationCode cfg) c)
      | .raised e _ => [e.cls]
  | _ => raisedInHandle cfg ev.now (onEvent cfg c ev)

/-- Those of `client_start` up to its first receive -/
def startRaised (cfg : Config) (disk : Disk) (now : Time) : List ExnClass :=
  match openFile cfg disk with
  | .ok (file, disk) => raised (requestConnection cfg (init cfg file disk now))
  | .error e => [e.cls]

/-! ## What fits -/

/-- The name and the size that go into packets -/
def DataFits (cfg : Config) (file : File) : Prop :=
  match cfg.task with
  | .upload _ filenameInServer =>
      (encodeUtf8 filenameInServer).length < payloadLimit cfg.protocolVersion ∧
        file.content.length < 256 ^ 4
  | .download _ filenameForDownload =>
      (encodeUtf8 filenameForDownload).length < payloadLimit cfg.protocolVersion

instance (cfg : Config) (file : File) : Decidable (DataFits cfg file) := by
  unfold DataFits
  split <;> infer_instance

/-- What a client keeps: its numbers fit, and the packets it handed over or may hand over again
have ACK numbers of a counter. -/
structure Bounded (file : File) (c : Client) : Prop where
  sequenceNumber : c.sequenceNumber.value < 2 ^ 32
  ackNumber : ∀ m ∈ c.ackNumber, m.value ≤ lastNumber
  socket : ∀ raw ∈ c.socket.lastRawPacket, Counted raw
  outbox : ∀ o ∈ c.outbox, Counted o.1
  content : c.file.content = file.content

/-- The same of the local variables where it is blocked.  While it waits for the confirmation of the
size, its last packet is the one that tells it. -/
def AtPoint (file : File) (c : Client) : Prop :=
  match c.point with
  | .informFilename => file.content.length < 256 ^ 4
  | .informFilesize => ∃ raw ∈ c.socket.lastRawPacket, filesizeIn raw = file.content.length
  | .sendFileSaw remaining _ _ => ∀ chunk ∈ remaining, chunk.length ≤ fileChunkSizeSaw
  | .sendFileGbn sender => sender.Bounded
  | .receiveFileGbn receiver => receiver.Bounded
  | _ => True

/-- A stretch of the thread in which everything that is encoded fits -/
abbrev Encodes (file : File) : Exec → Prop := Fits (Bounded file) (AtPoint file)

variable {cfg : Config} {file : File} {c : Client} {now : Time}

namespace Bounded

theorem stepSequence (h : Bounded file c) : Bounded file c.stepSequence :=
  ⟨lt_of_le_of_lt c.sequenceNumber.step_le lastNumber_lt, h.ackNumber, h.socket, h.outbox, h.content⟩

theorem stepAck (h : Bounded file c) : Bounded file c.stepAck := by
  refine ⟨h.sequenceNumber, ?_, h.socket, h.outbox, h.content⟩
  intro m hm
  obtain ⟨n, -, rfl⟩ := Option.map_eq_some_iff.mp hm
  exact n.step_le

theorem block (h : Bounded file c) (point : Point) (now : Time) : Bounded file (c.block point now) :=
  ⟨h.sequenceNumber, h.ackNumber, h.socket, h.outbox, h.content⟩

theorem report (h : Bounded file c) (r : Report) : Bounded file (c.report r) :=
  ⟨h.sequenceNumber, h.ackNumber, h.socket, h.outbox, h.content⟩

theorem finish (h : Bounded file c) : Bounded file c.finish :=
  ⟨h.sequenceNumber, h.ackNumber, h.socket, h.outbox, h.content⟩

theorem retransmit (h : Bounded file c) (b : Bool) : Bounded file (c.retransmit b) := by
  refine ⟨h.sequenceNumber, h.ackNumber, h.socket, ?_, h.content⟩
  intro o ho
  rcases List.mem_append.mp ho with ho | ho
  · exact h.outbox o ho
  · split at ho
    · unfold SocketSaw.retransmission at ho
      split at ho
      · rename_i raw A hraw _
        rw [List.mem_singleton.mp ho]
        exact h.socket raw hraw
      · cases ho
    · cases ho

theorem handed (h : Bounded file c) {raw : Bytes} (hraw : Counted raw) : Bounded file (c.handed raw) := by
  refine ⟨h.sequenceNumber, h.ackNumber, ?_, ?_, h.content⟩
  · intro raw' hr
    exact Option.some.inj hr ▸ hraw
  · intro o ho
    rcases List.mem_append.mp ho with ho | ho
    · exact h.outbox o ho
    · exact List.mem_singleton.mp ho ▸ hraw

theorem send (h : Bounded file c) (isAck isSyn isFin : Bool) (port : UInt16) {data : Bytes}
    (hdata : data.length < payloadLimit cfg.protocolVersion) :
    Fits (Bounded file) (fun c' ↦ ∃ raw, c' = c.handed raw ∧
      raw.length ≤ gbnProtocolHeaderSize + data.length ∧ (getPacketFromBytes raw).data = data)
      (Client.send cfg c isAck isSyn isFin port data) := by
  have hfits := encode_fits h.sequenceNumber h.ackNumber isAck isSyn isFin port hdata
  rcases send_cases cfg c isAck isSyn isFin port data with ⟨e, he, heq⟩ | ⟨raw, hraw, heq⟩
  · rw [heq]
    rcases hfits with ⟨raw, hok, -⟩ | ⟨-, -, herror⟩
    · cases he.symm.trans hok
    · obtain rfl := Except.error.inj (he.symm.trans herror)
      exact ⟨by decide, h⟩
  · rcases hfits with ⟨raw', hok, hcounted, hlen, hparse⟩ | ⟨-, -, herror⟩
    · obtain rfl := Except.ok.inj (hraw.symm.trans hok)
      have hhanded := h.handed hcounted
      rcases heq with heq | heq
      · rw [heq]
        exact ⟨hhanded, raw, rfl, hlen, hparse⟩
      · rw [heq]
        exact ⟨by decide, h.sequenceNumber, h.ackNumber, hhanded.socket, h.outbox, h.content⟩
    · cases hraw.symm.trans herror

end Bounded

/-! ## Receiving -/

theorem inRange_validateAckNumber (packet : Packet) (n : SequenceNumber) :
    InRange (ClientProtocol.validateAckNumber packet n) := by
  intro e he
  rcases validateAckNumber_error he with h | h
  · rw [h]
    decide
  · rw [h]
    decide

theorem inRange_validateConfirmation (n : SequenceNumber) (ack : Option SequenceNumber) (raw : Bytes)
    (source : Option Address) : InRange (validateConfirmation n ack raw source) := by
  have hinbound : InRange (validateInboundAck raw source ack) := by
    refine .bind (inRange_validateInboundPacket (by decide) raw source) fun r ↦ ?_
    refine .bind (inRange_validateAck (by decide) r.1) fun _ ↦ ?_
    cases ack with
    | none => exact .ok _
    | some m => exact .bind (inRange_validateAckNumber r.1 m) fun _ ↦ .ok _
  refine .bind hinbound fun r ↦ .bind (inRange_validateNotFin r.1) fun _ ↦ ?_
  exact .bind (inRange_validateSequenceNumber (by decide) r.1 n) fun _ ↦ .ok _

theorem inRange_waitForConnectionRequestAnswer (n : SequenceNumber) (ack : Option SequenceNumber)
    (es : List ExnClass) : ((waitForConnectionRequestAnswer n ack).letThrough es).InRange := by
  have hf : ∀ cls ∈ [ExnClass.connectionLost, .socketShutdown],
      ¬(if cls = .connectionLost then ExnClass.connectionRefused.exn else cls.exn).cls.OutOfRange := by
    decide
  refine .of_check (fun raw source ↦ ?_) hf
  refine .bind (inRange_validateConfirmation n ack raw source) fun r ↦ ?_
  dsimp only
  split
  · exact .error (by decide)
  · exact .ok _

theorem inRange_waitForOperationConfirmation (n : SequenceNumber) (ack : Option SequenceNumber)
    (es : List ExnClass) : ((waitForOperationConfirmation n ack).letThrough es).InRange :=
  .of_check_id rfl fun raw source ↦ (inRange_validateConfirmation n ack raw source).map _

theorem inRange_waitForAck (n : SequenceNumber) (ack : Option SequenceNumber) (es : List ExnClass) :
    ((waitForAck n ack).letThrough es).InRange :=
  .of_check_id rfl fun raw source ↦ (inRange_validateConfirmation n ack raw source).map _

theorem inRange_receiveFileChunkSaw (version : ProtocolType) (n : SequenceNumber) :
    (receiveFileChunkSaw version n).InRange := by
  refine .of_check_id rfl fun raw source ↦ ?_
  refine .bind (inRange_validateInboundPacket (by decide) raw source) fun r ↦ ?_
  exact .bind (inRange_validateSequenceNumber (by decide) r.1 n) fun _ ↦ .ok _

theorem inRange_waitForFinOrAck (n : SequenceNumber) (ack : Option SequenceNumber)
    (es : List ExnClass) : ((waitForFinOrAck n ack).letThrough es).InRange := by
  refine .of_check_id rfl fun raw source ↦ ?_
  refine .bind (inRange_validateInboundPacket (by decide) raw source) fun r ↦ ?_
  refine .bind (inRange_validateSequenceNumber (by decide) r.1 n) fun _ ↦ ?_
  split
  · exact .error (by decide)
  · cases ack with
    | none => exact .ok _
    | some m => exact inRange_validateAckNumber r.1 m

/-- What a chunk is received as has the number of a packet. -/
theorem receiveFileChunkSaw_number {version : ProtocolType} {n : SequenceNumber} {raw : Bytes}
    {source : Option Address} {r : SequenceNumber × Packet}
    (h : (receiveFileChunkSaw version n).check raw source = .ok r) : r.1.value < 2 ^ 32 := by
  obtain ⟨⟨packet, A⟩, hin, h⟩ := except_bind_eq_ok.mp h
  obtain ⟨-, -, hp⟩ := validateInboundPacket_eq_ok.mp hin
  obtain ⟨_, -, h⟩ := except_bind_eq_ok.mp h
  rw [← except_pure_eq_ok.mp h]
  dsimp only at hp ⊢
  rw [← hp]
  exact (getPacketFromBytes_bounds raw).1

theorem heard_waitForAck {raw : Bytes} (hraw : Counted raw) (source : Option Address) :
    GoBackNSender.Heard (ClientProtocolGbn.waitForAck raw source) := by
  refine .of_parsed hraw ?_ fun _ ↦ ClientProtocolGbn.waitForAck_parsed
  refine .bind (inRange_validateInboundPacket (by decide) raw source) fun r ↦ ?_
  exact .bind (inRange_validateNotFin r.1) fun _ ↦ .ok _

/-- One event in a wrapped receive: it goes on waiting, or with what the operation returned or
raised. -/
theorem fits_listen {α : Type} {op : Operation α} (hop : op.InRange) (h : Bounded file c)
    (hp : AtPoint file c) (ev : Event) {k : Client → Except Exn α → Exec}
    (hok : ∀ a raw source, op.check raw source = .ok a → Encodes file (k c (.ok a)))
    (herror : ∀ c' e, Bounded file c' → ¬e.cls.OutOfRange → Encodes file (k c' (.error e))) :
    Encodes file (listen c op ev k) := by
  unfold listen
  split
  · rename_i r b _
    have hr := h.retransmit b
    exact ⟨⟨hr.sequenceNumber, hr.ackNumber, hr.socket, hr.outbox, hr.content⟩, hp⟩
  · rename_i a hl
    obtain ⟨raw, source, -, hc⟩ := returned_check hl
    exact hok a raw source hc
  · rename_i e b hl
    exact herror _ e (h.retransmit b) (hop e (fails_of_raised hl).raises)

/-! ## Sending -/

namespace Bounded

theorem sendAck (h : Bounded file c) :
    Fits (Bounded file) (fun _ ↦ True) (Client.sendAck cfg c) :=
  (h.send true false false _ (nil_lt_payloadLimit _)).mono fun _ _ _ ↦ trivial

theorem sendFin (h : Bounded file c) :
    Fits (Bounded file) (fun _ ↦ True) (Client.sendFin cfg c) :=
  (h.send false false true _ (nil_lt_payloadLimit _)).mono fun _ _ _ ↦ trivial

theorem sendOperationIntention (h : Bounded file c) (serverAddress : Address) (opCode : Nat) :
    Encodes file (Client.sendOperationIntention cfg now serverAddress opCode c) := by
  refine (h.stepSequence.stepAck.send true false false _
    (toBytes_lt_payloadLimit _ (by decide) opCode)).bind fun c₁ h₁ _ ↦ ?_
  exact ⟨h₁.block _ now, trivial⟩

theorem informFilename (h : Bounded file c) {point : Point}
    (hpoint : ∀ c', AtPoint file (Client.block c' point now)) {filename : String}
    (hname : (encodeUtf8 filename).length < payloadLimit cfg.protocolVersion) :
    Encodes file (Client.informFilename cfg now point filename c) :=
  (h.stepSequence.stepAck.send false false false _ hname).bind fun c₁ h₁ _ ↦
    ⟨h₁.block point now, hpoint c₁⟩

theorem informName (h : Bounded file c) (hfit : DataFits cfg file) :
    Encodes file (Client.informName cfg now c) := by
  unfold Client.informName
  unfold DataFits at hfit
  cases htask : cfg.task with
  | upload src name =>
      rw [htask] at hfit
      refine h.informFilename (fun c' ↦ ?_) hfit.1
      exact hfit.2
  | download dst name =>
      rw [htask] at hfit
      refine h.informFilename (fun c' ↦ ?_) hfit
      trivial

theorem fileCleanupAfterError (h : Bounded file c) :
    Bounded file (Client.fileCleanupAfterError cfg c) := by
  unfold Client.fileCleanupAfterError
  split <;> exact ⟨h.sequenceNumber, h.ackNumber, h.socket, h.outbox, h.content⟩

theorem finalized (h : Bounded file c) {caller : Finalization}
    (hfit : caller = .sendOperationIntention → DataFits cfg file) :
    Encodes file (Client.finalized cfg now caller c) := by
  cases caller with
  | sendOperationIntention => exact h.informName (hfit rfl)
  | performDownload => exact ⟨h.finish, trivial⟩
  | exceptClause => exact ⟨h.fileCleanupAfterError.finish, trivial⟩

/-- What is encoded may be the name, where the caller goes on with it. -/
theorem handleConnectionFinalization (h : Bounded file c) (caller : Finalization)
    (hfit : caller = .sendOperationIntention → DataFits cfg file) :
    Encodes file (Client.handleConnectionFinalization cfg now caller c) := by
  have hsent : Encodes file (sendFinalization cfg now caller c) :=
    h.sendAck.bind fun _ h₁ _ ↦ h₁.sendFin.bind fun _ h₂ _ ↦ ⟨h₂.stepSequence.block _ now, trivial⟩
  unfold Client.handleConnectionFinalization
  generalize sendFinalization cfg now caller c = x at hsent
  cases x with
  | ok c' => exact hsent
  | error x =>
      dsimp only
      split
      · exact hsent.2.finalized hfit
      · exact hsent

/-- The size read off the packet is the size encoded, since it has room in four bytes. -/
theorem informFilesize (h : Bounded file c) (hsize : file.content.length < 256 ^ 4) :
    Encodes file (Client.informFilesize cfg now c) := by
  have h₁ := h.stepSequence.stepAck
  have hlen : c.stepSequence.stepAck.file.content.length = file.content.length := by rw [h₁.content]
  unfold Client.informFilesize
  dsimp only
  rw [hlen, if_pos hsize]
  refine (h₁.send false false false _ (toBytes_lt_payloadLimit _ (by decide) _)).bind ?_
  rintro _ h₂ ⟨raw, rfl, hraw, hdata⟩
  have hcut : raw.take commsBufferSize = raw := by
    refine List.take_of_length_le (le_trans hraw ?_)
    rw [BigEndian.length_toBytes]
    decide
  refine ⟨h₂.block _ now, raw, rfl, ?_⟩
  rw [filesizeIn, hcut, hdata]
  exact BigEndian.fromBytes_toBytes hsize

theorem completeUpload (h : Bounded file c) : Encodes file (Client.completeUpload cfg c) :=
  (h.report .uploadCompleted).stepSequence.sendAck.bind fun _ h₁ _ ↦ ⟨h₁.finish, trivial⟩

theorem initiateCloseConnection (h : Bounded file c) (alreadyReceivedFinBack : Bool) :
    Encodes file (Client.initiateCloseConnection cfg now alreadyReceivedFinBack c) := by
  unfold Client.initiateCloseConnection
  split
  · exact h.completeUpload
  · exact ⟨h.block _ now, trivial⟩

theorem close (h : Bounded file c) : Bounded file { c with file := FileHandler.close c.file } :=
  ⟨h.sequenceNumber, h.ackNumber, h.socket, h.outbox, h.content⟩

theorem sendFileSaw (totalChunks : Nat) {remaining : List Bytes} (chunkNumber : Nat)
    (hchunks : ∀ chunk ∈ remaining, chunk.length ≤ fileChunkSizeSaw) (h : Bounded file c) :
    Encodes file (Client.sendFileSaw cfg now totalChunks remaining chunkNumber c) := by
  induction remaining generalizing chunkNumber c with
  | nil => exact h.close.initiateCloseConnection false
  | cons chunk remaining ih =>
      have hrest : ∀ chunk ∈ remaining, chunk.length ≤ fileChunkSizeSaw :=
        fun chunk hc ↦ hchunks chunk (List.mem_cons_of_mem _ hc)
      have hdata := chunk_lt_payloadLimit cfg.protocolVersion (hchunks chunk List.mem_cons_self)
      refine (h.stepSequence.send false false _ _ hdata).bind fun c₁ h₁ _ ↦ ?_
      split
      · exact ih (chunkNumber + 1) hrest h₁
      · exact ⟨h₁.block _ now, hrest⟩

theorem onSender (h : Bounded file c) {r : GoBackNSender.Result} (hr : r.Bounded) :
    Encodes file (Client.onSender cfg now c r) := by
  cases r with
  | running s sent =>
      refine ⟨⟨h.sequenceNumber, h.ackNumber, h.socket, ?_, h.content⟩, hr.1⟩
      intro o ho
      rcases List.mem_append.mp ho with ho | ho
      · exact h.outbox o ho
      · obtain ⟨raw, hraw, rfl⟩ := Option.map_eq_some_iff.mp (Option.mem_toList.mp ho)
        exact hr.2 raw hraw
  | returned s =>
      refine initiateCloseConnection ?_ s.alreadyReceivedFinBack
      refine ⟨hr.returned, ?_, hr.lastRawPacket, h.outbox, h.content⟩
      intro m hm
      exact Option.some.inj hm ▸ hr.ackNumber
  | raised e => exact ⟨hr, h⟩

theorem sendFile (h : Bounded file c) : Encodes file (Client.sendFile cfg now c) := by
  unfold Client.sendFile
  split
  · rename_i ackNumber _ _
    have hchunks : ∀ chunk ∈ (GoBackNSender.splitFileInChunksClient c.file c.file.content.length).1,
        chunk.length ≤ fileChunkSizeGbn := fun _ hc ↦ GoBackNSender.length_le_of_mem_readChunks hc
    have hsender := GoBackNSender.bounded_initClient c.sequenceNumber ackNumber hchunks
    refine onSender ?_ (hsender.loop false)
    refine ⟨lt_of_le_of_lt hsender.offset lastNumber_lt, ?_, ?_, h.outbox, ?_⟩
    · intro m hm
      exact Option.some.inj hm ▸ hsender.ackNumber
    · intro raw hr
      cases hr
    · exact (GoBackNSender.content_readChunks _ _).trans h.content
  · exact h.sendFileSaw _ 1 fun _ hc ↦ FileHandler.length_le_of_mem_successiveReads hc

theorem listenSender (h : Bounded file c) {sender : GoBackNSender} (hs : sender.Bounded)
    (hp : AtPoint file c) {ev : Event} (hev : ev.Counts) :
    Encodes file (Client.listenSender cfg sender c ev) := by
  unfold Client.listenSender
  split
  · split
    · exact ⟨h, hp⟩
    · rename_i received hr
      refine h.onSender (hs.awaitAckPhaseClient ?_ _)
      cases ev with
      | proceed => cases hr
      | datagram raw source now =>
          obtain rfl := Option.some.inj hr
          exact heard_waitForAck ((hev raw source now rfl).take (by decide)) source
      | timeout | osError =>
          obtain rfl := Option.some.inj hr
          exact .of_error (by decide) rfl
  · split
    · exact h.onSender (hs.proceed cfg.myAddress.port _)
    · exact ⟨h, hp⟩

theorem onConfirmation (h : Bounded file c) {refused : ExnClass} (hrefused : ¬refused.OutOfRange)
    {k : Client → Exec} {e : Exn} (he : ¬e.cls.OutOfRange) :
    Encodes file (Client.onConfirmation refused k c (.error e)) := by
  unfold Client.onConfirmation
  dsimp only
  split
  · exact ⟨hrefused, h⟩
  · exact ⟨he, h⟩

/-! ## Receiving a file -/

theorem appendToFile (h : Bounded file c) (packet : Packet) :
    Bounded file (Client.appendToFile cfg c packet) :=
  ⟨h.sequenceNumber, h.ackNumber, h.socket, h.outbox, h.content⟩

theorem appendTaken (cfg : Config) (h : Bounded file c) (packet : Option Packet) :
    Bounded file (Client.appendTaken cfg c packet) := by
  cases packet with
  | none => exact h
  | some packet => exact h.appendToFile packet

theorem completeDownload (h : Bounded file c) : Encodes file (Client.completeDownload cfg now c) := by
  refine handleConnectionFinalization ?_ .performDownload nofun
  exact ⟨h.sequenceNumber, h.ackNumber, h.socket, h.outbox, h.content⟩

theorem afterChunk (h : Bounded file c) (isFin : Bool) :
    Encodes file (Client.afterChunk cfg now isFin c) := by
  unfold Client.afterChunk
  split
  · exact h.completeDownload
  · exact ⟨h.stepSequence.block _ now, trivial⟩

/-- The last chunk is not acknowledged. -/
theorem acknowledge (h : Bounded file c) (isFin : Bool) {k : Client → Exec}
    (hk : ∀ c', Bounded file c' → Encodes file (k c')) :
    Encodes file (if isFin then .ok c >>= k else Client.sendAck cfg c >>= k) := by
  split
  · exact hk c h
  · exact h.sendAck.bind fun c' h' _ ↦ hk c' h'

theorem receiveFile (h : Bounded file c) (packet : Packet) :
    Encodes file (Client.receiveFile cfg now c packet) := by
  unfold Client.receiveFile
  refine h.acknowledge packet.isFin fun c₁ h₁ ↦ ?_
  have h₂ : Bounded file (Client.appendToFile cfg c₁ packet) := h₁.appendToFile packet
  dsimp only
  split
  · rename_i ackNumber _ hack
    split
    · exact h₂.completeDownload
    · refine ⟨⟨h₂.sequenceNumber, h₂.ackNumber, ?_, h₂.outbox, h₂.content⟩, ?_⟩
      · intro raw hr
        cases hr
      · exact ⟨h₂.sequenceNumber, h₂.ackNumber _ hack, h₂.socket⟩
  · exact h₂.afterChunk packet.isFin

theorem onFileChunk (h : Bounded file c) {r : SequenceNumber × Packet} (hr : r.1.value < 2 ^ 32) :
    Encodes file (Client.onFileChunk cfg now c r) := by
  have h₁ : Bounded file { c with sequenceNumber := r.1 } :=
    ⟨hr, h.ackNumber, h.socket, h.outbox, h.content⟩
  refine h₁.acknowledge r.2.isFin fun c₁ h₂ ↦ ?_
  exact (h₂.appendToFile r.2).afterChunk r.2.isFin

theorem onDownloadAnswer (h : Bounded file c) {r : Except Exn Packet} (hr : InRange r) :
    Encodes file (Client.onDownloadAnswer cfg now c r) := by
  have refused : ∀ {cls : ExnClass}, ¬cls.OutOfRange → Encodes file (raise c cls) := fun hcls ↦ ⟨hcls, h⟩
  unfold Client.onDownloadAnswer
  split
  · exact h.receiveFile _
  · rename_i e
    split
    · split
      · split
        · exact h.receiveFile _
        · exact refused (by decide)
      · exact refused (by decide)
    · split
      · exact refused (by decide)
      · exact ⟨hr e rfl, h⟩

theorem sendReply (h : Bounded file c) {receiver : GoBackNReceiver} (hr : receiver.Bounded)
    {reply : GoBackNReceiver.Reply}
    (hreply : reply = .sendAck receiver.sqnNumber receiver.ackNumber ∨ reply = .resendLast) :
    Fits (Bounded file) (fun _ ↦ True) (Client.sendReply cfg receiver c reply) := by
  rcases hreply with rfl | rfl
  · have hack : ∀ m ∈ some receiver.ackNumber, m.value ≤ lastNumber :=
      fun m hm ↦ Option.some.inj hm ▸ hr.ackNumber
    unfold Client.sendReply
    rcases encode_fits hr.sqnNumber hack true false false cfg.myAddress.port
      (nil_lt_payloadLimit .goBackN) with ⟨raw, hok, hcounted, -⟩ | ⟨-, -, herror⟩
    · dsimp only
      rw [hok]
      refine ⟨⟨h.sequenceNumber, h.ackNumber, h.socket, ?_, h.content⟩, trivial⟩
      intro o ho
      rcases List.mem_append.mp ho with ho | ho
      · exact h.outbox o ho
      · exact List.mem_singleton.mp ho ▸ hcounted
    · dsimp only
      rw [herror]
      exact ⟨by decide, h⟩
  · refine ⟨⟨h.sequenceNumber, h.ackNumber, h.socket, ?_, h.content⟩, trivial⟩
    intro o ho
    rcases List.mem_append.mp ho with ho | ho
    · exact h.outbox o ho
    · obtain ⟨raw, hraw, rfl⟩ := Option.map_eq_some_iff.mp (Option.mem_toList.mp ho)
      exact hr.lastTransmittedPacket raw hraw

theorem sendReplies {receiver : GoBackNReceiver} (hr : receiver.Bounded)
    {replies : List GoBackNReceiver.Reply}
    (hreplies : ∀ reply ∈ replies, reply = .sendAck receiver.sqnNumber receiver.ackNumber ∨
      reply = .resendLast) (h : Bounded file c) :
    Fits (Bounded file) (fun _ ↦ True) (replies.foldlM (Client.sendReply cfg receiver) c) := by
  induction replies generalizing c with
  | nil => exact ⟨h, trivial⟩
  | cons reply replies ih =>
      rw [List.foldlM_cons]
      refine (h.sendReply hr (hreplies reply List.mem_cons_self)).bind fun c₁ h₁ _ ↦ ?_
      exact ih (fun reply hmem ↦ hreplies reply (List.mem_cons_of_mem _ hmem)) h₁

theorem onGbnPacket (h : Bounded file c) {receiver : GoBackNReceiver} (hr : receiver.Bounded)
    (packet : Packet) : Encodes file (Client.onGbnPacket cfg now receiver c packet) := by
  have hr' := hr.onPacket packet
  unfold Client.onGbnPacket
  refine (sendReplies hr (receiver.replies_onPacket packet) h).bind fun c₁ h₁ _ ↦ ?_
  have h₂ : Bounded file
      { c₁ with
        sequenceNumber := (receiver.onPacket packet).receiver.sqnNumber
        ackNumber := some (receiver.onPacket packet).receiver.ackNumber
        point := .receiveFileGbn (receiver.onPacket packet).receiver } :=
    ⟨hr'.sqnNumber, fun m hm ↦ Option.some.inj hm ▸ hr'.ackNumber, h₁.socket, h₁.outbox, h₁.content⟩
  have h₃ := h₂.appendTaken cfg (receiver.onPacket packet).appended
  dsimp only
  split
  · exact h₃.completeDownload
  · refine ⟨h₃, ?_⟩
    unfold AtPoint
    cases (receiver.onPacket packet).appended with
    | none => exact hr'
    | some packet => exact hr'

theorem listenReceiver (h : Bounded file c) {receiver : GoBackNReceiver} (hr : receiver.Bounded)
    (hp : AtPoint file c) (ev : Event) : Encodes file (Client.listenReceiver cfg receiver c ev) := by
  unfold Client.listenReceiver
  split
  · split
    · rename_i raw source now _ e he
      refine ⟨?_, h⟩
      exact (inRange_validateInboundPacket (by decide) (raw.take fullBufferSize) source).map Prod.fst e he
    · exact h.onGbnPacket hr _
  · exact ⟨show ¬ExnClass.socketShutdown.OutOfRange by decide, h⟩
  · exact ⟨h, hp⟩
  · exact ⟨h, hp⟩

end Bounded

/-! ## Steps -/

/-- What holds between two steps -/
structure Settled (file : File) (c : Client) : Prop extends Bounded file c where
  atPoint : AtPoint file c

variable {x : Exec}

theorem Encodes.raised (h : Encodes file x) : AllInRange (Client.raised x) := by
  intro e he
  cases x with
  | ok c => cases he
  | error x => exact List.mem_singleton.mp he ▸ h.1

theorem Encodes.swallow (h : Encodes file x) : Settled file (Client.swallow x) := by
  cases x with
  | ok c => exact ⟨h.1, h.2⟩
  | error x => exact ⟨h.2.finish, trivial⟩

theorem Encodes.handle (h : Encodes file x) : Settled file (Client.handle cfg now x) := by
  cases x with
  | ok c => exact ⟨h.1, h.2⟩
  | error x =>
      unfold Client.handle
      dsimp only
      split
      · exact (h.2.stepSequence.stepAck.handleConnectionFinalization .exceptClause nofun).swallow
      · exact ⟨h.2.fileCleanupAfterError.finish, trivial⟩

theorem Encodes.raisedInHandle (h : Encodes file x) :
    AllInRange (Client.raisedInHandle cfg now x) := by
  intro e he
  cases x with
  | ok c => cases he
  | error x =>
      rcases List.mem_cons.mp he with rfl | he
      · exact h.1
      · split at he
        · exact (h.2.stepSequence.stepAck.handleConnectionFinalization .exceptClause nofun).raised e he
        · cases he

theorem fits_onOperationConfirmation (h : Bounded file c) (hfit : DataFits cfg file)
    (serverAddress : Address) {r : Except Exn Packet} (hr : InRange r) :
    Encodes file (onOperationConfirmation cfg now serverAddress c r) := by
  cases r with
  | ok packet =>
      have h₁ : Bounded file { c with serverAddress } :=
        ⟨h.sequenceNumber, h.ackNumber, h.socket, h.outbox, h.content⟩
      exact h₁.informName hfit
  | error e =>
      unfold onOperationConfirmation
      dsimp only
      split
      · exact h.handleConnectionFinalization _ fun _ ↦ hfit
      · exact ⟨hr e rfl, h⟩

theorem fits_onFinalization (h : Bounded file c) (hfit : DataFits cfg file) (caller : Finalization)
    {r : Except Exn Unit} (hr : InRange r) : Encodes file (onFinalization cfg now caller c r) := by
  cases r with
  | ok u => exact h.finalized fun _ ↦ hfit
  | error e =>
      unfold onFinalization
      dsimp only
      split
      · exact h.finalized fun _ ↦ hfit
      · exact ⟨hr e rfl, h⟩

theorem fits_onFinOrAck (h : Bounded file c) {r : Except Exn Unit} (hr : InRange r) :
    Encodes file (onFinOrAck cfg c r) := by
  cases r with
  | ok u => exact h.completeUpload
  | error e =>
      unfold onFinOrAck
      dsimp only
      split
      · exact ⟨h.finish, trivial⟩
      · exact ⟨hr e rfl, h⟩

theorem settled_onConnectionRequestAnswer (cfg : Config) (now : Time) (h : Bounded file c)
    (r : Except Exn Address) :
    Settled file (onConnectionRequestAnswer cfg now c r) := by
  cases r with
  | ok serverAddress => exact (h.sendOperationIntention serverAddress (operationCode cfg)).handle
  | error e => exact ⟨h.finish, trivial⟩

theorem Settled.clearOutbox (h : Settled file c) : Settled file { c with outbox := [] } :=
  ⟨⟨h.sequenceNumber, h.ackNumber, h.socket, fun _ ho ↦ (by cases ho), h.content⟩, h.atPoint⟩

/-- One case per point. -/
theorem Settled.onEvent (h : Settled file c) (hfit : DataFits cfg file) {ev : Event} (hev : ev.Counts) :
    Encodes file (onEvent cfg c ev) := by
  have hp := h.atPoint
  have raises : ∀ (c' : Client) (e : Exn), Bounded file c' → ¬e.cls.OutOfRange →
      Encodes file (.error (e, c')) := fun _ _ h' he ↦ ⟨he, h'⟩
  unfold Client.onEvent
  cases hpoint : c.point with
  | handshake =>
      refine fits_listen (inRange_waitForConnectionRequestAnswer _ _ _) h.toBounded hp ev ?_ ?_
      · intro a raw source _
        obtain ⟨hb, hat⟩ := settled_onConnectionRequestAnswer cfg ev.now h.toBounded (.ok a)
        exact ⟨hb, hat⟩
      · intro c' e h' _
        obtain ⟨hb, hat⟩ := settled_onConnectionRequestAnswer cfg ev.now h' (.error e)
        exact ⟨hb, hat⟩
  | sendOperationIntention serverAddress =>
      refine fits_listen (inRange_waitForOperationConfirmation _ _ _) h.toBounded hp ev ?_ ?_
      · intro packet raw source _
        exact fits_onOperationConfirmation h.toBounded hfit serverAddress (.ok packet)
      · intro c' e h' he
        exact fits_onOperationConfirmation h' hfit serverAddress (.error he)
  | informFilename =>
      have hsize : file.content.length < 256 ^ 4 := by
        unfold AtPoint at hp
        rwa [hpoint] at hp
      refine fits_listen (inRange_waitForAck _ _ _) h.toBounded hp ev ?_ ?_
      · intro packet raw source _
        exact h.informFilesize hsize
      · intro c' e h' he
        exact h'.onConfirmation (by decide) he
  | informFilesize =>
      refine fits_listen (inRange_waitForAck _ _ _) h.toBounded hp ev ?_ ?_
      · intro packet raw source _
        exact h.toBounded.sendFile
      · intro c' e h' he
        exact h'.onConfirmation (by decide) he
  | sendFileSaw remaining chunkNumber totalChunks =>
      have hchunks : ∀ chunk ∈ remaining, chunk.length ≤ fileChunkSizeSaw := by
        unfold AtPoint at hp
        rwa [hpoint] at hp
      refine fits_listen (inRange_waitForAck _ _ []) h.toBounded h.atPoint ev ?_ raises
      intro packet raw source _
      exact h.toBounded.sendFileSaw totalChunks chunkNumber hchunks
  | sendFileGbn sender =>
      have hs : sender.Bounded := by
        unfold AtPoint at hp
        rwa [hpoint] at hp
      exact h.toBounded.listenSender hs h.atPoint hev
  | initiateCloseConnection =>
      refine fits_listen (inRange_waitForFinOrAck _ _ []) h.toBounded hp ev ?_ ?_
      · intro u raw source _
        exact fits_onFinOrAck h.toBounded (.ok u)
      · intro c' e h' he
        exact fits_onFinOrAck h' (.error he)
  | informNameToDownload =>
      refine fits_listen (inRange_waitForAck _ _ _) h.toBounded hp ev ?_ ?_
      · intro packet raw source _
        exact h.toBounded.onDownloadAnswer (.ok packet)
      · intro c' e h' he
        exact h'.onDownloadAnswer (.error he)
  | receiveFileSaw =>
      refine fits_listen (inRange_receiveFileChunkSaw _ _) h.toBounded hp ev ?_ raises
      intro r raw source hc
      exact h.toBounded.onFileChunk (receiveFileChunkSaw_number hc)
  | receiveFileGbn receiver =>
      have hr : receiver.Bounded := by
        unfold AtPoint at hp
        rwa [hpoint] at hp
      exact h.toBounded.listenReceiver hr h.atPoint ev
  | handleConnectionFinalization caller =>
      refine fits_listen (inRange_waitForFinOrAck _ _ _) h.toBounded hp ev ?_ ?_
      · intro u raw source _
        exact fits_onFinalization h.toBounded hfit caller (.ok u)
      · intro c' e h' he
        exact fits_onFinalization h' hfit caller (.error he)
  | ended => exact ⟨h.toBounded, hp⟩

theorem Settled.step (h : Settled file c) (hfit : DataFits cfg file) {ev : Event} (hev : ev.Counts) :
    Settled file (Client.step cfg c ev) := by
  unfold Client.step
  dsimp only
  split
  · exact (h.clearOutbox.onEvent hfit hev).swallow
  · exact (h.clearOutbox.onEvent hfit hev).swallow
  · exact (h.clearOutbox.onEvent hfit hev).handle

theorem Settled.stepRaised (h : Settled file c) (hfit : DataFits cfg file) {ev : Event}
    (hev : ev.Counts) : AllInRange (Client.stepRaised cfg c ev) := by
  unfold Client.stepRaised
  dsimp only
  split
  · exact (h.clearOutbox.onEvent hfit hev).raised
  · split
    · intro e he
      cases he
    · rename_i serverAddress _
      exact (h.clearOutbox.toBounded.sendOperationIntention serverAddress
        (operationCode cfg)).raisedInHandle
    · rename_i e b hl
      intro cls hcls
      obtain rfl := List.mem_singleton.mp hcls
      exact inRange_waitForConnectionRequestAnswer _ _ _ e (fails_of_raised hl).raises
  · exact (h.clearOutbox.onEvent hfit hev).raisedInHandle

theorem bounded_init (cfg : Config) (file : File) (disk : Disk) (now : Time) :
    Bounded file (init cfg file disk now) := by
  refine ⟨Nat.two_pow_pos 32, ?_, fun _ hr ↦ (by cases hr), fun _ ho ↦ (by cases ho), rfl⟩
  intro m hm
  unfold init at hm
  dsimp only at hm
  split at hm
  · exact Option.some.inj hm ▸ Nat.zero_le _
  · cases hm

/-- A client that has opened its file -/
theorem settled_start (now : Time) {disk disk' : Disk} (ho : openFile cfg disk = .ok (file, disk')) :
    ∃ c, start cfg disk now = .ok c ∧ Settled file c ∧ AllInRange (startRaised cfg disk now) := by
  have hsend : Fits (Bounded file) (fun _ ↦ True) (requestConnection cfg (init cfg file disk' now)) :=
    ((bounded_init cfg file disk' now).send false true false _ (nil_lt_payloadLimit _)).mono
      fun _ _ _ ↦ trivial
  have hstart : Encodes file (do
      let c ← requestConnection cfg (init cfg file disk' now)
      return c.block .handshake now) := hsend.bind fun _ h _ ↦ ⟨h.block _ now, trivial⟩
  refine ⟨_, ?_, hstart.swallow, ?_⟩
  · simp only [start, ho]
    rfl
  · unfold startRaised
    rw [ho]
    dsimp only
    intro e he
    cases hr : requestConnection cfg (init cfg file disk' now) with
    | ok c =>
        rw [hr] at he
        cases he
    | error x =>
        rw [hr] at he hsend
        exact List.mem_singleton.mp he ▸ hsend.1

end Rdt.Client
