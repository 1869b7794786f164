import Rdt.Common.Fields
import Rdt.Server.Accepting

/-!
# What a server encodes

The numbers of a connection fit their fields in every phase, whatever the size of the file, and so do
those the accepter repeats.
-/

namespace Rdt.Server

open PacketParser ServerProtocol Protocol

namespace ClientConnection

/-! ## The exceptions of a step -/

/-- What a stretch of `run` raises -/
def raised : Exec → List ExnClass
  | .ok _ => []
  | .error (e, _) => [e.cls]

/-- The same with what the `except` clauses of `run` raise -/
def raisedInHandle (cfg : Config) : Exec → List ExnClass
  | .ok _ => []
  | .error (e, c) =>
      e.cls ::
        if e.cls = .connectionClosingNeeded then raised (sendFin cfg c.stepSequence.stepAck) else []

/-- The exceptions that one event leads to -/
def stepRaised (cfg : Config) (c : ClientConnection) (ev : Event) : List ExnClass :=
  let c := { c with outbox := [] }
  match c.point with
  | .initiateCloseConnection => raised (onEvent cfg c ev)
  | _ => raisedInHandle cfg (onEvent cfg c ev)

/-- Those of `run` up to its first receive -/
def startRaised (cfg : Config) (disk : Disk) (now : Time) : List ExnClass :=
  let c := init cfg disk now
  match cfg.protocolVersion with
  | .stopAndWait => raisedInHandle cfg (processOperationIntention cfg now c)
  | .goBackN =>
      match cfg.initialPacket.ackNumber with
      | none => [.attributeError]
      | some n =>
          raisedInHandle cfg (processOperationIntention cfg now { c with ackNumber := some ⟨n, .goBackN⟩ })

/-! ## What fits -/

/-- What a connection keeps -/
structure Bounded (c : ClientConnection) : Prop where
  sequenceNumber : c.sequenceNumber.value < 2 ^ 32
  ackNumber : ∀ m ∈ c.ackNumber, m.value ≤ lastNumber
  socket : ∀ raw ∈ c.socket.lastRawPacket, Counted raw
  outbox : ∀ o ∈ c.outbox, Counted o.1

/-- The same of the local variables where it is blocked, and of the number that the chunks of a
download are counted from. -/
def AtPoint (c : ClientConnection) : Prop :=
  match c.point with
  | .receiveFilenameForDownload | .waitForFirstPacketAck => c.sequenceNumber.value ≤ lastNumber
  | .waitForChunkAck remaining _ _ => ∀ chunk ∈ remaining, chunk.length ≤ fileChunkSizeSaw
  | .sendFileGbn sender => sender.Bounded
  | .receiveFileGbn receiver => receiver.Bounded
  | _ => True

/-- A stretch of `run` in which everything that is encoded fits -/
abbrev Encodes : Exec → Prop := Fits Bounded AtPoint

variable {cfg : Config} {c : ClientConnection} {now : Time}

namespace Bounded

theorem stepSequence (h : Bounded c) : Bounded c.stepSequence :=
  ⟨lt_of_le_of_lt c.sequenceNumber.step_le lastNumber_lt, h.ackNumber, h.socket, h.outbox⟩

theorem stepAck (h : Bounded c) : Bounded c.stepAck := by
  refine ⟨h.sequenceNumber, ?_, h.socket, h.outbox⟩
  intro m hm
  obtain ⟨n, -, rfl⟩ := Option.map_eq_some_iff.mp hm
  exact n.step_le

theorem block (h : Bounded c) (point : Point) (now : Time) : Bounded (c.block point now) :=
  ⟨h.sequenceNumber, h.ackNumber, h.socket, h.outbox⟩

theorem report (h : Bounded c) (r : Report) : Bounded (c.report r) :=
  ⟨h.sequenceNumber, h.ackNumber, h.socket, h.outbox⟩

theorem finish (h : Bounded c) : Bounded c.finish :=
  ⟨h.sequenceNumber, h.ackNumber, h.socket, h.outbox⟩

theorem withState (h : Bounded c) (state : ConnectionState) : Bounded { c with state } :=
  ⟨h.sequenceNumber, h.ackNumber, h.socket, h.outbox⟩

theorem withNumber (h : Bounded c) {n : SequenceNumber} (hn : n.value = c.sequenceNumber.value) :
    Bounded { c with sequenceNumber := n } :=
  ⟨lt_of_eq_of_lt hn h.sequenceNumber, h.ackNumber, h.socket, h.outbox⟩

theorem retransmit (h : Bounded c) (b : Bool) : Bounded (c.retransmit b) := by
  refine ⟨h.sequenceNumber, h.ackNumber, h.socket, ?_⟩
  intro o ho
  rcases List.mem_append.mp ho with ho | ho
  · exact h.outbox o ho
  · split at ho
    · unfold SocketSaw.retransmission at ho
      split at ho
      · rename_i raw A hraw _
        rw [List.mem_singleton.mp ho]
        exact h.socket raw hraw
      · cases ho
    · cases ho

theorem handed (h : Bounded c) {raw : Bytes} (hraw : Counted raw) : Bounded (c.handed cfg raw) := by
  refine ⟨h.sequenceNumber, h.ackNumber, ?_, ?_⟩
  · intro raw' hr
    exact Option.some.inj hr ▸ hraw
  · intro o ho
    rcases List.mem_append.mp ho with ho | ho
    · exact h.outbox o ho
    · exact List.mem_singleton.mp ho ▸ hraw

/-- A packet that is sent changes no number. -/
theorem send (h : Bounded c) (isAck isFin : Bool) {data : Bytes}
    (hdata : data.length < payloadLimit cfg.protocolVersion) :
    Fits Bounded (fun c' ↦ c'.sequenceNumber = c.sequenceNumber)
      (ClientConnection.send cfg c isAck isFin data) := by
  rw [ClientConnection.send_eq_encode]
  rcases encode_fits h.sequenceNumber h.ackNumber isAck false isFin
    cfg.address.port hdata with ⟨raw, hok, hcounted, -⟩ | ⟨-, -, herror⟩
  · rw [hok]
    exact ⟨h.handed hcounted, rfl⟩
  · rw [herror]
    exact ⟨by decide, h⟩

theorem sendAck (h : Bounded c) :
    Fits Bounded (fun c' ↦ c'.sequenceNumber = c.sequenceNumber) (ClientConnection.sendAck cfg c) :=
  h.send true false (nil_lt_payloadLimit _)

theorem sendFin (h : Bounded c) :
    Fits Bounded (fun c' ↦ c'.sequenceNumber = c.sequenceNumber) (ClientConnection.sendFin cfg c) :=
  h.send false true (nil_lt_payloadLimit _)

end Bounded

/-! ## Receiving -/

theorem inRange_of_receiveRaises {α : Type} {op : Operation α}
    (h : ∀ e, op.Raises e → e.cls ∈ receiveRaises) : op.InRange := by
  have hall : ∀ cls ∈ receiveRaises, ¬cls.OutOfRange := by decide
  intro e he
  exact hall e.cls (h e he)

theorem inRange_waitForAck (n : SequenceNumber) : (waitForAck n).InRange := by
  have h : ((waitForAck n).letThrough []).InRange := inRange_of_receiveRaises fun _ ↦ waitForAck_raises
  exact h

theorem heard_waitForAck (n : SequenceNumber) {raw : Bytes} (hraw : Counted raw)
    (source : Option Address) : GoBackNSender.Heard (ServerProtocolGbn.waitForAck n raw source) := by
  have hall : ∀ cls ∈ ServerProtocolGbn.waitForAckRaises, ¬cls.OutOfRange := by decide
  refine .of_parsed hraw ?_ fun _ ↦ ServerProtocolGbn.waitForAck_parsed
  intro e he
  exact hall e.cls (ServerProtocolGbn.waitForAck_error he)

/-- One event in a wrapped receive: it goes on waiting, or with what the operation returned or
raised. -/
theorem fits_listen {α : Type} {op : Operation α} (hop : op.InRange) (h : Bounded c) (hp : AtPoint c)
    (ev : Event) {k : ClientConnection → Except Exn α → Exec}
    (hok : ∀ a raw source, op.check raw source = .ok a → Encodes (k c (.ok a)))
    (herror : ∀ c' e, Bounded c' → ¬e.cls.OutOfRange → Encodes (k c' (.error e))) :
    Encodes (listen c op ev k) := by
  unfold listen
  split
  · rename_i r b _
    have hr := h.retransmit b
    exact ⟨⟨hr.sequenceNumber, hr.ackNumber, hr.socket, hr.outbox⟩, hp⟩
  · rename_i a hl
    obtain ⟨raw, source, -, hc⟩ := returned_check hl
    exact hok a raw source hc
  · rename_i e b hl
    exact herror _ e (h.retransmit b) (hop e (fails_of_raised hl).raises)

namespace Bounded

/-! ## Upload -/

theorem onFilenameForUpload (h : Bounded c) {r : SequenceNumber × String}
    (hr : r.1.value = c.sequenceNumber.value) :
    Encodes (ClientConnection.onFilenameForUpload cfg now c r) := by
  have h₁ := h.withNumber hr
  unfold ClientConnection.onFilenameForUpload
  dsimp only
  split
  · rename_i file disk _
    have h₂ : Bounded { c with sequenceNumber := r.1, file := some file, disk } :=
      ⟨h₁.sequenceNumber, h₁.ackNumber, h₁.socket, h₁.outbox⟩
    exact h₂.sendAck.bind fun c₁ h₃ _ ↦ ⟨h₃.stepSequence.block _ now, trivial⟩
  · rename_i e he
    split
    · exact ⟨show ¬ExnClass.connectionClosingNeeded.OutOfRange by decide, h₁.withState _⟩
    · exact ⟨inRange_openFileWrite cfg.fileHandler c.disk _ e he, h₁⟩

theorem startReception (h : Bounded c) : Bounded (ClientConnection.startReception cfg now c) ∧
    AtPoint (ClientConnection.startReception cfg now c) := by
  unfold ClientConnection.startReception
  split
  · rename_i ackNumber _ hack
    refine ⟨⟨h.sequenceNumber, h.ackNumber, ?_, h.outbox⟩, ?_⟩
    · intro raw hr
      cases hr
    · exact ⟨h.sequenceNumber, h.ackNumber _ hack, h.socket⟩
  · exact ⟨h.stepSequence.block _ now, trivial⟩

theorem onFilesize (h : Bounded c) (filename : String) {r : SequenceNumber × Nat}
    (hr : r.1.value = c.sequenceNumber.value) :
    Encodes (ClientConnection.onFilesize cfg now filename c r) := by
  have h₁ := (h.withNumber hr).stepAck
  unfold ClientConnection.onFilesize
  dsimp only
  split
  · refine h₁.sendAck.bind fun c₁ h₂ _ ↦ ?_
    have h₃ : Bounded { c₁ with filenameForUpload := some filename, filesizeForUpload := some r.2 } :=
      ⟨h₂.sequenceNumber, h₂.ackNumber, h₂.socket, h₂.outbox⟩
    exact h₃.startReception
  · exact ⟨show ¬ExnClass.connectionClosingNeeded.OutOfRange by decide, h₁.withState _⟩

theorem appendToFile (h : Bounded c) (packet : Packet) :
    Bounded (ClientConnection.appendToFile cfg c packet) := by
  unfold ClientConnection.appendToFile
  split
  · exact ⟨h.sequenceNumber, h.ackNumber, h.socket, h.outbox⟩
  · exact h

theorem appendTaken (cfg : Config) (h : Bounded c) (packet : Option Packet) :
    Bounded (ClientConnection.appendTaken cfg c packet) := by
  cases packet with
  | none => exact h
  | some packet => exact h.appendToFile packet

theorem closeWritten (h : Bounded c) : Bounded c.closeWritten := by
  unfold ClientConnection.closeWritten
  split
  · exact ⟨h.sequenceNumber, h.ackNumber, h.socket, h.outbox⟩
  · exact h

theorem closingHandshakeForUpload (h : Bounded c) :
    Encodes (ClientConnection.closingHandshakeForUpload cfg now c) := by
  have hsends : Encodes (do
      let c ← ClientConnection.sendAck cfg (c.report .connectionFinalizationReceived)
      let c ← ClientConnection.sendFin cfg c
      return c.stepSequence.block .closingHandshakeForUpload now) :=
    (h.report _).sendAck.bind fun _ h₁ _ ↦ h₁.sendFin.bind fun _ h₂ _ ↦
      ⟨h₂.stepSequence.block _ now, trivial⟩
  unfold ClientConnection.closingHandshakeForUpload finallyDone
  split
  · rename_i hx
    rwa [hx] at hsends
  · rename_i hx
    rw [hx] at hsends
    exact ⟨hsends.1, hsends.2.withState _⟩

/-- The last chunk is not acknowledged. -/
theorem acknowledge (h : Bounded c) (isFin : Bool) {k : ClientConnection → Exec}
    (hk : ∀ c', Bounded c' → Encodes (k c')) :
    Encodes (if isFin then .ok c >>= k else ClientConnection.sendAck cfg c >>= k) := by
  split
  · exact hk c h
  · exact h.sendAck.bind fun c' h' _ ↦ hk c' h'

theorem onFileChunk (h : Bounded c) {r : SequenceNumber × Packet}
    (hr : r.1.value = c.sequenceNumber.value) :
    Encodes (ClientConnection.onFileChunk cfg now c r) := by
  refine (h.withNumber hr).acknowledge r.2.isFin fun c₁ h₁ ↦ ?_
  have h₂ : Bounded (ClientConnection.appendToFile cfg c₁ r.2) := h₁.appendToFile r.2
  dsimp only
  split
  · exact h₂.closeWritten.closingHandshakeForUpload
  · exact ⟨h₂.stepSequence.block _ now, trivial⟩

theorem sendReply (h : Bounded c) {receiver : GoBackNReceiver} (hr : receiver.Bounded)
    {reply : GoBackNReceiver.Reply}
    (hreply : reply = .sendAck receiver.sqnNumber receiver.ackNumber ∨ reply = .resendLast) :
    Fits Bounded (fun _ ↦ True) (ClientConnection.sendReply cfg receiver c reply) := by
  rcases hreply with rfl | rfl
  · have hack : ∀ m ∈ some receiver.ackNumber, m.value ≤ lastNumber :=
      fun m hm ↦ Option.some.inj hm ▸ hr.ackNumber
    unfold ClientConnection.sendReply
    rcases encode_fits hr.sqnNumber hack true false false cfg.address.port
      (nil_lt_payloadLimit .goBackN) with ⟨raw, hok, hcounted, -⟩ | ⟨-, -, herror⟩
    · dsimp only
      rw [hok]
      refine ⟨⟨h.sequenceNumber, h.ackNumber, h.socket, ?_⟩, trivial⟩
      intro o ho
      rcases List.mem_append.mp ho with ho | ho
      · exact h.outbox o ho
      · exact List.mem_singleton.mp ho ▸ hcounted
    · dsimp only
      rw [herror]
      exact ⟨by decide, h⟩
  · refine ⟨⟨h.sequenceNumber, h.ackNumber, h.socket, ?_⟩, trivial⟩
    intro o ho
    rcases List.mem_append.mp ho with ho | ho
    · exact h.outbox o ho
    · obtain ⟨raw, hraw, rfl⟩ := Option.map_eq_some_iff.mp (Option.mem_toList.mp ho)
      exact hr.lastTransmittedPacket raw hraw

theorem sendReplies {receiver : GoBackNReceiver} (hr : receiver.Bounded)
    {replies : List GoBackNReceiver.Reply}
    (hreplies : ∀ reply ∈ replies, reply = .sendAck receiver.sqnNumber receiver.ackNumber ∨
      reply = .resendLast) (h : Bounded c) :
    Fits Bounded (fun _ ↦ True) (replies.foldlM (ClientConnection.sendReply cfg receiver) c) := by
  induction replies generalizing c with
  | nil => exact ⟨h, trivial⟩
  | cons reply replies ih =>
      rw [List.foldlM_cons]
      refine (h.sendReply hr (hreplies reply List.mem_cons_self)).bind fun c₁ h₁ _ ↦ ?_
      exact ih (fun reply hmem ↦ hreplies reply (List.mem_cons_of_mem _ hmem)) h₁

theorem onGbnPacket (h : Bounded c) {receiver : GoBackNReceiver} (hr : receiver.Bounded)
    (packet : Packet) : Encodes (ClientConnection.onGbnPacket cfg now receiver c packet) := by
  have hr' := hr.onPacket packet
  unfold ClientConnection.onGbnPacket
  refine (sendReplies hr (receiver.replies_onPacket packet) h).bind fun c₁ h₁ _ ↦ ?_
  have h₂ : Bounded
      { c₁ with
        sequenceNumber := (receiver.onPacket packet).receiver.sqnNumber
        ackNumber := some (receiver.onPacket packet).receiver.ackNumber
        point := .receiveFileGbn (receiver.onPacket packet).receiver } :=
    ⟨hr'.sqnNumber, fun m hm ↦ Option.some.inj hm ▸ hr'.ackNumber, h₁.socket, h₁.outbox⟩
  have h₃ := h₂.appendTaken cfg (receiver.onPacket packet).appended
  dsimp only
  split
  · exact h₃.closeWritten.closingHandshakeForUpload
  · refine ⟨h₃, ?_⟩
    unfold AtPoint
    rw [point_appendTaken]
    exact hr'

theorem listenReceiver (h : Bounded c) {receiver : GoBackNReceiver} (hr : receiver.Bounded)
    (hp : AtPoint c) (ev : Event) : Encodes (ClientConnection.listenReceiver cfg receiver c ev) := by
  unfold ClientConnection.listenReceiver
  split
  · exact ⟨h, hp⟩
  · rename_i e he
    split
    · exact ⟨show ¬ExnClass.connectionLost.OutOfRange by decide, h⟩
    · refine ⟨?_, h⟩
      cases ev with
      | proceed | datagram => cases he
      | timeout | osError =>
          obtain rfl := Except.error.inj (Option.some.inj he)
          decide
  · rename_i raw source _
    split
    · rename_i e he
      exact ⟨(inRange_validateInboundPacket (by decide) raw source).map Prod.fst e he, h⟩
    · exact h.onGbnPacket hr _

/-! ## Download -/

theorem completeDownload (h : Bounded c) : Encodes (ClientConnection.completeDownload cfg c) := by
  refine (h.report .fileTransferComplete).stepSequence.sendAck.bind fun c₁ h₁ _ ↦ ?_
  exact ⟨((h₁.withState .doneReadyToDie).report .downloadCompleted).finish, trivial⟩

theorem closingHandshakeForDownload (h : Bounded c) (alreadyReceivedFinBack : Bool) :
    Encodes (ClientConnection.closingHandshakeForDownload cfg now alreadyReceivedFinBack c) := by
  unfold ClientConnection.closingHandshakeForDownload
  split
  · exact h.completeDownload
  · exact ⟨h.block _ now, trivial⟩

theorem transmitFile (totalChunks : Nat) {remaining : List Bytes} (chunkNumber : Nat)
    (isFirstChunk : Bool) (hchunks : ∀ chunk ∈ remaining, chunk.length ≤ fileChunkSizeSaw)
    (h : Bounded c) :
    Encodes (ClientConnection.transmitFile cfg now totalChunks remaining chunkNumber isFirstChunk c) := by
  induction remaining generalizing chunkNumber isFirstChunk c with
  | nil => exact h.closingHandshakeForDownload false
  | cons chunk remaining ih =>
      have hrest : ∀ chunk ∈ remaining, chunk.length ≤ fileChunkSizeSaw :=
        fun chunk hc ↦ hchunks chunk (List.mem_cons_of_mem _ hc)
      have hdata := chunk_lt_payloadLimit cfg.protocolVersion (hchunks chunk List.mem_cons_self)
      have h₁ : Bounded (if isFirstChunk then c else c.stepSequence) := by
        split
        · exact h
        · exact h.stepSequence
      refine (h₁.send isFirstChunk _ hdata).bind fun c₁ h₂ _ ↦ ?_
      split
      · exact ih (chunkNumber + 1) false hrest h₂
      · exact ⟨h₂.block _ now, hrest⟩

theorem sendFirstPacket (h : Bounded c) (hn : c.sequenceNumber.value ≤ lastNumber) (file : File) :
    Encodes (ClientConnection.sendFirstPacket cfg now file c) := by
  have h₁ : Bounded { c with file := some (FileHandler.read file fileChunkSizeGbn).2 } :=
    ⟨h.sequenceNumber, h.ackNumber, h.socket, h.outbox⟩
  have hread : (FileHandler.read file fileChunkSizeGbn).1.length ≤ fileChunkSizeSaw := by
    rw [FileHandler.read, List.length_take]
    exact le_trans (min_le_left _ _) (by decide)
  unfold ClientConnection.sendFirstPacket
  refine (h₁.send true _ (chunk_lt_payloadLimit _ hread)).bind fun c₁ h₂ hseq ↦ ?_
  split
  · exact h₂.closingHandshakeForDownload false
  · refine ⟨h₂.block _ now, ?_⟩
    show c₁.sequenceNumber.value ≤ lastNumber
    rwa [hseq]

theorem onFilenameForDownload (h : Bounded c) (hn : c.sequenceNumber.value ≤ lastNumber)
    {r : SequenceNumber × String} (hr : r.1.value = c.sequenceNumber.value) :
    Encodes (ClientConnection.onFilenameForDownload cfg now c r) := by
  have h₁ := (h.withNumber hr).stepAck
  unfold ClientConnection.onFilenameForDownload
  dsimp only
  split
  · rename_i file _
    have h₂ : Bounded { ({ c with sequenceNumber := r.1 } : ClientConnection).stepAck with
        file := some file } := ⟨h₁.sequenceNumber, h₁.ackNumber, h₁.socket, h₁.outbox⟩
    split
    · exact h₂.transmitFile _ 1 true fun _ hc ↦ FileHandler.length_le_of_mem_successiveReads hc
    · exact h₂.sendFirstPacket (le_of_eq_of_le hr hn) file
  · rename_i e he
    split
    · exact h₁.sendFin.bind fun c₁ h₂ _ ↦
        ⟨show ¬ExnClass.connectionClosingNeeded.OutOfRange by decide, h₂.withState _⟩
    · exact ⟨inRange_openFileRead cfg.fileHandler _ _ e he, h₁⟩

theorem onSender (h : Bounded c) {r : GoBackNSender.Result} (hr : r.Bounded) :
    Encodes (ClientConnection.onSender cfg now c r) := by
  cases r with
  | running s sent =>
      refine ⟨⟨h.sequenceNumber, h.ackNumber, h.socket, ?_⟩, hr.1⟩
      intro o ho
      rcases List.mem_append.mp ho with ho | ho
      · exact h.outbox o ho
      · obtain ⟨raw, hraw, rfl⟩ := Option.map_eq_some_iff.mp (Option.mem_toList.mp ho)
        exact hr.2 raw hraw
  | returned s =>
      refine closingHandshakeForDownload ?_ s.alreadyReceivedFinBack
      refine ⟨hr.returned, ?_, hr.lastRawPacket, h.outbox⟩
      intro m hm
      exact Option.some.inj hm ▸ hr.ackNumber
  | raised e => exact ⟨hr, h⟩

theorem onFirstPacketAck (h : Bounded c) (hn : c.sequenceNumber.value ≤ lastNumber)
    (hp : AtPoint c) : Encodes (ClientConnection.onFirstPacketAck cfg now c) := by
  unfold ClientConnection.onFirstPacketAck
  split
  · rename_i file ackNumber _ _
    have hchunks : ∀ chunk ∈ (GoBackNSender.splitFileInChunksServer file file.content.length).1,
        chunk.length ≤ fileChunkSizeGbn := fun _ hc ↦ GoBackNSender.length_le_of_mem_readChunks hc
    have hsender := GoBackNSender.bounded_initServer hn ackNumber hchunks
    refine onSender ?_ (hsender.loop false)
    refine ⟨h.sequenceNumber, ?_, ?_, h.outbox⟩
    · intro m hm
      exact Option.some.inj hm ▸ hsender.ackNumber
    · intro raw hr
      cases hr
  · exact ⟨h, hp⟩

theorem listenSender (h : Bounded c) {sender : GoBackNSender} (hs : sender.Bounded) (hp : AtPoint c)
    {ev : Event} (hev : ev.Counts) : Encodes (ClientConnection.listenSender cfg sender c ev) := by
  unfold ClientConnection.listenSender
  split
  · split
    · exact ⟨h, hp⟩
    · rename_i received hr
      refine h.onSender (hs.awaitAckPhaseServer ?_ _)
      cases ev with
      | proceed => cases hr
      | datagram raw source now =>
          obtain rfl := Option.some.inj hr
          exact heard_waitForAck _ ((hev raw source now rfl).take (by decide)) source
      | timeout | osError =>
          obtain rfl := Option.some.inj hr
          exact .of_error (by decide) rfl
  · split
    · exact h.onSender (hs.proceed cfg.address.port _)
    · exact ⟨h, hp⟩

end Bounded

/-! ## Steps -/

/-- What holds between two steps -/
structure Settled (c : ClientConnection) : Prop extends Bounded c where
  atPoint : AtPoint c

/-- The packet a connection is built from comes out of such a datagram. -/
structure Counts (cfg : Config) : Prop where
  sequenceNumber : cfg.initialPacket.sequenceNumber < 2 ^ 32
  ackNumber : ∀ n ∈ cfg.initialPacket.ackNumber, n ≤ lastNumber

variable {x : Exec}

theorem Encodes.raised (h : Encodes x) : AllInRange (ClientConnection.raised x) := by
  intro e he
  cases x with
  | ok c => cases he
  | error x => exact List.mem_singleton.mp he ▸ h.1

theorem Encodes.swallow (h : Encodes x) : Settled (ClientConnection.swallow x) := by
  cases x with
  | ok c => exact ⟨h.1, h.2⟩
  | error x => exact ⟨h.2.finish, trivial⟩

theorem Bounded.fileCleanupAfterError (h : Bounded c) :
    Bounded (ClientConnection.fileCleanupAfterError cfg c) := by
  unfold ClientConnection.fileCleanupAfterError
  split
  · exact ⟨h.sequenceNumber, h.ackNumber, h.socket, h.outbox⟩
  · exact h

theorem Encodes.handle (h : Encodes x) : Settled (ClientConnection.handle cfg now x) := by
  cases x with
  | ok c => exact ⟨h.1, h.2⟩
  | error x =>
      have hcloses : Encodes (do
          let c ← sendFin cfg x.2.stepSequence.stepAck
          return c.block .initiateCloseConnection now) :=
        h.2.stepSequence.stepAck.sendFin.bind fun _ h₁ _ ↦ ⟨h₁.block _ now, trivial⟩
      unfold ClientConnection.handle
      dsimp only
      split
      · exact hcloses.swallow
      · split
        · exact ⟨h.2.finish, trivial⟩
        · exact ⟨(h.2.withState .unrecoverableBadState).fileCleanupAfterError.finish, trivial⟩

theorem Encodes.raisedInHandle (h : Encodes x) :
    AllInRange (ClientConnection.raisedInHandle cfg x) := by
  intro e he
  cases x with
  | ok c => cases he
  | error x =>
      rcases List.mem_cons.mp he with rfl | he
      · exact h.1
      · split at he
        · cases hs : sendFin cfg x.2.stepSequence.stepAck with
          | ok c =>
              rw [hs] at he
              cases he
          | error y =>
              have hsent : Fits Bounded _ (sendFin cfg x.2.stepSequence.stepAck) :=
                h.2.stepSequence.stepAck.sendFin
              rw [hs] at he hsent
              exact List.mem_singleton.mp he ▸ hsent.1
        · cases he

theorem Settled.clearOutbox (h : Settled c) : Settled { c with outbox := [] } :=
  ⟨⟨h.sequenceNumber, h.ackNumber, h.socket, fun _ ho ↦ (by cases ho)⟩, h.atPoint⟩

theorem Settled.withDisk (h : Settled c) (disk : Disk) : Settled { c with disk } :=
  ⟨⟨h.sequenceNumber, h.ackNumber, h.socket, h.outbox⟩, h.atPoint⟩

theorem Bounded.onClosingUpload (h : Bounded c) {r : Except Exn Unit} (hr : InRange r) :
    Encodes (ClientConnection.onClosingUpload cfg c r) := by
  have hcompleted := ((h.withState .doneReadyToDie).report .uploadCompleted).finish
  cases r with
  | ok u => exact ⟨hcompleted, trivial⟩
  | error e =>
      unfold ClientConnection.onClosingUpload
      dsimp only
      split
      · exact ⟨hcompleted, trivial⟩
      · exact ⟨hr e rfl, h.withState _⟩

theorem Bounded.onFinOrAck (h : Bounded c) (u : Unit) :
    Encodes (ClientConnection.onFinOrAck cfg c u) :=
  h.stepSequence.stepAck.sendAck.bind fun _ h₁ _ ↦ ⟨h₁.finish, trivial⟩

/-- One case per point. -/
theorem Settled.onEvent (h : Settled c) {ev : Event} (hev : ev.Counts) :
    Encodes (ClientConnection.onEvent cfg c ev) := by
  have hp := h.atPoint
  have raises : ∀ (c' : ClientConnection) (e : Exn), Bounded c' → ¬e.cls.OutOfRange →
      Encodes (.error (e, c')) := fun _ _ h' he ↦ ⟨he, h'⟩
  unfold ClientConnection.onEvent
  cases hpoint : c.point with
  | receiveFilenameForUpload =>
      refine fits_listen (inRange_of_receiveRaises fun _ ↦ receiveFilename_raises) h.toBounded hp ev ?_
        raises
      intro r raw source hc
      obtain ⟨-, -, -, -, hr⟩ := receiveFilename_eq_ok.mp hc
      exact h.onFilenameForUpload (by rw [hr])
  | receiveFilesize filename =>
      refine fits_listen (inRange_of_receiveRaises fun _ ↦ receiveFilesize_raises) h.toBounded hp ev ?_
        raises
      intro r raw source hc
      obtain ⟨-, -, -, hr⟩ := receiveFilesize_eq_ok.mp hc
      exact h.onFilesize filename (by rw [hr])
  | receiveFileChunk =>
      refine fits_listen (inRange_of_receiveRaises fun _ ↦ receiveFileChunk_raises) h.toBounded hp ev ?_
        raises
      intro r raw source hc
      obtain ⟨-, -, -, hr⟩ := receiveFileChunk_eq_ok.mp hc
      exact h.onFileChunk (by rw [hr])
  | receiveFileGbn receiver =>
      have hr : receiver.Bounded := by
        unfold AtPoint at hp
        rwa [hpoint] at hp
      exact h.listenReceiver hr h.atPoint ev
  | closingHandshakeForUpload =>
      refine fits_listen (inRange_of_receiveRaises fun _ ↦ waitForAck_raises) h.toBounded hp ev ?_ ?_
      · intro u raw source _
        exact h.onClosingUpload (.ok u)
      · intro c' e h' he
        exact h'.onClosingUpload (.error he)
  | initiateCloseConnection =>
      refine fits_listen (inRange_of_receiveRaises fun _ ↦ waitForFinOrAck_raises) h.toBounded hp ev ?_
        raises
      intro u raw source _
      exact h.onFinOrAck u
  | receiveFilenameForDownload =>
      have hn : c.sequenceNumber.value ≤ lastNumber := by
        unfold AtPoint at hp
        rwa [hpoint] at hp
      refine fits_listen (inRange_of_receiveRaises fun _ ↦ receiveFilename_raises) h.toBounded h.atPoint
        ev ?_ raises
      intro r raw source hc
      obtain ⟨-, -, -, -, hr⟩ := receiveFilename_eq_ok.mp hc
      exact h.onFilenameForDownload hn (by rw [hr])
  | waitForChunkAck remaining chunkNumber totalChunks =>
      have hchunks : ∀ chunk ∈ remaining, chunk.length ≤ fileChunkSizeSaw := by
        unfold AtPoint at hp
        rwa [hpoint] at hp
      refine fits_listen (inRange_waitForAck _) h.toBounded h.atPoint ev ?_ raises
      intro u raw source _
      exact h.transmitFile totalChunks chunkNumber false hchunks
  | waitForFirstPacketAck =>
      have hn : c.sequenceNumber.value ≤ lastNumber := by
        unfold AtPoint at hp
        rwa [hpoint] at hp
      refine fits_listen (inRange_waitForAck _) h.toBounded h.atPoint ev ?_ raises
      intro u raw source _
      exact h.onFirstPacketAck hn h.atPoint
  | sendFileGbn sender =>
      have hs : sender.Bounded := by
        unfold AtPoint at hp
        rwa [hpoint] at hp
      exact h.listenSender hs h.atPoint hev
  | closingHandshakeForDownload =>
      refine fits_listen (inRange_of_receiveRaises fun _ ↦ waitForFinOrAck_raises) h.toBounded hp ev ?_
        raises
      intro u raw source _
      exact h.completeDownload
  | ended => exact ⟨h.toBounded, hp⟩

theorem Settled.step (h : Settled c) {ev : Event} (hev : ev.Counts) :
    Settled (ClientConnection.step cfg c ev) := by
  unfold ClientConnection.step
  dsimp only
  split
  · exact (h.clearOutbox.onEvent hev).swallow
  · exact (h.clearOutbox.onEvent hev).handle

theorem Settled.stepRaised (h : Settled c) {ev : Event} (hev : ev.Counts) :
    AllInRange (ClientConnection.stepRaised cfg c ev) := by
  unfold ClientConnection.stepRaised
  dsimp only
  split
  · exact (h.clearOutbox.onEvent hev).raised
  · exact (h.clearOutbox.onEvent hev).raisedInHandle

theorem Bounded.processOperationIntention (h : Bounded c) :
    Encodes (ClientConnection.processOperationIntention cfg now c) := by
  unfold ClientConnection.processOperationIntention
  split
  · rename_i e he
    unfold ServerProtocol.processOperationIntention at he
    dsimp only at he
    split at he
    · exact Except.error.inj he ▸ ⟨by decide, h⟩
    · cases he
  · split
    · exact (h.withState .readyToReceive).sendAck.bind fun c₁ h₁ _ ↦
        ⟨h₁.stepSequence.stepAck.block _ now, trivial⟩
    · exact (h.withState .readyToTransmit).sendAck.bind fun c₁ h₁ _ ↦
        ⟨h₁.stepSequence.block _ now, c₁.sequenceNumber.step_le⟩

theorem bounded_init (h : Counts cfg) (disk : Disk) (now : Time) : Bounded (init cfg disk now) :=
  ⟨h.sequenceNumber, fun _ hm ↦ (by cases hm), fun _ hr ↦ (by cases hr), fun _ ho ↦ (by cases ho)⟩

theorem settled_start (h : Counts cfg) (disk : Disk) (now : Time) :
    Settled (start cfg disk now) ∧ AllInRange (startRaised cfg disk now) := by
  have hinit := bounded_init h disk now
  unfold start startRaised
  cases cfg.protocolVersion with
  | stopAndWait =>
      exact ⟨hinit.processOperationIntention.handle, hinit.processOperationIntention.raisedInHandle⟩
  | goBackN =>
      cases hn : cfg.initialPacket.ackNumber with
      | none =>
          exact ⟨⟨hinit, trivial⟩, show AllInRange [ExnClass.attributeError] by decide⟩
      | some n =>
          have hack : Bounded { init cfg disk now with ackNumber := some ⟨n, .goBackN⟩ } :=
            ⟨hinit.sequenceNumber, fun m hm ↦ Option.some.inj hm ▸ h.ackNumber n hn, hinit.socket,
              hinit.outbox⟩
          exact ⟨hack.processOperationIntention.handle, hack.processOperationIntention.raisedInHandle⟩

end ClientConnection

/-! ## The accepter and its connections -/

namespace Accepter

open AccepterProtocol

/-- What `run` of a connection raises that a completed handshake starts -/
def startsRaised (cfg : AccepterConfig) (a : Accepter) (ev : Event) : List ExnClass :=
  match a.point with
  | .acceptConnection => []
  | .handshake clientAddress connectionAddress ackNumber listening =>
      match reListenIfFailed (expectHandshakeCompletion ackNumber) a.welcomingSocket listening ev with
      | .returned (packet, _) =>
          match ripFinishedClients a.clients with
          | .ok _ =>
              ClientConnection.startRaised
                (createConnection cfg connectionAddress clientAddress packet a.disk ev.now).cfg a.disk ev.now
          | .error _ => []
      | _ => []

/-- The exceptions that one event of the server leads to: in the connection it is for, or in the
thread of the accepter where none is caught. -/
def stepRaised (cfg : AccepterConfig) (a : Accepter) (e : ServerEvent) : List ExnClass :=
  match e with
  | .connection key ev =>
      match a.clients.find? fun e ↦ e.1 == key with
      | none => []
      | some (_, c) => ClientConnection.stepRaised c.cfg { c.thread with disk := a.disk } ev
  | .welcoming ev _ =>
      (if a.isAlive ∧ a.escaped = none then startsRaised cfg a ev else []) ++
        (step cfg a e).escaped.toList.map Exn.cls

/-- What the server keeps -/
structure Settled (a : Accepter) : Prop where
  escaped : ∀ e ∈ a.escaped, ¬e.cls.OutOfRange
  socket : ∀ raw ∈ a.welcomingSocket.lastRawPacket, Counted raw
  outbox : ∀ o ∈ a.outbox, Counted o.1
  clients : ∀ e ∈ a.clients, ClientConnection.Settled e.2.thread

/-- The event brings no other datagram. -/
def ServerEvent.Counts : ServerEvent → Prop
  | .welcoming ev _ => ev.Counts
  | .connection _ ev => ev.Counts

variable {cfg : AccepterConfig} {a : Accepter}

theorem inRange_acceptConnection (a : Accepter) (raw : Bytes) (source : Option Address) :
    InRange (a.acceptConnection raw source) := by
  refine .bind (inRange_validateInboundPacket (by decide) raw source) fun r ↦ ?_
  dsimp only
  split
  · exact .error (by decide)
  · split
    · exact .error (by decide)
    · exact .ok _

theorem acceptConnection_parsed {raw : Bytes} {source : Option Address} {r : Packet × Address}
    (h : a.acceptConnection raw source = .ok r) : getPacketFromBytes raw = r.1 := by
  obtain ⟨⟨packet, A⟩, hin, h⟩ := except_bind_eq_ok.mp h
  obtain ⟨-, -, hp⟩ := validateInboundPacket_eq_ok.mp hin
  dsimp only at h
  split at h
  · cases h
  · split at h
    · cases h
    · rw [hp, ← except_pure_eq_ok.mp h]

/-- The packet that completes a handshake is the one that was parsed. -/
theorem expectHandshakeCompletion_parsed {ack : Option SequenceNumber} {raw : Bytes}
    {source : Option Address} {r : Packet × Address}
    (h : (expectHandshakeCompletion ack).check raw source = .ok r) : getPacketFromBytes raw = r.1 := by
  obtain ⟨⟨packet, A⟩, hin, h⟩ := except_bind_eq_ok.mp h
  obtain ⟨-, -, hp⟩ := validateInboundPacket_eq_ok.mp hin
  obtain ⟨_, -, h⟩ := except_bind_eq_ok.mp h
  cases ack with
  | none =>
      dsimp only at h
      split at h
      · cases h
      · rw [hp, ← except_pure_eq_ok.mp h]
  | some m =>
      obtain ⟨_, -, h⟩ := except_bind_eq_ok.mp h
      dsimp only at h
      split at h
      · cases h
      · rw [hp, ← except_pure_eq_ok.mp h]

theorem inRange_expectHandshakeCompletion (ack : Option SequenceNumber) :
    (expectHandshakeCompletion ack).InRange := by
  refine .of_check_id rfl fun raw source ↦ ?_
  refine .bind (inRange_validateInboundPacket (by decide) raw source) fun r ↦ ?_
  refine .bind (inRange_validateAck (by decide) r.1) fun _ ↦ ?_
  have hlast : InRange (if r.1.isFin then .error ExnClass.unexpectedFinMessage.exn
      else (pure r : Except Exn (Packet × Address))) := by
    split
    · exact .error (by decide)
    · exact .ok _
  cases ack with
  | none => exact hlast
  | some m =>
      refine .bind ?_ fun _ ↦ hlast
      refine .bind (inRange_getAckNumber r.1) fun n ↦ ?_
      split
      · exact .error (by decide)
      · exact .ok _

/-- The datagram that completed a handshake -/
theorem completed_parsed {s : SocketSaw} {r : ReListen} {ack : Option SequenceNumber} {ev : Event}
    (hev : ev.Counts) {packet : Packet} {source : Address}
    (h : reListenIfFailed (expectHandshakeCompletion ack) s r ev = .returned (packet, source)) :
    ∃ raw, Counted raw ∧ getPacketFromBytes raw = packet := by
  obtain ⟨raw, source', hr, hc⟩ := returned_check h
  obtain ⟨raw', now, rfl, rfl⟩ := ReListen.recvfrom_packet hr
  exact ⟨_, (hev raw' source' now rfl).take (show gbnProtocolHeaderSize ≤ commsBufferSize by decide),
    expectHandshakeCompletion_parsed hc⟩

/-- Clients are only removed, and a missing one is no number. -/
theorem ripFinishedClients_spec (p : ClientPool) :
    (∀ p', ripFinishedClients p = .ok p' → ∀ e ∈ p', e ∈ p) ∧ InRange (ripFinishedClients p) := by
  have remove : ∀ (p p' : ClientPool) (A : Address), p.remove A = .ok p' → ∀ e ∈ p', e ∈ p := by
    intro p p' A h e he
    unfold ClientPool.remove at h
    split at h
    · rw [← Except.ok.inj h] at he
      exact (List.mem_filter.mp he).1
    · cases h
  have inRange : ∀ (p : ClientPool) (A : Address), InRange (p.remove A) := by
    intro p A
    unfold ClientPool.remove
    split
    · exact .ok _
    · exact .error (by decide)
  unfold ripFinishedClients
  generalize ((p.filter fun e ↦ e.2.isReadyToDie).map fun e ↦ e.2.cfg.address) = finished
  induction finished generalizing p with
  | nil =>
      refine ⟨?_, .ok p⟩
      intro p' h e he
      rwa [← except_pure_eq_ok.mp h] at he
  | cons A finished ih =>
      rw [List.foldlM_cons]
      refine ⟨?_, .bind (inRange p A) fun p₁ ↦ (ih p₁).2⟩
      intro p' h e he
      obtain ⟨p₁, h₁, h₂⟩ := except_bind_eq_ok.mp h
      exact remove p p₁ A h₁ e ((ih p₁).1 p' h₂ e he)

namespace Settled

theorem clearOutbox (h : Settled a) : Settled { a with outbox := [] } :=
  ⟨h.escaped, h.socket, fun _ ho ↦ (by cases ho), h.clients⟩

theorem atPoint (h : Settled a) (point : AccepterPoint) : Settled { a with point } :=
  ⟨h.escaped, h.socket, h.outbox, h.clients⟩

theorem loop (h : Settled a) : Settled a.loop :=
  ⟨h.escaped, fun _ hr ↦ (by cases hr), h.outbox, h.clients⟩

theorem handle (h : Settled a) {e : Exn} (he : ¬e.cls.OutOfRange) : Settled (a.handle e) := by
  unfold Accepter.handle
  split
  · exact h.loop
  · exact h.loop
  · exact h.loop
  · exact h.loop
  · exact h.loop
  · exact h.loop
  · exact ⟨h.escaped, h.socket, h.outbox, h.clients⟩
  · exact ⟨fun e' he' ↦ Option.some.inj he' ▸ he, h.socket, h.outbox, h.clients⟩

theorem retransmit (h : Settled a) (b : Bool) : Settled (a.retransmit b) := by
  refine ⟨h.escaped, h.socket, ?_, h.clients⟩
  intro o ho
  rcases List.mem_append.mp ho with ho | ho
  · exact h.outbox o ho
  · split at ho
    · unfold SocketSaw.retransmission at ho
      split at ho
      · rename_i raw A hraw _
        rw [List.mem_singleton.mp ho]
        exact h.socket raw hraw
      · cases ho
    · cases ho

/-- The answer repeats the numbers of the packet. -/
theorem send (h : Settled a) {raw : Bytes} (hraw : Counted raw) (isAck isSyn isFin : Bool)
    (port : UInt16) (A : Address) :
    (∃ sent, a.send (getPacketFromBytes raw).protocol (getPacketFromBytes raw).sequenceNumber
        (getPacketFromBytes raw).ackNumber isAck isSyn isFin port A = .ok sent ∧ Settled sent.1) ∨
      a.send (getPacketFromBytes raw).protocol (getPacketFromBytes raw).sequenceNumber
        (getPacketFromBytes raw).ackNumber isAck isSyn isFin port A =
          .error ExnClass.socketShutdown.exn := by
  by_cases hA : A.port = 0
  · exact .inr (send_unreachable a raw isAck isSyn isFin port hA)
  left
  obtain ⟨raw', hok, -, hparse⟩ := send_parsed a raw isAck isSyn isFin port ⟨A, hA⟩
  have hcounted : Counted raw' := by
    intro n hn
    rw [hparse] at hn
    exact hraw n hn
  refine ⟨_, hok, h.escaped, fun r hr ↦ Option.some.inj hr ▸ hcounted, ?_, h.clients⟩
  intro o ho
  rcases List.mem_append.mp ho with ho | ho
  · exact h.outbox o ho
  · exact List.mem_singleton.mp ho ▸ hcounted

theorem onAcceptConnection (h : Settled a) {ev : Event} (hev : ev.Counts) (bound : Peer) :
    Settled (Accepter.onAcceptConnection cfg a ev bound) := by
  unfold Accepter.onAcceptConnection
  split
  · rename_i raw source now
    have hraw : Counted (raw.take commsBufferSize) := (hev raw source now rfl).take (by decide)
    split
    · rename_i e he
      exact h.handle (inRange_acceptConnection a _ source e he)
    · rename_i packet clientAddress hok
      obtain rfl : getPacketFromBytes (raw.take commsBufferSize) = packet := acceptConnection_parsed hok
      unfold Accepter.handshake
      split
      · exact h.handle (by decide)
      · split
        · unfold rejectConnection
          rcases h.send hraw false false true clientAddress.port clientAddress with
            ⟨sent, hsend, hsent⟩ | hsend
          · rw [hsend]
            exact hsent.handle (by decide)
          · rw [hsend]
            exact h.handle (by decide)
        · rename_i hproto
          unfold sendConnectionAccepted
          rw [← not_not.mp hproto]
          rcases h.send hraw true true false bound.port clientAddress with ⟨sent, hsend, hsent⟩ | hsend
          · rw [hsend]
            exact hsent.atPoint _
          · rw [hsend]
            exact h.handle (by decide)
  · exact h.handle (by decide)
  · exact h
  · exact h

/-- What a completed handshake builds a connection from -/
theorem counts_createConnection {raw : Bytes} (hraw : Counted raw) (connectionAddress clientAddress : Peer)
    (disk : Disk) (now : Time) :
    ClientConnection.Counts
      (createConnection cfg connectionAddress clientAddress (getPacketFromBytes raw) disk now).cfg :=
  ⟨(getPacketFromBytes_bounds raw).1, hraw⟩

theorem addClient (cfg : AccepterConfig) (h : Settled a) {raw : Bytes} (hraw : Counted raw)
    (connectionAddress clientAddress : Peer) (now : Time) :
    (∃ e, ¬e.cls.OutOfRange ∧
        Accepter.addClient cfg a connectionAddress clientAddress (getPacketFromBytes raw) now = .error e) ∨
      ∃ a', Accepter.addClient cfg a connectionAddress clientAddress (getPacketFromBytes raw) now =
        .ok a' ∧ Settled a' := by
  obtain ⟨hsub, hrange⟩ := ripFinishedClients_spec a.clients
  unfold Accepter.addClient
  cases hrip : ripFinishedClients a.clients with
  | error e => exact .inl ⟨e, hrange e hrip, rfl⟩
  | ok clients =>
      refine .inr ⟨_, rfl, h.escaped, h.socket, h.outbox, ?_⟩
      intro e he
      rcases ClientPool.mem_add.mp he with rfl | ⟨he, -⟩
      · exact (ClientConnection.settled_start
          (counts_createConnection hraw connectionAddress clientAddress a.disk now) a.disk now).1
      · exact h.clients e (hsub clients hrip e he)

theorem onHandshake (h : Settled a) {ev : Event} (hev : ev.Counts)
    (clientAddress connectionAddress : Peer) (ackNumber : Option SequenceNumber)
    (listening : ReListen) :
    Settled (Accepter.onHandshake cfg a clientAddress connectionAddress ackNumber listening ev) := by
  unfold Accepter.onHandshake
  split
  · rename_i r b _
    exact (h.retransmit b).atPoint _
  · rename_i packet source hl
    obtain ⟨raw, hraw, rfl⟩ := completed_parsed hev hl
    rcases h.addClient cfg hraw connectionAddress clientAddress ev.now with
      ⟨e, he, herror⟩ | ⟨a', hok, ha'⟩
    · rw [herror]
      exact h.handle he
    · rw [hok]
      exact ha'.loop
  · rename_i e b hl
    exact (h.retransmit b).handle (inRange_expectHandshakeCompletion ackNumber e (fails_of_raised hl).raises)

theorem onConnection (h : Settled a) (key : String) {ev : Event} (hev : ev.Counts) :
    Settled (a.onConnection key ev) := by
  unfold Accepter.onConnection
  split
  · exact h
  · rename_i k c hfind
    have hc := h.clients (k, c) (List.mem_of_find?_eq_some hfind)
    refine ⟨h.escaped, h.socket, h.outbox, ?_⟩
    intro e he
    obtain ⟨e', he', rfl⟩ := List.mem_map.mp he
    split
    · exact (hc.withDisk a.disk).step hev
    · exact h.clients e' he'

theorem step (h : Settled a) {e : ServerEvent} (he : ServerEvent.Counts e) :
    Settled (Accepter.step cfg a e) := by
  unfold Accepter.step
  dsimp only
  split
  · exact h.clearOutbox.onConnection _ he
  · split
    · split
      · exact h.clearOutbox.onAcceptConnection he _
      · exact h.clearOutbox.onHandshake he _ _ _ _
    · exact h.clearOutbox

theorem stepRaised (h : Settled a) {e : ServerEvent} (he : ServerEvent.Counts e) :
    AllInRange (Accepter.stepRaised cfg a e) := by
  cases e with
  | connection key ev =>
      unfold Accepter.stepRaised
      dsimp only
      split
      · intro cls hcls
        cases hcls
      · rename_i k c hfind
        have hc := h.clients (k, c) (List.mem_of_find?_eq_some hfind)
        exact (hc.withDisk a.disk).stepRaised he
  | welcoming ev bound =>
      have hstep : Settled (Accepter.step cfg a (.welcoming ev bound)) := h.step he
      have hstarts : AllInRange (startsRaised cfg a ev) := by
        have hnil : AllInRange [] := fun cls hcls ↦ (by cases hcls)
        unfold startsRaised
        split
        · exact hnil
        · rename_i clientAddress connectionAddress ackNumber listening _
          split
          · rename_i packet source hl
            obtain ⟨raw, hraw, rfl⟩ := completed_parsed he hl
            split
            · exact (ClientConnection.settled_start
                (counts_createConnection hraw connectionAddress clientAddress a.disk ev.now) a.disk ev.now).2
            · exact hnil
          · exact hnil
      intro cls hcls
      rcases List.mem_append.mp hcls with hcls | hcls
      · split at hcls
        · exact hstarts cls hcls
        · cases hcls
      · obtain ⟨x, hx, rfl⟩ := List.mem_map.mp hcls
        exact hstep.escaped x (Option.mem_toList.mp hx)

theorem init (disk : Disk) : Settled (Accepter.init disk) :=
  ⟨fun _ he ↦ (by cases he), fun _ hr ↦ (by cases hr), fun _ ho ↦ (by cases ho), fun _ hc ↦ (by cases hc)⟩

end Settled

end Accepter

end Rdt.Server
