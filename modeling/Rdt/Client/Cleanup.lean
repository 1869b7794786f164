import Rdt.Client.Client
import Rdt.Lib.Transition

/-!
# What a failed download leaves on disk

The constructor creates the destination, and `file_cleanup_after_error` removes it.  Every
step of a download keeps the destination until then, so it is left behind where the thread ends
without the cleanup.
-/

namespace Rdt.Client

open ClientProtocol PacketParser

variable {cfg : Config} {c : Client} {dst name file : String} {now : Time}

/-- The destination is the regular file that is written, and is there; there is an ACK number where
packets have one. -/
structure OnDisk (cfg : Config) (file : String) (c : Client) : Prop where
  node : c.file.node = some file
  present : (c.disk file).isSome
  numbered : cfg.protocolVersion = .goBackN → c.ackNumber.isSome

theorem OnDisk.stepAck (h : OnDisk cfg file c) : OnDisk cfg file c.stepAck :=
  ⟨h.node, h.present, fun hproto ↦ Option.isSome_map.trans (h.numbered hproto)⟩

/-- Where a download leads; the end is reached only with the file complete. -/
def AtDownload (c : Client) : Prop :=
  match c.point with
  | .handshake | .sendOperationIntention _ | .informNameToDownload | .receiveFileSaw
  | .receiveFileGbn _ | .handleConnectionFinalization .sendOperationIntention
  | .handleConnectionFinalization .exceptClause => True
  | .handleConnectionFinalization .performDownload | .ended => c.downloadCompleted = true
  | _ => False

/-- A stretch of the thread keeps the destination. -/
def Goes (cfg : Config) (file : String) : Exec → Prop
  | .ok c => OnDisk cfg file c ∧ AtDownload c
  | .error (_, c) => OnDisk cfg file c

/-! ## Sending -/

theorem goes_send (h : OnDisk cfg file c) {isAck isSyn isFin : Bool} {port : UInt16} {data : Bytes}
    {k : Client → Exec} (hk : ∀ c', OnDisk cfg file c' → c'.downloadCompleted = c.downloadCompleted →
      Goes cfg file (k c')) : Goes cfg file (send cfg c isAck isSyn isFin port data >>= k) := by
  rcases send_cases cfg c isAck isSyn isFin port data with ⟨e, -, heq⟩ | ⟨raw, -, heq | heq⟩
  · rw [heq]
    exact h
  · rw [heq]
    exact hk _ ⟨h.node, h.present, h.numbered⟩ rfl
  · rw [heq]
    exact ⟨h.node, h.present, h.numbered⟩

theorem goes_informName (htask : cfg.task = .download dst name) (h : OnDisk cfg file c) :
    Goes cfg file (informName cfg now c) := by
  unfold informName
  rw [htask]
  have hstep : OnDisk cfg file c.stepSequence := ⟨h.node, h.present, h.numbered⟩
  exact goes_send hstep.stepAck fun c₁ h₁ _ ↦ ⟨⟨h₁.node, h₁.present, h₁.numbered⟩, trivial⟩

theorem goes_finalized (htask : cfg.task = .download dst name) (h : OnDisk cfg file c)
    {caller : Finalization} (hcaller : caller ≠ .exceptClause)
    (hdone : caller = .performDownload → c.downloadCompleted = true) :
    Goes cfg file (finalized cfg now caller c) := by
  cases caller with
  | sendOperationIntention => exact goes_informName htask h
  | performDownload => exact ⟨⟨h.node, h.present, h.numbered⟩, hdone rfl⟩
  | exceptClause => exact absurd rfl hcaller

/-- A send leaves all but the socket and the outbox alone. -/
theorem keeps_sendFinalization (h : OnDisk cfg file c) (now : Time) (caller : Finalization) :
    match sendFinalization cfg now caller c with
    | .ok c' => OnDisk cfg file c' ∧ c'.downloadCompleted = c.downloadCompleted ∧
        c'.point = .handleConnectionFinalization caller
    | .error (_, c') => OnDisk cfg file c' ∧ c'.downloadCompleted = c.downloadCompleted := by
  have kept : ∀ {d : Client} {x : Option Bytes} {o : Outbox}, OnDisk cfg file d →
      OnDisk cfg file { d with socket := d.socket.saveState x d.serverAddress, outbox := o } :=
    fun hd ↦ ⟨hd.node, hd.present, hd.numbered⟩
  unfold sendFinalization sendAck sendFin
  rcases send_cases cfg c true false false cfg.myAddress.port [] with ⟨e, -, heq⟩ | ⟨raw, -, heq | heq⟩
  · rw [heq]
    exact ⟨h, rfl⟩
  · rw [heq]
    simp only [bind, Except.bind]
    rcases send_cases cfg (c.handed raw) false false true (c.handed raw).serverAddress.port [] with
      ⟨e, -, heq'⟩ | ⟨raw', -, heq' | heq'⟩
    · rw [heq']
      exact ⟨kept h, rfl⟩
    · rw [heq']
      have hfin : OnDisk cfg file ((c.handed raw).handed raw') := kept (kept h)
      exact ⟨⟨hfin.node, hfin.present, hfin.numbered⟩, rfl, rfl⟩
    · rw [heq']
      exact ⟨kept (kept h), rfl⟩
  · rw [heq]
    exact ⟨kept h, rfl⟩

theorem goes_handleConnectionFinalization (htask : cfg.task = .download dst name)
    (h : OnDisk cfg file c) {caller : Finalization} (hcaller : caller ≠ .exceptClause)
    (hdone : caller = .performDownload → c.downloadCompleted = true) :
    Goes cfg file (handleConnectionFinalization cfg now caller c) := by
  have hsent := keeps_sendFinalization h now caller
  unfold handleConnectionFinalization
  generalize sendFinalization cfg now caller c = x at hsent
  cases x with
  | ok c' =>
      obtain ⟨h', hdone', hp⟩ := hsent
      refine ⟨h', ?_⟩
      unfold AtDownload
      rw [hp]
      cases caller with
      | sendOperationIntention => trivial
      | performDownload => exact hdone'.trans (hdone rfl)
      | exceptClause => exact absurd rfl hcaller
  | error x =>
      obtain ⟨h', hdone'⟩ := hsent
      dsimp only
      split
      · exact goes_finalized htask h' hcaller fun hperform ↦ hdone'.trans (hdone hperform)
      · exact h'

/-! ## Receiving -/

theorem OnDisk.appendToFile (h : OnDisk cfg file c) (packet : Packet) :
    OnDisk cfg file (appendToFile cfg c packet) := by
  refine ⟨h.node, ?_, h.numbered⟩
  show (Disk.put c.disk c.file.node _ file).isSome
  rw [FileHandler.put_self h.node]
  rfl

theorem OnDisk.appendTaken (h : OnDisk cfg file c) (packet : Option Packet) :
    OnDisk cfg file (appendTaken cfg c packet) := by
  cases packet with
  | none => exact h
  | some packet => exact h.appendToFile packet

theorem goes_completeDownload (htask : cfg.task = .download dst name) (h : OnDisk cfg file c) :
    Goes cfg file (completeDownload cfg now c) := by
  refine goes_handleConnectionFinalization htask ⟨?_, ?_, ?_⟩ nofun ?_
  · exact h.node
  · show (Disk.put c.disk c.file.node _ file).isSome
    rw [FileHandler.put_self h.node]
    rfl
  · exact h.numbered
  · exact fun _ ↦ rfl

theorem goes_afterChunk (htask : cfg.task = .download dst name) (h : OnDisk cfg file c)
    (isFin : Bool) : Goes cfg file (afterChunk cfg now isFin c) := by
  unfold afterChunk
  split
  · exact goes_completeDownload htask h
  · exact ⟨⟨h.node, h.present, h.numbered⟩, trivial⟩

/-- The acknowledgement of a chunk without FIN, and what follows it -/
theorem goes_ack (h : OnDisk cfg file c) (fin : Bool) {k : Client → Exec}
    (hk : ∀ c', OnDisk cfg file c' → Goes cfg file (k c')) :
    Goes cfg file (if fin = true then .ok c >>= k else sendAck cfg c >>= k) := by
  cases fin with
  | true => exact hk c h
  | false => exact goes_send h fun c' h' _ ↦ hk c' h'

theorem goes_receiveFile (htask : cfg.task = .download dst name) (h : OnDisk cfg file c)
    (packet : Packet) : Goes cfg file (receiveFile cfg now c packet) := by
  unfold receiveFile
  refine goes_ack h packet.isFin fun c' h' ↦ ?_
  have h' : OnDisk cfg file (Client.appendToFile cfg c' packet) := h'.appendToFile packet
  dsimp only
  split
  · split
    · exact goes_completeDownload htask h'
    · exact ⟨⟨h'.node, h'.present, h'.numbered⟩, trivial⟩
  · exact goes_afterChunk htask h' _

theorem goes_onFileChunk (htask : cfg.task = .download dst name) (h : OnDisk cfg file c)
    (r : SequenceNumber × Packet) : Goes cfg file (onFileChunk cfg now c r) := by
  unfold onFileChunk
  refine goes_ack ?_ r.2.isFin fun c' h' ↦ goes_afterChunk htask (h'.appendToFile r.2) _
  exact ⟨h.node, h.present, h.numbered⟩

theorem goes_onDownloadAnswer (htask : cfg.task = .download dst name) (h : OnDisk cfg file c)
    (r : Except Exn Packet) : Goes cfg file (onDownloadAnswer cfg now c r) := by
  unfold onDownloadAnswer
  split
  · exact goes_receiveFile htask h _
  · split
    · split
      · split
        · exact goes_receiveFile htask h _
        · exact h
      · exact h
    · split <;> exact h

theorem goes_sendReplies (receiver : GoBackNReceiver) {replies : List GoBackNReceiver.Reply}
    (h : OnDisk cfg file c) {k : Client → Exec} (hk : ∀ c', OnDisk cfg file c' → Goes cfg file (k c')) :
    Goes cfg file (replies.foldlM (sendReply cfg receiver) c >>= k) := by
  induction replies generalizing c with
  | nil => exact hk c h
  | cons reply replies ih =>
      rw [List.foldlM_cons, bind_assoc]
      cases reply with
      | resendLast => exact ih ⟨h.node, h.present, h.numbered⟩
      | sendAck n ack =>
          simp only [sendReply]
          cases Protocol.encode .goBackN n (some ack) true false false cfg.myAddress.port [] with
          | error e => exact h
          | ok raw => exact ih ⟨h.node, h.present, h.numbered⟩

theorem goes_onGbnPacket (htask : cfg.task = .download dst name) (h : OnDisk cfg file c)
    (receiver : GoBackNReceiver) (packet : Packet) :
    Goes cfg file (onGbnPacket cfg now receiver c packet) := by
  refine goes_sendReplies receiver h fun c' h' ↦ ?_
  dsimp only
  generalize hd : ({ c' with
    sequenceNumber := (receiver.onPacket packet).receiver.sqnNumber
    ackNumber := some (receiver.onPacket packet).receiver.ackNumber
    point := .receiveFileGbn (receiver.onPacket packet).receiver } : Client) = d
  have hdisk : OnDisk cfg file d := by
    rw [← hd]
    exact ⟨h'.node, h'.present, fun _ ↦ rfl⟩
  have htaken : OnDisk cfg file (appendTaken cfg d (receiver.onPacket packet).appended) :=
    hdisk.appendTaken _
  have hpoint : AtDownload (appendTaken cfg d (receiver.onPacket packet).appended) := by
    rw [← hd]
    cases (receiver.onPacket packet).appended <;> trivial
  split
  · exact goes_completeDownload htask htaken
  · exact ⟨htaken, hpoint⟩

theorem goes_listenReceiver (htask : cfg.task = .download dst name) (h : OnDisk cfg file c)
    (hd : AtDownload c) (receiver : GoBackNReceiver) (ev : Event) :
    Goes cfg file (listenReceiver cfg receiver c ev) := by
  unfold listenReceiver
  split
  · split
    · exact h
    · exact goes_onGbnPacket htask h receiver _
  · exact h
  · exact ⟨h, hd⟩
  · exact ⟨h, hd⟩

theorem goes_onOperationConfirmation (htask : cfg.task = .download dst name) (h : OnDisk cfg file c)
    (serverAddress : Address) (r : Except Exn Packet) :
    Goes cfg file (onOperationConfirmation cfg now serverAddress c r) := by
  unfold onOperationConfirmation
  split
  · exact goes_informName htask ⟨h.node, h.present, h.numbered⟩
  · split
    · exact goes_handleConnectionFinalization htask h nofun nofun
    · exact h

/-- The finalization of a completed download, or of an operation that was turned down -/
theorem goes_onFinalization (htask : cfg.task = .download dst name) (h : OnDisk cfg file c)
    {caller : Finalization} (hcaller : caller ≠ .exceptClause)
    (hdone : caller = .performDownload → c.downloadCompleted = true) (r : Except Exn Unit) :
    Goes cfg file (onFinalization cfg now caller c r) := by
  have hfinalized : Goes cfg file (finalized cfg now caller c) := goes_finalized htask h hcaller hdone
  unfold onFinalization
  cases r with
  | ok => exact hfinalized
  | error e =>
      dsimp only
      split
      · exact hfinalized
      · exact h

/-! ## One event -/

theorem goes_listen {α : Type} (h : OnDisk cfg file c) (hd : AtDownload c) {op : Operation α} {ev : Event}
    {k : Client → Except Exn α → Exec} (hk : ∀ c', OnDisk cfg file c' →
      c'.downloadCompleted = c.downloadCompleted → ∀ r, Goes cfg file (k c' r)) :
    Goes cfg file (listen c op ev k) := by
  unfold listen
  split
  · exact ⟨⟨h.node, h.present, h.numbered⟩, hd⟩
  · exact hk c h rfl _
  · rename_i e b _
    have hretransmitted : OnDisk cfg file (c.retransmit b) := ⟨h.node, h.present, h.numbered⟩
    exact hk _ hretransmitted rfl _

theorem goes_onSuccess {α : Type} (h : OnDisk cfg file c) {k : Client → α → Exec}
    (hk : ∀ a, Goes cfg file (k c a)) (r : Except Exn α) : Goes cfg file (onSuccess k c r) := by
  cases r with
  | ok a => exact hk a
  | error e => exact h

theorem goes_onEvent (htask : cfg.task = .download dst name) (h : OnDisk cfg file c) (hd : AtDownload c)
    (hp : c.point ≠ .handshake) (hp' : c.point ≠ .handleConnectionFinalization .exceptClause)
    (ev : Event) : Goes cfg file (onEvent cfg c ev) := by
  have hat := hd
  unfold AtDownload at hat
  unfold onEvent
  cases hpoint : c.point with
  | handshake => exact absurd hpoint hp
  | sendOperationIntention =>
      exact goes_listen h hd fun c' h' _ r ↦ goes_onOperationConfirmation htask h' _ r
  | informNameToDownload =>
      exact goes_listen h hd fun c' h' _ r ↦ goes_onDownloadAnswer htask h' r
  | receiveFileSaw =>
      exact goes_listen h hd fun c' h' _ r ↦
        goes_onSuccess h' (fun a ↦ goes_onFileChunk htask h' a) r
  | receiveFileGbn receiver => exact goes_listenReceiver htask h hd receiver ev
  | handleConnectionFinalization caller =>
      refine goes_listen h hd fun c' h' hc r ↦ goes_onFinalization htask h' ?_ ?_ r
      · rintro rfl
        exact hp' hpoint
      · rintro rfl
        rw [hpoint] at hat
        exact hc.trans hat
  | ended => exact ⟨h, hd⟩
  | informFilename | informFilesize | sendFileSaw | sendFileGbn | initiateCloseConnection =>
      rw [hpoint] at hat
      exact hat.elim

/-! ## The end of the thread -/

/-- The event ends the thread without the cleanup: the handshake fails, or the closing of the
connection raises what its `except` clauses do not name. -/
inductive Abandons (cfg : Config) (c : Client) (ev : Event) : Prop
  | handshake {e : Exn} (hp : c.point = .handshake) (he : (c.listened cfg ev).exn = some e)
  | closing {e : Exn} (hp : c.point = .handleConnectionFinalization .exceptClause)
      (he : (c.listened cfg ev).exn = some e)
      (hn : e.cls ∉ [ExnClass.connectionLost, .messageIsNotAck, .socketShutdown])

/-- The closing packets can be packed: a number that was stepped fits its field. -/
theorem sendFinalization_packed (h : OnDisk cfg file c) {caller : Finalization} {e : Exn × Client}
    (he : sendFinalization cfg now caller c.stepSequence.stepAck = .error e) :
    e.1.cls = .socketShutdown := by
  obtain ⟨ack, hnumbers⟩ : ∃ ack, c.stepSequence.stepAck.ackNumber = ack ∧
      (cfg.protocolVersion = .goBackN → c.sequenceNumber.step.value < 2 ^ 32 ∧
        ∃ m, ack = some m ∧ m.value < 2 ^ 32) := by
    refine ⟨_, rfl, fun hproto ↦ ⟨c.sequenceNumber.step_value_lt, ?_⟩⟩
    obtain ⟨m, hm⟩ := Option.isSome_iff_exists.mp (h.numbered hproto)
    refine ⟨m.step, ?_, m.step_value_lt⟩
    show c.ackNumber.map _ = _
    rw [hm]
    rfl
  have packed : ∀ {d : Client} {isAck isFin : Bool} {port : UInt16},
      d.sequenceNumber = c.sequenceNumber.step → d.ackNumber = ack →
      send cfg d isAck false isFin port [] = .error e → e.1.cls = .socketShutdown := by
    intro d isAck isFin port hseq hack hsend
    obtain ⟨raw, hraw⟩ := Protocol.encode_ok cfg.protocolVersion hnumbers.2 isAck false isFin port
      (show ([] : Bytes).length < 2 ^ 16 by decide)
    rcases send_cases cfg d isAck false isFin port [] with ⟨e', he', -⟩ | ⟨raw', -, heq | heq⟩
    · rw [hseq, hack, hraw] at he'
      cases he'
    · rw [heq] at hsend
      cases hsend
    · rw [heq] at hsend
      rw [← Except.error.inj hsend]
      rfl
  unfold sendFinalization at he
  rcases except_bind_eq_error.mp he with hack | ⟨c₁, hack, he⟩
  · exact packed rfl hnumbers.1 hack
  obtain ⟨-, raw, -, rfl⟩ := (send_eq_ok cfg).mp hack
  rcases except_bind_eq_error.mp he with hfin | ⟨c₂, -, he⟩
  · exact packed (d := c.stepSequence.stepAck.handed raw) rfl hnumbers.1 hfin
  · cases he

/-- The cleanup removes a destination that is not complete. -/
theorem fileCleanupAfterError_disk (htask : cfg.task = .download dst name)
    (hfile : cfg.fileHandler.node dst = some file)
    (hfail : (fileCleanupAfterError cfg c).downloadCompleted = false) :
    (fileCleanupAfterError cfg c).disk file = none := by
  have hc : c.downloadCompleted = false := by
    simpa only [fileCleanupAfterError, htask] using hfail
  simp only [fileCleanupAfterError, htask, hc, Bool.false_eq_true, if_false]
  generalize (if c.file.closed then c.disk else FileHandler.closeOnDisk c.disk c.file) = disk
  unfold FileHandler.removeFileIfCorruptedOrIncomplete FileHandler.getFilepath FileHandler.lookup
  simp only [if_true, hfile, Option.bind_some]
  cases hdisk : disk file with
  | none => exact hdisk
  | some content => exact FileHandler.put_self rfl

/-- What a step of a download may come to. -/
inductive Outcome (cfg : Config) (file : String) (c : Client) (ev : Event) : Client → Prop
  | goesOn {c' : Client} (h : OnDisk cfg file c') (hd : AtDownload c') (hn : ¬Abandons cfg c ev) :
      Outcome cfg file c ev c'
  | cleaned (d : Client) (hn : ¬Abandons cfg c ev) :
      Outcome cfg file c ev (fileCleanupAfterError cfg d).finish
  | abandoned {c' : Client} (h : OnDisk cfg file c') (hp : c'.point = .ended) (ha : Abandons cfg c ev) :
      Outcome cfg file c ev c'

/-- The `except` clauses clean up, at once or after they have closed the connection. -/
theorem outcome_handle {ev : Event} {x : Exec} (h : Goes cfg file x) (hn : ¬Abandons cfg c ev) :
    Outcome cfg file c ev (handle cfg now x) := by
  cases x with
  | ok c' => exact .goesOn h.1 h.2 hn
  | error x =>
      obtain ⟨e, c'⟩ := x
      have h : OnDisk cfg file c' := h
      simp only [handle]
      split
      · have hstep : OnDisk cfg file c'.stepSequence := ⟨h.node, h.present, h.numbered⟩
        have hsent := keeps_sendFinalization hstep.stepAck now .exceptClause
        unfold handleConnectionFinalization
        cases hr : sendFinalization cfg now .exceptClause c'.stepSequence.stepAck with
        | ok d =>
            rw [hr] at hsent
            obtain ⟨hd, -, hp⟩ := hsent
            refine .goesOn hd ?_ hn
            show AtDownload d
            unfold AtDownload
            rw [hp]
            trivial
        | error x =>
            dsimp only
            rw [if_pos (sendFinalization_packed h hr)]
            exact .cleaned x.2 hn
      · exact .cleaned c' hn

/-- A failed handshake ends the thread, an answered one leads to the operation. -/
theorem handshake_outcome (h : OnDisk cfg file c) (hp : c.point = .handshake) (ev : Event) :
    Outcome cfg file c ev (c.step cfg ev) := by
  have hnot : (c.listened cfg ev).exn = none → ¬Abandons cfg c ev := by
    rintro hnone (⟨-, he⟩ | ⟨hp', -, -⟩)
    · rw [hnone] at he
      cases he
    · rw [hp] at hp'
      cases hp'
  have hlistened : c.listened cfg ev = (reListenIfFailed
      ((waitForConnectionRequestAnswer c.sequenceNumber c.ackNumber).letThrough
        [.unexpectedFinMessage, .messageIsNotAck]) c.socket c.listening ev).void := by
    simp only [listened, hp]
  simp only [step, onEvent, hp, listen]
  cases hl : reListenIfFailed ((waitForConnectionRequestAnswer c.sequenceNumber
      c.ackNumber).letThrough [.unexpectedFinMessage, .messageIsNotAck]) c.socket c.listening ev with
  | listening r b =>
      refine .goesOn ⟨h.node, h.present, h.numbered⟩ trivial (hnot ?_)
      rw [hlistened, hl]
      rfl
  | raised e b =>
      refine .abandoned ⟨h.node, h.present, h.numbered⟩ rfl (.handshake hp (e := e) ?_)
      rw [hlistened, hl]
      rfl
  | returned serverAddress =>
      have hn : ¬Abandons cfg c ev := by
        refine hnot ?_
        rw [hlistened, hl]
        rfl
      simp only [swallow, onConnectionRequestAnswer, sendOperationIntention]
      refine outcome_handle (goes_send (OnDisk.stepAck ?_) fun c₁ h₁ _ ↦ ⟨?_, trivial⟩) hn
      · exact ⟨h.node, h.present, h.numbered⟩
      · exact ⟨h₁.node, h₁.present, h₁.numbered⟩

/-- Of the closing in an `except` clause only some exceptions lead to the cleanup. -/
theorem closing_outcome (h : OnDisk cfg file c)
    (hp : c.point = .handleConnectionFinalization .exceptClause) (ev : Event) :
    Outcome cfg file c ev (c.step cfg ev) := by
  have hnot : (∀ e, (c.listened cfg ev).exn = some e →
      e.cls ∈ [ExnClass.connectionLost, .messageIsNotAck, .socketShutdown]) → ¬Abandons cfg c ev := by
    rintro hnamed (⟨hp', -⟩ | ⟨-, he, hn⟩)
    · rw [hp] at hp'
      cases hp'
    · exact hn (hnamed _ he)
  have hlistened : c.listened cfg ev = reListenIfFailed
      ((waitForFinOrAck c.sequenceNumber c.ackNumber).letThrough [.connectionLost]) c.socket
      c.listening ev := by
    simp only [listened, hp]
  simp only [step, onEvent, hp, listen]
  cases hl : reListenIfFailed ((waitForFinOrAck c.sequenceNumber c.ackNumber).letThrough
      [.connectionLost]) c.socket c.listening ev with
  | listening r b =>
      refine .goesOn ⟨h.node, h.present, h.numbered⟩ trivial (hnot fun e he ↦ ?_)
      rw [hlistened, hl] at he
      cases he
  | returned u =>
      refine .cleaned _ (hnot fun e he ↦ ?_)
      rw [hlistened, hl] at he
      cases he
  | raised e b =>
      have hexn : (c.listened cfg ev).exn = some e := by
        rw [hlistened, hl]
        rfl
      unfold onFinalization
      dsimp only
      split
      · rename_i hnamed
        refine .cleaned _ (hnot fun e' he ↦ ?_)
        obtain rfl := Option.some.inj (hexn.symm.trans he)
        exact hnamed
      · rename_i hn
        exact .abandoned ⟨h.node, h.present, h.numbered⟩ rfl (.closing hp hexn hn)

theorem step_outcome (htask : cfg.task = .download dst name) (h : OnDisk cfg file c)
    (hd : AtDownload c) (ev : Event) : Outcome cfg file c ev (c.step cfg ev) := by
  by_cases hp : c.point = .handshake
  · exact handshake_outcome h hp ev
  by_cases hp' : c.point = .handleConnectionFinalization .exceptClause
  · exact closing_outcome h hp' ev
  have hn : ¬Abandons cfg c ev := by
    rintro (⟨hp'', -⟩ | ⟨hp'', -, -⟩)
    · exact hp hp''
    · exact hp' hp''
  have hgoes := goes_onEvent htask (c := { c with outbox := [] }) ⟨h.node, h.present, h.numbered⟩ hd hp
    hp' ev
  rw [step_eq_handle hp hp']
  exact outcome_handle hgoes hn

theorem step_removes_iff (htask : cfg.task = .download dst name)
    (hfile : cfg.fileHandler.node dst = some file) (h : OnDisk cfg file c)
    (hd : AtDownload c) {ev : Event} (hend : (c.step cfg ev).point = .ended)
    (hfail : (c.step cfg ev).downloadCompleted = false) :
    (c.step cfg ev).disk file = none ↔ ¬Abandons cfg c ev := by
  have ho := step_outcome htask h hd ev
  generalize c.step cfg ev = c' at ho hend hfail
  cases ho with
  | goesOn _ hd' =>
      unfold AtDownload at hd'
      rw [hend, hfail] at hd'
      cases hd'
  | cleaned d hn => exact iff_of_true (fileCleanupAfterError_disk htask hfile hfail) hn
  | abandoned h' _ ha =>
      have hpresent := h'.present
      refine iff_of_false (fun hnone ↦ ?_) (not_not.mpr ha)
      rw [hnone] at hpresent
      cases hpresent

/-- The step of a thread that goes on keeps the destination. -/
theorem step_keeps (htask : cfg.task = .download dst name) (h : OnDisk cfg file c) (hd : AtDownload c)
    {ev : Event} (hend : (c.step cfg ev).point ≠ .ended) :
    (OnDisk cfg file (c.step cfg ev) ∧ AtDownload (c.step cfg ev)) ∧ ¬Abandons cfg c ev := by
  have ho := step_outcome htask h hd ev
  generalize c.step cfg ev = c' at ho hend
  cases ho with
  | goesOn h' hd' hn => exact ⟨⟨h', hd'⟩, hn⟩
  | cleaned d => exact absurd rfl hend
  | abandoned _ hp => exact absurd hp hend

/-! ## Runs -/

/-- The constructor leaves the destination on disk, and the thread sends its SYN, or ends. -/
theorem start_holds (htask : cfg.task = .download dst name)
    (hfile : cfg.fileHandler.node dst = some file) {disk : Disk} (h : start cfg disk now = .ok c) :
    (c.disk file).isSome ∧ (cfg.serverAddress.port = 0 → c.point = .ended) ∧
      (cfg.serverAddress.port ≠ 0 → OnDisk cfg file c ∧ c.point = .handshake) := by
  unfold start at h
  obtain ⟨⟨f, disk'⟩, hopen, h⟩ := except_bind_eq_ok.mp h
  have hopened : f.node = some file ∧ (disk' file).isSome := by
    simp only [openFile, htask] at hopen
    obtain ⟨-, rfl, rfl⟩ := FileHandler.openFileWriteMode_eq_ok hopen
    simp only [FileHandler.getFilepath, if_true]
    exact ⟨hfile, by rw [FileHandler.put_self hfile]; rfl⟩
  obtain rfl := Except.ok.inj h
  have hnumbers : cfg.protocolVersion = .goBackN →
      (init cfg f disk' now).sequenceNumber.value < 2 ^ 32 ∧
        ∃ m, (init cfg f disk' now).ackNumber = some m ∧ m.value < 2 ^ 32 := by
    intro hproto
    exact ⟨Nat.two_pow_pos 32, ⟨0, .goBackN⟩, by simp [init, hproto], Nat.two_pow_pos 32⟩
  obtain ⟨raw, hraw⟩ := Protocol.encode_ok cfg.protocolVersion hnumbers false true false
    cfg.myAddress.port (show ([] : Bytes).length < 2 ^ 16 by decide)
  unfold requestConnection
  rcases send_cases cfg (init cfg f disk' now) false true false cfg.myAddress.port [] with
    ⟨e, he, -⟩ | ⟨raw', -, heq | heq⟩
  · cases he.symm.trans hraw
  · rw [heq]
    refine ⟨hopened.2, fun h ↦ absurd h ((send_eq_ok cfg).mp heq).1, fun _ ↦ ⟨⟨hopened.1, hopened.2, ?_⟩, rfl⟩⟩
    intro hproto
    obtain ⟨m, hm, -⟩ := (hnumbers hproto).2
    exact Option.isSome_iff_exists.mpr ⟨m, hm⟩
  · rw [heq]
    refine ⟨hopened.2, fun _ ↦ rfl, fun h ↦ ?_⟩
    rw [send_eq_encode cfg (c := init cfg f disk' now) h, hraw] at heq
    cases heq

theorem not_abandons_ended {ev : Event} (h : c.point = .ended) : ¬Abandons cfg c ev := by
  rintro (⟨hp, -⟩ | ⟨hp, -, -⟩)
  · cases h.symm.trans hp
  · cases h.symm.trans hp

/-- How a download stands after the events `es`. -/
structure Stands (cfg : Config) (file : String) (c : Client) (es : List Event) (c' : Client) :
    Prop where
  running : c'.point ≠ .ended → (OnDisk cfg file c' ∧ AtDownload c') ∧
    Lts.Admits (step cfg) (fun c ev ↦ ¬Abandons cfg c ev) c es
  ended : c'.point = .ended → c'.downloadCompleted = false →
    (c'.disk file = none ↔ Lts.Admits (step cfg) (fun c ev ↦ ¬Abandons cfg c ev) c es)

theorem Stands.step (htask : cfg.task = .download dst name)
    (hfile : cfg.fileHandler.node dst = some file) {es : List Event} {c' : Client}
    (h : Stands cfg file c es c') (hc : c' = es.foldl (Client.step cfg) c) (ev : Event) :
    Stands cfg file c (es ++ [ev]) (c'.step cfg ev) := by
  have happend : Lts.Admits (Client.step cfg) (fun c ev ↦ ¬Abandons cfg c ev) c (es ++ [ev]) ↔
      Lts.Admits (Client.step cfg) (fun c ev ↦ ¬Abandons cfg c ev) c es ∧ ¬Abandons cfg c' ev := by
    rw [Lts.admits_append, ← hc]
    exact and_congr_right fun _ ↦ and_iff_left trivial
  by_cases hp : c'.point = .ended
  · rw [step_ended hp]
    refine ⟨fun hn ↦ absurd hp hn, fun _ hfail ↦ ?_⟩
    rw [happend, and_iff_left (not_abandons_ended hp)]
    exact h.ended hp hfail
  · obtain ⟨⟨hdisk, hat⟩, hadmits⟩ := h.running hp
    constructor
    · intro hend
      obtain ⟨hkeeps, hn⟩ := step_keeps htask hdisk hat hend
      exact ⟨hkeeps, happend.mpr ⟨hadmits, hn⟩⟩
    · intro hend hfail
      rw [happend, and_iff_right hadmits]
      exact step_removes_iff htask hfile hdisk hat hend hfail

namespace Local

def downloader (version : ProtocolType) : Config :=
  ⟨version, ⟨"127.0.0.1", 7000⟩, ⟨"127.0.0.1", 5001⟩, ⟨"storage", fun _ ↦ true, some, 0, fun _ ↦ 0⟩,
    .download "notes.txt" "notes.txt"⟩

/-- The welcoming socket's SYN with ACK, and its FIN, under Stop-and-Wait. -/
def accepted : Event := .datagram [24, 0, 27, 89, 0, 0] (some ⟨"127.0.0.1", 7000⟩) 0

def refused : Event := .datagram [4, 0, 27, 89, 0, 0] (some ⟨"127.0.0.1", 7000⟩) 0

end Local

end Rdt.Client
