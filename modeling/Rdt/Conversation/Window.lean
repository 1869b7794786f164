import Rdt.Conversation.Delivery
import Rdt.Gbn.Safety
import Rdt.Source

/-!
# A Go-Back-N upload, from the SYN on

The name and the size travel before the window opens.  What of it is still in flight then has the
numbers before those of the chunks, so that the window starts as if nothing had been sent.
-/

namespace Rdt.Conversation

open Rdt.Configuration Duplex Gbn PacketParser Server Session SlidingWindow

/-! ## A patient client -/

section Client

variable {cfg : Client.Config} {file : File} {peer A : Address} {k : Nat} {c : Client} {ev : Event}

theorem ackAt_congr {protocol : ProtocolType} {j k : Nat}
    (h : (numberAt protocol k).value = (numberAt protocol j).value) :
    ackAt protocol k = ackAt protocol j := by
  cases protocol with
  | stopAndWait => rfl
  | goBackN => exact congrArg some (numberAt_inj h)

/-- A client that is not at the end of its patience waits for a confirmation without an exception. -/
theorem exn_of_hears (hp : c.point = .sendOperationIntention peer ∨ c.point = .informFilename ∨
      c.point = .informFilesize) (hs : Sent cfg file k c) (hev : Hears cfg.protocolVersion ev)
    (hg : (c.listened cfg ev).gaveUp = false) : (c.listened cfg ev).exn = none := by
  have waits : ∀ es : List ExnClass, (∀ e ∈ [ExnClass.invalidSequenceNumber, .invalidAckNumber],
      e ∈ configureWantedExceptionsToCatch es) →
      c.listened cfg ev = (reListenIfFailed ((ClientProtocol.waitForAck c.sequenceNumber
        c.ackNumber).letThrough es) c.socket c.listening ev).void →
      (c.listened cfg ev).exn = none := by
    intro es hes hl
    rw [hl, Listened.gaveUp_void] at hg
    rw [hl, Listened.exn_void]
    rcases hev with hev | ⟨raw, source, now, j, isSyn, rfl, hraw⟩
    · obtain ⟨r, b, hlistening⟩ := reListen_quiet rfl hev hg
      rw [hlistening]
      rfl
    · have hcheck : ∀ x, ClientProtocol.validateConfirmation c.sequenceNumber c.ackNumber
          (raw.take commsBufferSize) (some source) = x →
          ((ClientProtocol.waitForAck c.sequenceNumber c.ackNumber).letThrough es).check
            (raw.take commsBufferSize) (some source) = x.map Prod.fst :=
        fun _ h ↦ congrArg (Except.map Prod.fst) h
      by_cases hne : (numberAt cfg.protocolVersion k).value = (numberAt cfg.protocolVersion j).value
      · have hok := hraw.check source
        rw [← numberAt_inj hne, ← ackAt_congr hne, ← hs.sequenceNumber, ← hs.ackNumber] at hok
        rw [reListen_accepts (hcheck _ hok)]
        rfl
      · obtain ⟨e, he, herror⟩ := turned_down hraw hne hes source
        rw [← hs.sequenceNumber, ← hs.ackNumber] at herror
        obtain ⟨r, hlistening⟩ := reListen_rejects (hcheck _ herror) he hg
        rw [hlistening]
        rfl
  rcases hp with hp | hp | hp
  · refine waits [.unexpectedFinMessage] (by decide) ?_
    unfold Client.listened
    rw [hp]
    rfl
  · refine waits [.unexpectedFinMessage, .messageIsNotAck] (by decide) ?_
    unfold Client.listened
    rw [hp]
  · refine waits [.unexpectedFinMessage, .messageIsNotAck] (by decide) ?_
    unfold Client.listened
    rw [hp]

/-- The client waits for a confirmation, with its file as it was opened and nothing reported. -/
structure Pending (cfg : Client.Config) (file : File) (peer A : Address) (k : Nat)
    (point : Client.Point) (P : Bytes → Prop) (c : Client) : Prop
    extends Awaits cfg file peer A k point P c where
  file : c.file = file
  reports : c.reports = []

variable {P : Bytes → Prop} {point : Client.Point} {c' d : Client}

theorem Pending.stirred (h : Pending cfg file peer A k point P c) (r : ReListen) (b : Bool) :
    Pending cfg file peer A k point P (c.stirred r b) :=
  ⟨h.toAwaits.stirred r b, h.file, h.reports⟩

theorem Pending.mono {Q : Bytes → Prop} (h : Pending cfg file peer A k point P c)
    (hPQ : ∀ raw, P raw → Q raw) : Pending cfg file peer A k point Q c :=
  ⟨h.toAwaits.mono hPQ, h.file, h.reports⟩

/-- A client that has sent a packet, and waits. -/
theorem kept_of_sent (hport : d.serverAddress.port ≠ 0) {isAck isSyn isFin : Bool} {port : UInt16}
    {data : Bytes} {now : Time}
    (hc : c' = Client.handle cfg now (Client.send cfg d isAck isSyn isFin port data >>= fun c ↦
      .ok (c.block point now)))
    (hp : c'.point ≠ .ended) : c'.file = d.file ∧ c'.reports = d.reports := by
  rw [Client.send_eq_encode cfg hport] at hc
  cases hraw : Protocol.encode cfg.protocolVersion d.sequenceNumber d.ackNumber isAck isSyn isFin port
      data with
  | ok raw =>
      rw [hraw] at hc
      rw [hc]
      constructor
      · rfl
      · rfl
  | error e =>
      have hcloses : Client.closesConnection cfg e.cls = false := by
        unfold Client.closesConnection
        rcases Protocol.encode_error hraw with rfl | rfl <;> split <;> rfl
      rw [hraw] at hc
      simp only [bind, Except.bind, Client.handle, hcloses, Bool.false_eq_true, if_false] at hc
      apply absurd _ hp
      rw [hc]
      rfl

theorem Pending.names (hport : peer.port ≠ 0)
    (h : Pending cfg file peer A 1 (.sendOperationIntention peer) P c)
    {src name : String} (htask : cfg.task = .upload src name) (now : Time) (packet : Packet)
    (hc : c' = Client.handle cfg now
      (Client.onOperationConfirmation cfg now peer { c with outbox := [] } (.ok packet))) :
    (Pending cfg file peer peer 2 .informFilename (InformsFilename cfg name) c' ∧
        ∀ raw ∈ c'.outbox.to peer, InformsFilename cfg name raw) ∨
      Parted peer P c' ∧ ∀ raw ∈ c'.outbox.to peer, P raw := by
  apply Or.imp_left _ (h.toAwaits.names hport htask now packet hc)
  rintro ⟨hawaits, hout⟩
  rw [Client.onOperationConfirmation, Client.informName, htask] at hc
  obtain ⟨hfile, hreports⟩ := kept_of_sent hport hc (by rw [hawaits.point]; exact fun hp ↦ (by cases hp))
  exact ⟨⟨hawaits, hfile.trans h.file, hreports.trans h.reports⟩, hout⟩

theorem Pending.sizes (h : Pending cfg file peer peer 2 .informFilename P c) (now : Time)
    (packet : Packet) (hc : c' = Client.handle cfg now (Client.onConfirmation .fileAlreadyExists
      (Client.informFilesize cfg now) { c with outbox := [] } (.ok packet))) :
    (Pending cfg file peer peer 3 .informFilesize (InformsFilesize cfg file.content.length) c' ∧
        ∀ raw ∈ c'.outbox.to peer, InformsFilesize cfg file.content.length raw) ∨
      Parted peer P c' ∧ ∀ raw ∈ c'.outbox.to peer, P raw := by
  apply Or.imp_left _ (h.toAwaits.sizes now packet hc)
  rintro ⟨hawaits, hout⟩
  have hwaits : c'.point ≠ .ended := by
    rw [hawaits.point]
    exact fun hp ↦ (by cases hp)
  rw [Client.onConfirmation, Client.informFilesize] at hc
  split at hc
  · have hport : ({ c with outbox := [] } : Client).stepSequence.stepAck.serverAddress.port ≠ 0 :=
      h.reachable
    obtain ⟨hfile, hreports⟩ := kept_of_sent hport hc hwaits
    exact ⟨⟨hawaits, hfile.trans h.file, hreports.trans h.reports⟩, hout⟩
  · have hcloses : Client.closesConnection cfg ExnClass.overflowError = false := by
      unfold Client.closesConnection
      split <;> rfl
    apply absurd _ hwaits
    rw [hc]
    simp only [Client.raise, Client.handle, ExnClass.exn_cls, hcloses, Bool.false_eq_true, if_false]
    rfl

/-- The size is confirmed: `send_file` is entered. -/
theorem Pending.sends (h : Pending cfg file peer peer 3 .informFilesize P c)
    (hproto : cfg.protocolVersion = .goBackN) (htask : ∃ src name, cfg.task = .upload src name)
    (hposition : file.position = 0) (hcontent : file.content ≠ []) (now : Time) (packet : Packet)
    (hc : c' = Client.handle cfg now (Client.onConfirmation .fileTooBig
      (Client.sendFile cfg now) { c with outbox := [] } (.ok packet))) :
    ClientEntersSendFile cfg peer file.content 3 c' ∧ c'.outbox.to peer = [] := by
  have hseq : c.sequenceNumber = ⟨3, .goBackN⟩ := by
    rw [h.sequenceNumber, hproto]
    rfl
  have hack : c.ackNumber = some ⟨3, .goBackN⟩ := by
    rw [h.ackNumber, hproto]
    rfl
  let d : Client := { c with outbox := [] }
  have hfile : d.file = file := h.file
  have hsend := @sendFile_eq cfg d _ now hproto hack (hfile ▸ hposition) (hfile ▸ hcontent)
  rw [Client.onConfirmation, hsend] at hc
  subst hc
  constructor
  · exact ⟨hproto, htask, d, now, hsend, hseq, hack, h.content, hfile ▸ hposition, h.serverAddress,
      h.reports⟩
  · rfl

end Client

/-! ## The connection -/

section Connection

variable {cfg : Server.Config} {content : Bytes} {c c' : ClientConnection} {ev : Event}

/-- Nothing is written or reported yet. -/
structure Blank (c : ClientConnection) : Prop where
  file : ∀ f ∈ c.file, f.pieces = []
  filename : c.filenameForUpload = none
  reports : c.reports = []

/-- The upload is refused, and nothing of it is written. -/
structure Refused (c : ClientConnection) : Prop extends Blank c where
  phase : c.phase = .refusing ∨ c.phase = .halted

/-- The connection waits for the name. -/
structure Unnamed (cfg : Server.Config) (c : ClientConnection) : Prop extends Naming cfg c, Blank c

/-- The file is created, and the connection waits for the size. -/
structure Unsized (cfg : Server.Config) (c : ClientConnection) : Prop extends Sizing cfg c, Blank c where
  opened : ∃ path node, c.file = some (.forWriting path node)

theorem Blank.of_store (h : Blank c) (hstore : c'.store = c.store) (hrep : c'.reports = c.reports) :
    Blank c' := by
  have hfile : c'.file = c.file := congrArg ClientConnection.Store.file hstore
  have hname : c'.filenameForUpload = c.filenameForUpload :=
    congrArg ClientConnection.Store.filenameForUpload hstore
  exact ⟨hfile ▸ h.file, hname.trans h.filename, hrep.trans h.reports⟩

theorem Blank.abandon (h : Blank c) (e : Exn) : c.store.abandon cfg.fileHandler e = c.store := by
  have hname : c.store.filenameForUpload = none := h.filename
  unfold ClientConnection.Store.abandon
  rw [hname]
  split <;> rfl

/-- What a connection that is not receiving makes of an event -/
theorem Blank.step (h : Blank c) (hp : c.phase = .naming ∨ c.phase = .refusing ∨ c.phase = .halted)
    (hf : c.phase.Uploads → ClientConnection.Fits cfg c) (ev : Event) :
    Blank (c.step cfg ev) ∧ ((c.step cfg ev).phase = c.phase ∨
      (c.phase = .naming ∧ (∃ name, (c.step cfg ev).phase = .sizing name) ∧
        ∃ path node, (c.step cfg ev).file = some (.forWriting path node)) ∨
      (c.step cfg ev).phase = .refusing ∨ (c.step cfg ev).phase = .halted) := by
  have other : ∀ {p : ClientConnection.Phase}, c.phase = p →
      p = .naming ∨ p = .refusing ∨ p = .halted := by
    rintro p rfl
    exact hp
  cases ClientConnection.step_does hf ev with
  | waits hphase hstore hrep => exact ⟨h.of_store hstore hrep, .inl hphase⟩
  | @opens name file disk hp hopen hphase hstore hrep =>
      obtain ⟨-, rfl, -⟩ := FileHandler.openFileWriteMode_eq_ok hopen
      have hfile : (c.step cfg ev).file = some _ := congrArg ClientConnection.Store.file hstore
      have hname : (c.step cfg ev).filenameForUpload = c.filenameForUpload :=
        congrArg ClientConnection.Store.filenameForUpload hstore
      refine ⟨⟨?_, hname.trans h.filename, hrep.trans h.reports⟩,
        .inr (.inl ⟨hp, ⟨name, hphase⟩, _, _, hfile⟩)⟩
      rw [hfile]
      rintro f ⟨⟩
      rfl
  | refuses _ hphase hstore hrep =>
      exact ⟨h.of_store (hstore h.filename) hrep, .inr (.inr hphase)⟩
  | fails _ _ _ hphase hstore hrep =>
      exact ⟨h.of_store (hstore.trans (h.abandon _)) hrep, .inr (.inr (.inr hphase))⟩
  | accepts hp | appends _ hp | finishes hp | completes hp | transmits hp =>
      rcases other hp with hq | hq | hq <;> cases hq

theorem Refused.step (h : Refused c) (ev : Event) : Refused (c.step cfg ev) := by
  have hf : c.phase.Uploads → ClientConnection.Fits cfg c := by
    intro hu
    rcases h.phase with hp | hp <;> rw [hp] at hu <;> exact hu.elim
  obtain ⟨hblank, hphase⟩ := h.toBlank.step (.inr h.phase) hf ev
  refine ⟨hblank, ?_⟩
  rcases hphase with hp | ⟨hp, -⟩ | hp
  · rw [hp]
    exact h.phase
  · rcases h.phase with hq | hq <;> rw [hp] at hq <;> cases hq
  · exact hp

theorem Unnamed.fits (h : Unnamed cfg c) : ClientConnection.Fits cfg c := by
  refine ⟨fun hp ↦ ?_, fun r hr ↦ ?_⟩
  · rw [h.sequenceNumber, h.ackNumber, hp]
    exact ⟨by decide, numberAt .goBackN 2, rfl, by decide⟩
  · rw [h.point] at hr
    cases hr

/-- The name is taken and confirmed, or the upload is refused. -/
theorem Unnamed.step (h : Unnamed cfg c) (ev : Event) :
    (Unnamed cfg (c.step cfg ev) ∧ ∀ raw ∈ (c.step cfg ev).outbox.to cfg.clientAddress,
        Confirms cfg.protocolVersion 1 false raw) ∨
      ((∃ raw source now, ev = .datagram raw source now) ∧ Unsized cfg (c.step cfg ev) ∧
        ∀ raw ∈ (c.step cfg ev).outbox.to cfg.clientAddress, Confirms cfg.protocolVersion 2 false raw) ∨
      Refused (c.step cfg ev) := by
  have hphase : c.phase = .naming := by rw [ClientConnection.phase, h.point]
  obtain ⟨hblank, hnext⟩ := h.toBlank.step (.inl hphase) (fun _ ↦ h.fits) ev
  rcases h.toNaming.step ev with ⟨hn, hout⟩ | ⟨hev, hs, hout⟩ | hc
  · exact .inl ⟨⟨hn, hblank⟩, hout⟩
  · refine .inr (.inl ⟨hev, ⟨hs, hblank, ?_⟩, hout⟩)
    obtain ⟨name, hp⟩ := hs.point
    have hsizing : (c.step cfg ev).phase = .sizing name := by rw [ClientConnection.phase, hp]
    rcases hnext with hq | ⟨-, -, hopened⟩ | hq | hq
    · rw [hphase, hsizing] at hq
      cases hq
    · exact hopened
    all_goals
      rw [hsizing] at hq
      cases hq
  · refine .inr (.inr ⟨hblank, ?_⟩)
    rcases hnext with hq | ⟨-, ⟨name, hq⟩, -⟩ | hq
    · rw [hphase] at hq
      rcases hc.phase with hp | hp | hp | hp <;> rw [hq] at hp <;> cases hp
    · rcases hc.phase with hp | hp | hp | hp <;> rw [hq] at hp <;> cases hp
    · exact hq

/-- The connection has confirmed the size, and waits for the first chunk. -/
structure Entered (content : Bytes) (c : ClientConnection) : Prop where
  receives : ServerReceives c (Receiver.start (uploadTransfer content 3))
  point : ∃ raw, c.point = .receiveFileGbn (.init (numberAt .goBackN 3) (numberAt .goBackN 3) (some raw)) ∧
    Confirms .goBackN 3 false raw

theorem refused_of_error (h : Blank c) (now : Time) (e : Exn) :
    Refused (ClientConnection.handle cfg now (.error (e, c))) := by
  obtain ⟨hphase, hstore, hrep, -⟩ := @ClientConnection.handle_error_kept cfg now c e
  exact ⟨h.of_store (hstore h.filename) hrep, hphase⟩

/-- The size is confirmed, and `receive_file` entered; or the upload is refused. -/
theorem Unsized.enters (h : Unsized cfg c) (hproto : cfg.protocolVersion = .goBackN) (now : Time)
    (filename : String) {r : SequenceNumber × Nat} (hr : r.1 = numberAt .goBackN 3)
    (hc : c' = ClientConnection.handle cfg now
      (ClientConnection.onFilesize cfg now filename { c with outbox := [] } r)) :
    (Entered content c' ∧
        ∀ raw ∈ c'.outbox.to cfg.clientAddress, Confirms .goBackN 3 false raw) ∨ Refused c' := by
  obtain ⟨n, size⟩ := r
  obtain rfl : n = numberAt .goBackN 3 := hr
  have hack : c.ackNumber = some (numberAt .goBackN 2) := by
    rw [h.ackNumber, hproto]
    rfl
  let d : ClientConnection := { c with
    outbox := []
    sequenceNumber := numberAt .goBackN 3
    ackNumber := some (numberAt .goBackN 3) }
  have hstepped : ({ c with outbox := [], sequenceNumber := numberAt .goBackN 3 } :
      ClientConnection).stepAck = d := by
    simp only [ClientConnection.stepAck, hack]
    rfl
  obtain ⟨raw, hsend, hraw⟩ := sends_confirmation cfg (c := d) (k := 3) (by decide)
    (by rw [hproto]) (by rw [hproto]; rfl)
  rw [hproto] at hraw
  by_cases hfit : cfg.fileHandler.canFileFit size = true
  · have hok : ClientConnection.onFilesize cfg now filename { c with outbox := [] }
        (numberAt .goBackN 3, size) = .ok (ClientConnection.startReception cfg now
          { ClientConnection.handed cfg d raw with
            filenameForUpload := some filename, filesizeForUpload := some size }) := by
      simp only [ClientConnection.onFilesize, hstepped, hfit, if_true, hsend]
      rfl
    have hstart : ClientConnection.startReception cfg now { ClientConnection.handed cfg d raw with
        filenameForUpload := some filename, filesizeForUpload := some size } =
          { ClientConnection.handed cfg d raw with
            filenameForUpload := some filename
            filesizeForUpload := some size
            socket := SocketSaw.new
            point := .receiveFileGbn (.init (numberAt .goBackN 3) (numberAt .goBackN 3) (some raw))
            listening := .start now } := by
      unfold ClientConnection.startReception
      rw [hproto]
      rfl
    have henters : ServerEntersReceiveFile cfg 3 c' := by
      refine ⟨hproto, { c with outbox := [] }, now, filename, size, numberAt .goBackN 2, ?_, hack, rfl,
        h.opened, h.reports⟩
      rw [hc, hok]
      exact hok
    rw [hok] at hc
    have hc' : c' = _ := hc.trans hstart
    refine .inl ⟨⟨henters.receives, raw, ?_, hraw⟩, ?_⟩
    · rw [hc']
    · rw [hc']
      exact fun raw' hraw' ↦ Outbox.eq_of_mem_to hraw' ▸ hraw
  · right
    rw [hc, ClientConnection.onFilesize]
    dsimp only
    rw [if_neg hfit, hstepped]
    refine refused_of_error (c := { d with state := .unrecoverableBadState }) ?_ now
      ExnClass.connectionClosingNeeded.exn
    exact ⟨h.file, h.filename, h.reports⟩

/-- The size is taken and confirmed, or the upload is refused. -/
theorem Unsized.step (h : Unsized cfg c) (hproto : cfg.protocolVersion = .goBackN) (content : Bytes)
    (ev : Event) :
    (Unsized cfg (c.step cfg ev) ∧ ∀ raw ∈ (c.step cfg ev).outbox.to cfg.clientAddress,
        Confirms .goBackN 2 false raw) ∨
      ((∃ raw source now, ev = .datagram raw source now ∧ Numbered .goBackN 3 raw) ∧
        Entered content (c.step cfg ev) ∧
        ∀ raw ∈ (c.step cfg ev).outbox.to cfg.clientAddress, Confirms .goBackN 3 false raw) ∨
      Refused (c.step cfg ev) := by
  obtain ⟨filename, hp⟩ := h.point
  have hu : c.Unwindowed := by
    rw [ClientConnection.Unwindowed, hp]
    trivial
  have hl : c.listened cfg ev = (reListenIfFailed (ServerProtocol.receiveFilesize cfg.protocolVersion
      c.sequenceNumber) c.socket c.listening ev).void := by
    rw [ClientConnection.listened, hp]
  have hstep : c.step cfg ev = ClientConnection.handle cfg ev.now (ClientConnection.listen
      { c with outbox := [] } (ServerProtocol.receiveFilesize cfg.protocolVersion c.sequenceNumber) ev
        (ClientConnection.onSuccess (ClientConnection.onFilesize cfg ev.now filename))) := by
    rw [ClientConnection.step_eq_handle (by simp [hp]), ClientConnection.onEvent]
    dsimp only
    rw [hp]
  cases hr : reListenIfFailed (ServerProtocol.receiveFilesize cfg.protocolVersion c.sequenceNumber)
      c.socket c.listening ev with
  | listening r b =>
      rw [hr] at hl
      rw [ClientConnection.step_of_listening hu hl]
      have hrepeats := repeated_connection h.repeats r b
      rw [hproto] at hrepeats
      exact .inl ⟨⟨h.toSizing.stirred r b, ⟨h.file, h.filename, h.reports⟩, h.opened⟩, hrepeats⟩
  | returned a =>
      obtain ⟨raw, source, hrecv, hcheck⟩ := returned_check hr
      obtain ⟨raw, now, rfl, rfl⟩ := ReListen.recvfrom_packet hrecv
      obtain ⟨-, -, hnumber, ha⟩ := ServerProtocol.receiveFilesize_eq_ok.mp hcheck
      have hseq : c.sequenceNumber = numberAt .goBackN 3 := by rw [h.sequenceNumber, hproto]
      have hraw : Numbered .goBackN 3 raw := by
        rw [hseq] at hnumber
        exact (numbered_take (show gbnProtocolHeaderSize ≤ commsBufferSize by decide)).mp hnumber
      have htaken : c.step cfg (.datagram raw source now) = ClientConnection.handle cfg now
          (ClientConnection.onFilesize cfg now filename { c with outbox := [] } a) := by
        rw [hstep]
        dsimp only [ClientConnection.listen]
        rw [hr]
        rfl
      have hfirst : a.1 = numberAt .goBackN 3 := by
        rw [ha, hseq, hproto]
        rfl
      rcases h.enters hproto now filename hfirst htaken with hent | href
      · exact .inr (.inl ⟨⟨raw, source, now, rfl, hraw⟩, hent⟩)
      · exact .inr (.inr href)
  | raised e b =>
      rw [hstep]
      dsimp only [ClientConnection.listen]
      rw [hr]
      refine .inr (.inr (refused_of_error (c := ClientConnection.retransmit { c with outbox := [] } b) ?_
        ev.now e))
      exact ⟨h.file, h.filename, h.reports⟩

/-- What the receiver sends while it waits for the first chunk confirms the size. -/
theorem sendReplies_confirm (hproto : cfg.protocolVersion = .goBackN) {raw : Bytes}
    (hraw : Confirms .goBackN 3 false raw) {replies : List GoBackNReceiver.Reply}
    (h : ∀ reply ∈ replies, reply = .resendLast ∨
      reply = .sendAck (numberAt .goBackN 3) (numberAt .goBackN 3)) :
    ∃ out, replies.foldlM (ClientConnection.sendReply cfg
        (.init (numberAt .goBackN 3) (numberAt .goBackN 3) (some raw))) c =
          .ok { c with outbox := c.outbox ++ out } ∧
      ∀ raw ∈ out.to cfg.clientAddress, Confirms .goBackN 3 false raw := by
  induction replies generalizing c with
  | nil =>
      refine ⟨[], ?_, fun _ hr ↦ (by cases hr)⟩
      rw [List.append_nil]
      rfl
  | cons reply replies ih =>
      have hone : ∃ out, ClientConnection.sendReply cfg
          (.init (numberAt .goBackN 3) (numberAt .goBackN 3) (some raw)) c reply =
            .ok { c with outbox := c.outbox ++ out } ∧
          ∀ raw ∈ out.to cfg.clientAddress, Confirms .goBackN 3 false raw := by
        rcases h reply List.mem_cons_self with rfl | rfl
        · exact ⟨[(raw, cfg.clientAddress)], rfl, fun _ hr ↦ Outbox.eq_of_mem_to hr ▸ hraw⟩
        · let d : ClientConnection := { c with
            sequenceNumber := numberAt .goBackN 3, ackNumber := some (numberAt .goBackN 3) }
          obtain ⟨ack, hsend, hack⟩ := sends_confirmation cfg (c := d) (k := 3) (by decide)
            (by rw [hproto]) (by rw [hproto]; rfl)
          obtain ⟨ack', hencode, hsame⟩ := (ClientConnection.send_eq_ok cfg).mp hsend
          obtain rfl : ack = ack' := by
            have hlast := congrArg (fun c : ClientConnection ↦ c.socket.lastRawPacket) hsame
            exact Option.some.inj hlast
          rw [hproto] at hencode hack
          refine ⟨[(ack, cfg.clientAddress)], ?_, fun _ hr ↦ Outbox.eq_of_mem_to hr ▸ hack⟩
          rw [ClientConnection.sendReply, hencode]
      obtain ⟨out, hok, hout⟩ := hone
      obtain ⟨out', hok', hout'⟩ := ih (c := { c with outbox := c.outbox ++ out }) fun reply hr ↦
        h reply (List.mem_cons_of_mem _ hr)
      refine ⟨out ++ out', ?_, ?_⟩
      · rw [List.foldlM_cons, hok]
        refine (congrArg (· >>= _) rfl).trans (hok'.trans ?_)
        rw [List.append_assoc]
      · intro raw' hr
        rw [Outbox.to_append, List.mem_append] at hr
        exact hr.elim (hout raw') (hout' raw')

theorem Entered.of_kept (h : Entered content c) (hfile : c'.file = c.file)
    (hrep : c'.reports = c.reports) (hp : c'.point = c.point) : Entered content c' := by
  obtain ⟨raw, hpoint, hraw⟩ := h.point
  refine ⟨⟨hfile ▸ h.receives.file, hrep ▸ h.receives.told, ?_⟩, raw, hp.trans hpoint, hraw⟩
  cases h.receives.at_point with
  | receiving hq hr => exact .receiving (hp.trans hq) hr
  | closing hq | ended hq =>
      rw [hpoint] at hq
      cases hq

/-- Nothing that was sent before the window is the first chunk. -/
theorem Entered.step (h : Entered content c) (hproto : cfg.protocolVersion = .goBackN)
    (hg : (c.listened cfg ev).gaveUp = false)
    (hev : ev.Quiet ∨ ∃ raw A now, ev = .datagram raw (some A) now ∧ StaleData 3 raw) :
    Entered content (c.step cfg ev) ∧ ∀ raw ∈ (c.step cfg ev).outbox.to cfg.clientAddress,
      Confirms .goBackN 3 false raw := by
  obtain ⟨reply, hp, hreply⟩ := h.point
  rcases hev with ⟨now, rfl | rfl⟩ | ⟨raw, A, now, rfl, d, hd, hle, -⟩
  · unfold ClientConnection.listened at hg
    rw [hp] at hg
    cases hg
  · have hstep : c.step cfg (.proceed now) = { c with outbox := [] } := by
      simp only [ClientConnection.step, ClientConnection.onEvent, hp]
      rfl
    rw [hstep]
    exact ⟨h.of_kept rfl rfl rfl, fun _ hr ↦ (by cases hr)⟩
  · have hne : raw ≠ [] := by
      rintro rfl
      cases hd
    rw [toData_of_ne_nil hne] at hd
    obtain rfl := Option.some.inj hd
    have hcheck : ServerProtocolGbn.receiveFileChunk (raw.take fullBufferSize) (some A) =
        .ok (getPacketFromBytes (raw.take fullBufferSize)) := by
      rw [ServerProtocolGbn.receiveFileChunk, ServerProtocolGbn.validateInboundPacket,
        Protocol.validateInboundPacket_of_ne_nil (mt take_full_eq_nil.mp hne)]
      rfl
    have hstep : c.step cfg (.datagram raw (some A) now) = ClientConnection.handle cfg now
        (ClientConnection.onGbnPacket cfg now
          (.init (numberAt .goBackN 3) (numberAt .goBackN 3) (some reply)) { c with outbox := [] }
          (getPacketFromBytes (raw.take fullBufferSize))) := by
      simp only [ClientConnection.step, ClientConnection.onEvent, hp, ClientConnection.listenReceiver,
        SocketGbn.recvfrom, hcheck, Event.now]
    generalize getPacketFromBytes (raw.take fullBufferSize) = packet at hle hstep
    have hnot : ¬packet.sequenceNumber = (numberAt .goBackN 3).value + 1 := by
      show ¬packet.sequenceNumber = 4
      dsimp only at hle
      omega
    let r : GoBackNReceiver := .init (numberAt .goBackN 3) (numberAt .goBackN 3) (some reply)
    have hwait : r.onPacket packet = ⟨r, r.chunkReplies packet ++ [.resendLast], none, false⟩ :=
      if_neg hnot
    have hreplies : ∀ x ∈ r.chunkReplies packet ++ [.resendLast], x = .resendLast ∨
        x = .sendAck (numberAt .goBackN 3) (numberAt .goBackN 3) := by
      intro x hx
      rcases List.mem_append.mp hx with hx | hx
      · exact .inr (GoBackNReceiver.mem_chunkReplies hx)
      · exact .inl (List.mem_singleton.mp hx)
    obtain ⟨out, hok, hout⟩ := sendReplies_confirm (c := { c with outbox := [] }) hproto hreply hreplies
    have hend : c.step cfg (.datagram raw (some A) now) = { c with
        outbox := out
        sequenceNumber := numberAt .goBackN 3
        ackNumber := some (numberAt .goBackN 3)
        point := .receiveFileGbn r } := by
      rw [hstep, ClientConnection.onGbnPacket, hwait]
      exact congrArg (fun x ↦ ClientConnection.handle cfg now (x >>= _)) hok
    rw [hend]
    exact ⟨h.of_kept rfl rfl hp.symm, hout⟩

end Connection

/-! ## What is in flight -/

section Flight

variable {cfg : Client.Config} {k : Nat} {isAck isSyn : Bool} {data raw : Bytes}

/-- The name or the size of the file -/
def Informs (cfg : Client.Config) (name : String) (size : Nat) (raw : Bytes) : Prop :=
  InformsFilename cfg name raw ∨ InformsFilesize cfg size raw

theorem staleData_packed (h : Packed cfg k isAck isSyn data raw) (hk : k ≤ 3) : StaleData 3 raw := by
  have hparse := parse_packetAt h
  have hne : raw ≠ [] := (isFrame_of_encode h).ne_nil
  refine ⟨_, toData_of_ne_nil hne, ?_, ?_⟩
  · rw [getPacketFromBytes_take (by decide), hparse, packetAt]
    exact le_trans (numberAt_le cfg.protocolVersion k) hk
  · rw [getPacketFromBytes_take (by decide), hparse]
    rfl

theorem Informs.stale {name : String} {size : Nat} (h : Informs cfg name size raw) : StaleData 3 raw := by
  rcases h with h | ⟨-, h⟩
  · exact staleData_packed h (by decide)
  · exact staleData_packed h (by decide)

theorem staleReply_confirms (h : Confirms .goBackN k isSyn raw) (hk : k ≤ 3) : StaleReply 3 raw := by
  have hne : raw ≠ [] := by
    rintro rfl
    exact absurd h.isAck (by decide)
  have hle : (numberAt .goBackN k).value ≤ 3 := le_trans (numberAt_le .goBackN k) hk
  have hcut : raw.take commsBufferSize = raw :=
    List.take_of_length_le (le_trans h.length (by decide))
  refine ⟨⟨(numberAt .goBackN k).value, (numberAt .goBackN k).value, false⟩, ?_, hle, hle, rfl⟩
  rw [toReply, if_neg hne, hcut]
  simp only [h.sequenceNumber, h.ackNumber _ rfl, GoBackNSender.isFinBack, h.isAck, h.isFin, Option.map_some]
  rfl

end Flight

/-! ## The stages -/

/-- The setting of a Go-Back-N upload of the file -/
structure Uploading (ccfg : Client.Config) (scfg : Server.Config) (file : File) (src name : String) :
    Prop where
  client : ccfg.protocolVersion = .goBackN
  connection : scfg.protocolVersion = .goBackN
  task : ccfg.task = .upload src name
  address : ccfg.serverAddress ≠ scfg.address
  position : file.position = 0
  content : file.content ≠ []
  fits : 3 + totalChunks file.content ≤ maxSequenceNumber

section Stages

variable {ccfg : Client.Config} {scfg : Server.Config} {file : File} {src name : String}
  {w w' : World Client ClientConnection Bytes Bytes} {c : Client} {d : ClientConnection}
  {i : Option Bytes} {p q : List Bytes} {ev : Event}

theorem Uploading.numbered (h : Uploading ccfg scfg file src name) :
    (uploadTransfer file.content 3).Numbered False := by
  have hfits := h.fits
  exact Gbn.numbered (totalChunks_pos h.content) (by decide) (by omega)

/-- Both ends follow the window. -/
def InWindow (h : Uploading ccfg scfg file src name) (w : World Client ClientConnection Bytes Bytes) :
    Prop :=
  ∃ v, UploadFollows h.client ⟨src, name, h.task⟩ h.connection file.content 3 w v ∧
    (contract h.numbered).Holds v

/-- How far the upload has got, and what is in flight then. -/
inductive Uploads (h : Uploading ccfg scfg file src name)
    (w : World Client ClientConnection Bytes Bytes) : Prop
  | operation
      (hc : Pending ccfg file scfg.address ccfg.serverAddress 1 (.sendOperationIntention scfg.address)
        (fun _ ↦ False) w.left)
      (hd : Unnamed scfg w.right) (hr : w.toRight = [])
      (hl : InOrder (Confirms .goBackN 0 true) (Confirms .goBackN 1 false) w.toLeft)
  | filename
      (hc : Pending ccfg file scfg.address scfg.address 2 .informFilename (InformsFilename ccfg name)
        w.left)
      (hd : Unnamed scfg w.right) (hr : ∀ raw ∈ w.toRight, InformsFilename ccfg name raw)
      (hl : ∀ raw ∈ w.toLeft, Confirms .goBackN 1 false raw)
  | named
      (hc : Pending ccfg file scfg.address scfg.address 2 .informFilename (InformsFilename ccfg name)
        w.left)
      (hd : Unsized scfg w.right) (hr : ∀ raw ∈ w.toRight, InformsFilename ccfg name raw)
      (hl : InOrder (Confirms .goBackN 1 false) (Confirms .goBackN 2 false) w.toLeft)
  | filesize
      (hc : Pending ccfg file scfg.address scfg.address 3 .informFilesize
        (Informs ccfg name file.content.length) w.left)
      (hd : Unsized scfg w.right) (hr : ∀ raw ∈ w.toRight, Informs ccfg name file.content.length raw)
      (hl : ∀ raw ∈ w.toLeft, Confirms .goBackN 2 false raw)
  | entered
      (hc : Pending ccfg file scfg.address scfg.address 3 .informFilesize
        (Informs ccfg name file.content.length) w.left)
      (hd : Entered file.content w.right)
      (hr : ∀ raw ∈ w.toRight, Informs ccfg name file.content.length raw)
      (hl : InOrder (Confirms .goBackN 2 false) (Confirms .goBackN 3 false) w.toLeft)
  | window (hw : InWindow h w)
  | gone (hc : Parted scfg.address (InformsFilename ccfg name) w.left)
      (hd : Unnamed scfg w.right ∨ Unsized scfg w.right)
      (hr : ∀ raw ∈ w.toRight, InformsFilename ccfg name raw)
  | refused (hd : Refused w.right)

/-! ### The steps of the client -/

/-- A client that is not at the end of its patience gets nothing, or the confirmation. -/
theorem Pending.meets {cfg : Client.Config} {peer A : Address} {k : Nat} {point : Client.Point}
    {P : Bytes → Prop} {next : Time → Client → Except Exn Packet → Client.Exec}
    (h : Pending cfg file peer A k point P c) (hproto : cfg.protocolVersion = .goBackN)
    (hw : Waits cfg c next)
    (hp : c.point = .sendOperationIntention peer ∨ c.point = .informFilename ∨
      c.point = .informFilesize)
    (hev : Hears .goBackN ev) (hg : (c.listened cfg ev).gaveUp = false) :
    (∃ r b, c.step cfg ev = c.stirred r b) ∨
      ∃ raw source now packet, ev = .datagram raw (some source) now ∧ Numbered .goBackN k raw ∧
        c.step cfg ev = Client.handle cfg now (next now { c with outbox := [] } (.ok packet)) := by
  rw [← hproto] at hev ⊢
  cases hw.meets h.toSent hev with
  | stirs r b hstep => exact .inl ⟨r, b, hstep⟩
  | confirmed packet hev hraw hstep => exact .inr ⟨_, _, _, packet, hev, hraw, hstep⟩
  | raises b he hexn =>
      rw [exn_of_hears hp h.toSent hev hg] at hexn
      cases hexn

section Left

variable (h : Uploading ccfg scfg file src name)
  (hev : ev ∈ arrivals scfg.address i ∪ arrivals ccfg.serverAddress i)
  (hg : (c.listened ccfg ev).gaveUp = false)

include hev hg

theorem left_operation
    (hc : Pending ccfg file scfg.address ccfg.serverAddress 1 (.sendOperationIntention scfg.address)
      (fun _ ↦ False) c)
    (hd : Unnamed scfg d)
    (hl : InOrder (Confirms .goBackN 0 true) (Confirms .goBackN 1 false) (i.toList ++ q)) :
    Uploads h ⟨c.step ccfg ev, d, (c.step ccfg ev).outbox.to scfg.address, q⟩ := by
  have hhears := hears_inOrder hl hev
  rcases hc.meets h.client (waits_operation hc.point) (.inl hc.point) hhears hg with
    ⟨r, b, hstep⟩ | ⟨raw, source, now, packet, rfl, hraw, hstep⟩
  · rw [hstep]
    refine .operation (hc.stirred r b) hd ?_ (hl.sublist (List.sublist_append_right _ q))
    exact List.eq_nil_iff_forall_not_mem.mpr (repeated hc.repeats b)
  · obtain rfl := arrivals_datagram hev
    have hrest : ∀ raw ∈ q, Confirms .goBackN 1 false raw :=
      hl.past (not_numbered_confirms (by decide) hraw)
    rcases hc.names scfg.portBound h.task now packet hstep with ⟨hc', hout⟩ | ⟨hc', hout⟩
    · exact .filename hc' hd hout hrest
    · exact .gone (hc'.mono fun _ ↦ False.elim) (.inl hd) fun raw hr ↦ (hout raw hr).elim

theorem left_filename
    (hc : Pending ccfg file scfg.address scfg.address 2 .informFilename (InformsFilename ccfg name) c)
    (hd : Unnamed scfg d) (hr : ∀ raw ∈ p, InformsFilename ccfg name raw)
    (hl : ∀ raw ∈ i.toList ++ q, Confirms .goBackN 1 false raw) :
    Uploads h ⟨c.step ccfg ev, d, p ++ (c.step ccfg ev).outbox.to scfg.address, q⟩ := by
  have hhears := hears_all hl hev
  rcases hc.meets h.client (waits_filename hc.point) (.inr (.inl hc.point)) hhears hg with
    ⟨r, b, hstep⟩ | ⟨raw, source, now, packet, rfl, hraw, -⟩
  · rw [hstep]
    exact .filename (hc.stirred r b) hd (forall_append hr (repeated hc.repeats b))
      (forall_sublist hl (List.sublist_append_right _ q))
  · obtain rfl := arrivals_datagram hev
    exact absurd (hl raw List.mem_cons_self) (not_numbered_confirms (by decide) hraw)

theorem left_named
    (hc : Pending ccfg file scfg.address scfg.address 2 .informFilename (InformsFilename ccfg name) c)
    (hd : Unsized scfg d) (hr : ∀ raw ∈ p, InformsFilename ccfg name raw)
    (hl : InOrder (Confirms .goBackN 1 false) (Confirms .goBackN 2 false) (i.toList ++ q)) :
    Uploads h ⟨c.step ccfg ev, d, p ++ (c.step ccfg ev).outbox.to scfg.address, q⟩ := by
  have hhears := hears_inOrder hl hev
  rcases hc.meets h.client (waits_filename hc.point) (.inr (.inl hc.point)) hhears hg with
    ⟨r, b, hstep⟩ | ⟨raw, source, now, packet, rfl, hraw, hstep⟩
  · rw [hstep]
    exact .named (hc.stirred r b) hd (forall_append hr (repeated hc.repeats b))
      (hl.sublist (List.sublist_append_right _ q))
  · obtain rfl := arrivals_datagram hev
    have hrest : ∀ raw ∈ q, Confirms .goBackN 2 false raw :=
      hl.past (not_numbered_confirms (by decide) hraw)
    rcases hc.sizes now packet hstep with ⟨hc', hout⟩ | ⟨hc', hout⟩
    · exact .filesize (hc'.mono fun _ ↦ .inr) hd
        (forall_append (fun raw hr' ↦ .inl (hr raw hr')) fun raw hr' ↦ .inr (hout raw hr')) hrest
    · exact .gone hc' (.inr hd) (forall_append hr hout)

theorem left_filesize
    (hc : Pending ccfg file scfg.address scfg.address 3 .informFilesize
      (Informs ccfg name file.content.length) c)
    (hd : Unsized scfg d) (hr : ∀ raw ∈ p, Informs ccfg name file.content.length raw)
    (hl : ∀ raw ∈ i.toList ++ q, Confirms .goBackN 2 false raw) :
    Uploads h ⟨c.step ccfg ev, d, p ++ (c.step ccfg ev).outbox.to scfg.address, q⟩ := by
  have hhears := hears_all hl hev
  rcases hc.meets h.client (waits_filesize hc.point) (.inr (.inr hc.point)) hhears hg with
    ⟨r, b, hstep⟩ | ⟨raw, source, now, packet, rfl, hraw, -⟩
  · rw [hstep]
    exact .filesize (hc.stirred r b) hd (forall_append hr (repeated hc.repeats b))
      (forall_sublist hl (List.sublist_append_right _ q))
  · obtain rfl := arrivals_datagram hev
    exact absurd (hl raw List.mem_cons_self) (not_numbered_confirms (by decide) hraw)

/-- The size is confirmed: the window opens, with nothing in flight that it would take. -/
theorem left_entered
    (hc : Pending ccfg file scfg.address scfg.address 3 .informFilesize
      (Informs ccfg name file.content.length) c)
    (hd : Entered file.content d) (hr : ∀ raw ∈ p, Informs ccfg name file.content.length raw)
    (hl : InOrder (Confirms .goBackN 2 false) (Confirms .goBackN 3 false) (i.toList ++ q)) :
    Uploads h ⟨c.step ccfg ev, d, p ++ (c.step ccfg ev).outbox.to scfg.address, q⟩ := by
  have hhears := hears_inOrder hl hev
  rcases hc.meets h.client (waits_filesize hc.point) (.inr (.inr hc.point)) hhears hg with
    ⟨r, b, hstep⟩ | ⟨raw, source, now, packet, rfl, hraw, hstep⟩
  · rw [hstep]
    exact .entered (hc.stirred r b) hd (forall_append hr (repeated hc.repeats b))
      (hl.sublist (List.sublist_append_right _ q))
  · obtain rfl := arrivals_datagram hev
    have hrest : ∀ raw ∈ q, Confirms .goBackN 3 false raw :=
      hl.past (not_numbered_confirms (by decide) hraw)
    obtain ⟨hclient, hout⟩ :=
      hc.sends h.client ⟨src, name, h.task⟩ h.position h.content now packet hstep
    rw [hout, List.append_nil]
    let v : World Client ClientConnection Bytes Bytes :=
      ⟨c.step ccfg (.datagram raw (some source) now), d, p, q⟩
    have hstale : Stale (uploadTransfer file.content 3) (windowWorld (uploadTransfer file.content 3) v) :=
      stale_windowWorld (Nat.lt_succ_self 3) (fun raw hr' ↦ (hr raw hr').stale)
        fun raw hr' ↦ staleReply_confirms (hrest raw hr') (le_refl 3)
    refine .window ⟨windowWorld (uploadTransfer file.content 3) v, ?_,
      contract_start h.numbered rfl rfl hstale⟩
    exact ⟨.inl (hclient.sends (by decide) h.content), .inl hd.receives, rfl, rfl⟩

end Left

/-- A client that has given up the upload, or that is in the window, is left to other lemmas. -/
theorem Uploads.left_step (h : Uploading ccfg scfg file src name) (hw : Uploads h ⟨c, d, p, i.toList ++ q⟩)
    (hev : ev ∈ arrivals scfg.address i ∪ arrivals ccfg.serverAddress i)
    (hg : (c.listened ccfg ev).gaveUp = false) (hnot : ¬InWindow h ⟨c, d, p, i.toList ++ q⟩) :
    Uploads h ⟨c.step ccfg ev, d, p ++ (c.step ccfg ev).outbox.to scfg.address, q⟩ := by
  cases hw with
  | operation hc hd hr hl =>
      obtain rfl : p = [] := hr
      exact left_operation h hev hg hc hd hl
  | filename hc hd hr hl => exact left_filename h hev hg hc hd hr hl
  | named hc hd hr hl => exact left_named h hev hg hc hd hr hl
  | filesize hc hd hr hl => exact left_filesize h hev hg hc hd hr hl
  | entered hc hd hr hl => exact left_entered h hev hg hc hd hr hl
  | window hw => exact absurd hw hnot
  | gone hc hd hr =>
      obtain ⟨hc', hout⟩ := hc.step ccfg ev
      exact .gone hc' hd (forall_append hr hout)
  | refused hd => exact .refused hd

/-! ### The steps of the connection -/

/-- The name does not have the number of the size. -/
theorem not_numbered_filename {raw : Bytes} (hproto : ccfg.protocolVersion = .goBackN)
    (hraw : InformsFilename ccfg name raw) : ¬Numbered .goBackN 3 raw := by
  intro hnumber
  have hsecond := numbered_packed hraw
  rw [hproto] at hsecond
  exact absurd (hsecond.symm.trans hnumber) (by decide)

theorem eq_some_of_arrives {A : Address} {raw : Bytes} {source : Option Address} {now : Time}
    (hev : Event.datagram raw source now ∈ arrivals A i) : i = some raw := by
  cases i with
  | none => obtain ⟨_, h | h⟩ := hev <;> cases h
  | some raw' =>
      obtain ⟨_, h⟩ := hev
      exact congrArg some (Event.datagram.inj h).1.symm

section Right

variable (h : Uploading ccfg scfg file src name) (hev : ev ∈ arrivals scfg.clientAddress i)

include h hev

theorem right_unnamed (hd : Unnamed scfg d) :
    (Unnamed scfg (d.step scfg ev) ∧ ∀ raw ∈ (d.step scfg ev).outbox.to scfg.clientAddress,
        Confirms .goBackN 1 false raw) ∨
      ((∃ raw, i = some raw) ∧ Unsized scfg (d.step scfg ev) ∧
        ∀ raw ∈ (d.step scfg ev).outbox.to scfg.clientAddress, Confirms .goBackN 2 false raw) ∨
      Refused (d.step scfg ev) := by
  have hstep := hd.step ev
  rw [h.connection] at hstep
  refine hstep.imp_right (Or.imp_left ?_)
  rintro ⟨⟨raw, source, now, rfl⟩, hs⟩
  exact ⟨⟨raw, eq_some_of_arrives hev⟩, hs⟩

theorem right_unsized (hd : Unsized scfg d) :
    (Unsized scfg (d.step scfg ev) ∧ ∀ raw ∈ (d.step scfg ev).outbox.to scfg.clientAddress,
        Confirms .goBackN 2 false raw) ∨
      ((∃ raw, i = some raw ∧ Numbered .goBackN 3 raw) ∧ Entered file.content (d.step scfg ev) ∧
        ∀ raw ∈ (d.step scfg ev).outbox.to scfg.clientAddress, Confirms .goBackN 3 false raw) ∨
      Refused (d.step scfg ev) := by
  refine (hd.step h.connection file.content ev).imp_right (Or.imp_left ?_)
  rintro ⟨⟨raw, source, now, rfl, hraw⟩, hs⟩
  exact ⟨⟨raw, eq_some_of_arrives hev, hraw⟩, hs⟩

/-- What arrives before the window has an old number. -/
theorem right_entered (hd : Entered file.content d) (hg : (d.listened scfg ev).gaveUp = false)
    (hr : ∀ raw ∈ i.toList ++ p, Informs ccfg name file.content.length raw) :
    Entered file.content (d.step scfg ev) ∧
      ∀ raw ∈ (d.step scfg ev).outbox.to scfg.clientAddress, Confirms .goBackN 3 false raw := by
  refine hd.step h.connection hg ?_
  cases i with
  | none => exact .inl hev
  | some raw =>
      obtain ⟨now, rfl⟩ := hev
      exact .inr ⟨raw, _, now, rfl, (hr raw List.mem_cons_self).stale⟩

theorem Uploads.right_step (hw : Uploads h ⟨c, d, i.toList ++ p, q⟩)
    (hg : (d.listened scfg ev).gaveUp = false) (hnot : ¬InWindow h ⟨c, d, i.toList ++ p, q⟩) :
    Uploads h ⟨c, d.step scfg ev, p, q ++ (d.step scfg ev).outbox.to scfg.clientAddress⟩ := by
  have hsub : p.Sublist (i.toList ++ p) := List.sublist_append_right _ p
  have named : (∀ raw ∈ i.toList ++ p, InformsFilename ccfg name raw) →
      ¬∃ raw, i = some raw ∧ Numbered .goBackN 3 raw := by
    rintro hr ⟨raw, rfl, hraw⟩
    exact not_numbered_filename h.client (hr raw List.mem_cons_self) hraw
  cases hw with
  | operation hc hd hr hl =>
      obtain ⟨hi, rfl⟩ := List.append_eq_nil_iff.mp hr
      rcases right_unnamed h hev hd with ⟨hd', hout⟩ | ⟨⟨raw, rfl⟩, -⟩ | hd'
      · exact .operation hc hd' rfl (hl.append hout)
      · cases hi
      · exact .refused hd'
  | filename hc hd hr hl =>
      rcases right_unnamed h hev hd with ⟨hd', hout⟩ | ⟨-, hd', hout⟩ | hd'
      · exact .filename hc hd' (forall_sublist hr hsub) (forall_append hl hout)
      · exact .named hc hd' (forall_sublist hr hsub) ((InOrder.of_left hl).append hout)
      · exact .refused hd'
  | named hc hd hr hl =>
      rcases right_unsized h hev hd with ⟨hd', hout⟩ | ⟨hnumber, -⟩ | hd'
      · exact .named hc hd' (forall_sublist hr hsub) (hl.append hout)
      · exact absurd hnumber (named hr)
      · exact .refused hd'
  | filesize hc hd hr hl =>
      rcases right_unsized h hev hd with ⟨hd', hout⟩ | ⟨-, hd', hout⟩ | hd'
      · exact .filesize hc hd' (forall_sublist hr hsub) (forall_append hl hout)
      · exact .entered hc hd' (forall_sublist hr hsub) ((InOrder.of_left hl).append hout)
      · exact .refused hd'
  | entered hc hd hr hl =>
      obtain ⟨hd', hout⟩ := right_entered h hev hd hg hr
      exact .entered hc hd' (forall_sublist hr hsub) (hl.append hout)
  | window hw => exact absurd hw hnot
  | gone hc hd hr =>
      rcases hd with hd | hd
      · rcases right_unnamed h hev hd with ⟨hd', -⟩ | ⟨-, hd', -⟩ | hd'
        · exact .gone hc (.inl hd') (forall_sublist hr hsub)
        · exact .gone hc (.inr hd') (forall_sublist hr hsub)
        · exact .refused hd'
      · rcases right_unsized h hev hd with ⟨hd', -⟩ | ⟨hnumber, -⟩ | hd'
        · exact .gone hc (.inr hd') (forall_sublist hr hsub)
        · exact absurd hnumber (named hr)
        · exact .refused hd'
  | refused hd => exact .refused (hd.step ev)

end Right

/-! ### The window -/

/-- The source of a datagram does not matter to a client in the window. -/
theorem upload_of_patient {ℓ : Label Bytes Bytes}
    (hs : Duplex.Step .fifo (Client.patientNode ccfg scfg.address) (ClientConnection.patientNode scfg)
      w ℓ w')
    (hp : w.left.point ≠ .handshake) : (uploadSystem .fifo ccfg scfg).step w ℓ w' := by
  cases hs with
  | @leftTakes m _ _ _ ht hs =>
      obtain ⟨ev, hev, -, hreact⟩ := hs
      rcases hev with ⟨now, rfl⟩ | ⟨now, rfl⟩
      · exact .leftTakes ht ⟨_, ⟨now, rfl⟩, hreact⟩
      · have hsame : Client.step ccfg w.left (.datagram m (some ccfg.serverAddress) now) =
            Client.step ccfg w.left (.datagram m (some scfg.address) now) :=
          Client.step_source hp (.datagram m ccfg.serverAddress scfg.address now)
        rw [Client.react, hsame] at hreact
        exact .leftTakes ht ⟨_, ⟨now, rfl⟩, hreact⟩
  | leftMoves hs =>
      obtain ⟨ev, hev, -, hreact⟩ := hs
      exact .leftMoves ⟨ev, hev.elim id id, hreact⟩
  | rightTakes ht hs =>
      obtain ⟨ev, hev, -, hreact⟩ := hs
      exact .rightTakes ht ⟨ev, hev, hreact⟩
  | rightMoves hs =>
      obtain ⟨ev, hev, -, hreact⟩ := hs
      exact .rightMoves ⟨ev, hev, hreact⟩
  | lose hp hq => exact .lose hp hq

theorem InWindow.step {h : Uploading ccfg scfg file src name} (hw : InWindow h w) {ℓ : Label Bytes Bytes}
    (hs : Duplex.Step .fifo (Client.patientNode ccfg scfg.address) (ClientConnection.patientNode scfg)
      w ℓ w') : InWindow h w' := by
  obtain ⟨v, hrel, hv⟩ := hw
  have hpoint : w.left.point ≠ .handshake := by
    have hsends := hrel.left.resolve_right hv.inv.sane.1
    cases hsends.at_point with
    | sending hp | waiting hp | finalizing hp | ended hp =>
        rw [hp]
        exact fun hp ↦ (by cases hp)
  obtain ⟨v', hstep, hrel'⟩ := hrel.step (upload_of_patient hs hpoint)
  exact ⟨v', hrel', hv.step (guard_of_false _ _) hstep⟩

/-! ### Every run -/

theorem Uploads.lose {h : Uploading ccfg scfg file src name} (hw : Uploads h w)
    (hnot : ¬InWindow h w) (hp : p.Sublist w.toRight) (hq : q.Sublist w.toLeft) :
    Uploads h ⟨w.left, w.right, p, q⟩ := by
  cases hw with
  | operation hc hd hr hl => exact .operation hc hd (List.sublist_nil.mp (hr ▸ hp)) (hl.sublist hq)
  | filename hc hd hr hl => exact .filename hc hd (forall_sublist hr hp) (forall_sublist hl hq)
  | named hc hd hr hl => exact .named hc hd (forall_sublist hr hp) (hl.sublist hq)
  | filesize hc hd hr hl => exact .filesize hc hd (forall_sublist hr hp) (forall_sublist hl hq)
  | entered hc hd hr hl => exact .entered hc hd (forall_sublist hr hp) (hl.sublist hq)
  | window hw => exact absurd hw hnot
  | gone hc hd hr => exact .gone hc hd (forall_sublist hr hp)
  | refused hd => exact .refused hd

theorem Uploads.step {h : Uploading ccfg scfg file src name} (hw : Uploads h w) {ℓ : Label Bytes Bytes}
    (hs : Duplex.Step .fifo (Client.patientNode ccfg scfg.address) (ClientConnection.patientNode scfg)
      w ℓ w') : Uploads h w' := by
  by_cases hwindow : InWindow h w
  · exact .window (hwindow.step hs)
  obtain ⟨c, d, tr, tl⟩ := w
  cases hs with
  | leftTakes ht hs =>
      obtain rfl := ht.fifo_eq
      obtain ⟨ev, hev, hok, hreact⟩ := hs
      obtain ⟨rfl, rfl⟩ := Prod.mk.inj hreact
      exact hw.left_step (i := some _) h hev hok hwindow
  | leftMoves hs =>
      obtain ⟨ev, hev, hok, hreact⟩ := hs
      obtain ⟨rfl, rfl⟩ := Prod.mk.inj hreact
      exact hw.left_step (i := none) h hev hok hwindow
  | rightTakes ht hs =>
      obtain rfl := ht.fifo_eq
      obtain ⟨ev, hev, hok, hreact⟩ := hs
      obtain ⟨rfl, rfl⟩ := Prod.mk.inj hreact
      exact hw.right_step (i := some _) h hev hok hwindow
  | rightMoves hs =>
      obtain ⟨ev, hev, hok, hreact⟩ := hs
      obtain ⟨rfl, rfl⟩ := Prod.mk.inj hreact
      exact hw.right_step (i := none) h hev hok hwindow
  | lose hp hq => exact hw.lose hwindow hp hq

/-- A connection whose thread has just started has no file. -/
theorem blank_start (cfg : Server.Config) (disk : Disk) (now : Time) :
    Blank (ClientConnection.start cfg disk now) := by
  have hinit : ∀ ack, Blank { ClientConnection.init cfg disk now with ackNumber := ack } :=
    fun _ ↦ ⟨fun _ hf ↦ (by cases hf), rfl, rfl⟩
  have confirmed : ∀ state c, Blank c → ∀ k : ClientConnection → Exec,
      (∀ c, Blank c → Blank (ClientConnection.handle cfg now (k c))) →
      Blank (ClientConnection.handle cfg now (ClientConnection.sendAck cfg { c with state } >>= k)) := by
    intro state c h k hk
    rw [ClientConnection.sendAck, ClientConnection.send_eq_encode]
    dsimp only
    cases Protocol.encode cfg.protocolVersion c.sequenceNumber c.ackNumber true false false
        cfg.address.port [] with
    | error e =>
        exact (refused_of_error (c := { c with state }) ⟨h.file, h.filename, h.reports⟩ now e).toBlank
    | ok raw => exact hk _ ⟨h.file, h.filename, h.reports⟩
  have key : ∀ c, Blank c → Blank (ClientConnection.handle cfg now
      (ClientConnection.processOperationIntention cfg now c)) := by
    intro c h
    unfold ClientConnection.processOperationIntention
    split
    · exact (refused_of_error h now _).toBlank
    · split
      · exact confirmed _ c h _ fun c h ↦ ⟨h.file, h.filename, h.reports⟩
      · exact confirmed _ c h _ fun c h ↦ ⟨h.file, h.filename, h.reports⟩
  unfold ClientConnection.start
  split
  · exact key _ (hinit none)
  · dsimp only
    split
    · exact hinit none
    · exact key _ (hinit _)

theorem LinkStarts.uploads {P : Parties} {disk : Disk} {cfg : Server.Config}
    (hstarts : LinkStarts P file disk cfg w) (h : Uploading P.ccfg cfg file src name) : Uploads h w := by
  have hconfiguration := hstarts.configuration
  have hop : Client.operationCode P.ccfg = uploadOperation := by rw [Client.operationCode, h.task]
  obtain ⟨hnaming, hack⟩ := hconfiguration.naming hop
  obtain ⟨old, hold, htl⟩ := hconfiguration.toLeft
  obtain ⟨now, hright⟩ := hconfiguration.connection
  rw [h.connection] at hack
  rw [h.client] at hold
  obtain ⟨hfile, hreports⟩ := hstarts.client
  refine .operation ⟨(hconfiguration.client.awaits h.address).1, hfile, hreports⟩
    ⟨hnaming, hright ▸ blank_start cfg disk now⟩ hconfiguration.toRight ?_
  rw [htl]
  exact (InOrder.of_left hold).append hack

/-! ### What is written -/

theorem Blank.written (h : Blank d) : d.file.elim [] File.written = [] := by
  cases hf : d.file with
  | none => rfl
  | some f =>
      show f.pieces.flatten = []
      rw [h.file f hf]
      rfl

/-- Nothing is written before the window, and then what the window says. -/
theorem Uploads.written {h : Uploading ccfg scfg file src name} (hw : Uploads h w) :
    ∃ k ≤ totalChunks file.content,
      w.right.file.elim [] File.written = ((chunksOf file.content).take k).flatten ∧
        (.connectionFinalizationReceived ∈ w.right.reports → k = totalChunks file.content) := by
  have blank : Blank w.right → ∃ k ≤ totalChunks file.content,
      w.right.file.elim [] File.written = ((chunksOf file.content).take k).flatten ∧
        (.connectionFinalizationReceived ∈ w.right.reports → k = totalChunks file.content) := by
    intro hd
    refine ⟨0, Nat.zero_le _, hd.written, fun hmem ↦ ?_⟩
    rw [hd.reports] at hmem
    cases hmem
  cases hw with
  | operation _ hd | filename _ hd => exact blank hd.toBlank
  | named _ hd | filesize _ hd => exact blank hd.toBlank
  | gone _ hd => exact blank (hd.elim Unnamed.toBlank Unsized.toBlank)
  | refused hd => exact blank hd.toBlank
  | entered _ hd =>
      obtain ⟨f, hfile, hf⟩ := hd.receives.file
      refine ⟨0, Nat.zero_le _, ?_, fun hmem ↦ ?_⟩
      · rw [hfile]
        exact (flatten_received f).symm.trans (congrArg List.flatten hf)
      · have hfinished := hd.receives.told hmem
        cases hfinished
  | window hw =>
      obtain ⟨v, hrel, hv⟩ := hw
      obtain ⟨f, hfile, -, htake, hle, hdone⟩ := ServerReceives.written hrel.right hv.inv
      refine ⟨chunksAppended f, hle, ?_, hdone⟩
      rw [hfile, ← htake]
      exact (flatten_received f).symm

end Stages

/-- The client reads from the start of its file. -/
theorem Begins.position {P : Parties} {file : File} {s : Conversation} (h : Begins P file s)
    {src name : String} (htask : P.ccfg.task = .upload src name) : file.position = 0 := by
  obtain ⟨disk, disk', now, hopen, -⟩ := h.client
  unfold Client.openFile at hopen
  rw [htask] at hopen
  dsimp only at hopen
  cases hread : P.ccfg.fileHandler.openFileReadMode disk src true with
  | error e =>
      rw [hread] at hopen
      cases hopen
  | ok f =>
      rw [hread] at hopen
      obtain ⟨rfl, -⟩ := Prod.mk.inj (Except.ok.inj hopen)
      rw [FileHandler.eq_forReading hread]
      rfl

/-- A Go-Back-N upload is at one of its stages. -/
theorem Begins.uploads {P : Parties} {file : File} {s₀ s : Conversation} {src name : String}
    {c : Connection} (hbegins : Begins P file s₀) (hrun : (system P).Reaches s₀ s)
    (hproto : P.ccfg.protocolVersion = .goBackN) (htask : P.ccfg.task = .upload src name)
    (hcontent : file.content ≠ []) (hfits : 3 + totalChunks file.content ≤ maxSequenceNumber)
    (hc : c ∈ connectionOf P s.server) :
    ∃ h : Uploading P.ccfg c.cfg file src name, Uploads h (s.link c) := by
  obtain ⟨w, hstarts, hlink⟩ := hbegins.reaches hrun hc
  have hstart := hstarts.configuration
  have h : Uploading P.ccfg c.cfg file src name :=
    ⟨hproto, hstart.protocol.trans hproto, htask, hstart.address, hbegins.position htask, hcontent, hfits⟩
  refine ⟨h, hlink.invariant (I := Uploads h) ?_ (hstarts.uploads h)⟩
  exact fun hI _ hs ↦ hI.step hs

/-- In every conversation of patient ends under Go-Back-N, the connection of an upload has written the first
chunks of the file of the client, in order, and all of them once `receive_file` has returned. -/
theorem link_in_order (P : Parties) (file : File) (src name : String) (s₀ s : Conversation)
    (hproto : P.ccfg.protocolVersion = .goBackN) (htask : P.ccfg.task = .upload src name)
    (hcontent : file.content ≠ []) (hfits : 3 + totalChunks file.content ≤ maxSequenceNumber)
    (hbegins : Begins P file s₀) (hrun : (system P).Reaches s₀ s) :
    ∀ c ∈ connectionOf P s.server, ∃ k ≤ totalChunks file.content,
      c.thread.file.elim [] File.written = ((chunksOf file.content).take k).flatten ∧
        (.connectionFinalizationReceived ∈ c.thread.reports → k = totalChunks file.content) := by
  intro c hc
  obtain ⟨h, hw⟩ := hbegins.uploads hrun hproto htask hcontent hfits hc
  exact hw.written

/-- The window has been sent, and its one chunk is written. -/
theorem link_in_order_upload : ∃ s : Conversation, ∃ c ∈ connectionOf (Local.parties .goBackN) s.server,
    (c.thread.file.elim [] File.written = [7] ∧ .connectionFinalizationReceived ∈ c.thread.reports) ∧
      ∃ k ≤ totalChunks [7], c.thread.file.elim [] File.written = ((chunksOf [7]).take k).flatten ∧
        (.connectionFinalizationReceived ∈ c.thread.reports → k = totalChunks [7]) := by
  obtain ⟨s, hrun, c, hc, hwritten⟩ := Local.exists_written .goBackN
  exact ⟨s, c, hc, hwritten, link_in_order (Local.parties .goBackN) (Local.notes [7]) "notes.txt" "notes.txt"
    (Local.opened .goBackN) s rfl rfl (by decide) (by decide) (Local.begins_opened .goBackN) hrun c hc⟩

end Rdt.Conversation
