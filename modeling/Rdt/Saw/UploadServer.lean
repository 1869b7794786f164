import Rdt.Saw.Upload

/-! # The connection of an upload, round by round -/

namespace Rdt.Saw.Upload

open BigEndian Server

variable {scfg : Server.Config} {A : Address} {name : String} {content : Bytes} {r : Round}
  {sent : String} {c : ClientConnection} {m : Bytes} {now : Time} {ev : Event}

theorem request_number (hr : r ≠ .start) (hm : request sent content r m) :
    ∃ isAck isFin data, Carries m r.number isAck isFin data := by
  cases r with
  | start => exact absurd rfl hr
  | operation => exact ⟨_, _, _, hm⟩
  | filename => exact ⟨_, _, _, hm⟩
  | filesize => exact ⟨_, _, _, hm.2⟩
  | chunk i =>
      rcases Nat.lt_or_ge i (total content) with hi | hi
      · exact ⟨_, _, _, (request_of_lt hi).mp hm⟩
      · exact ⟨_, _, _, (request_of_le hi).mp hm⟩

/-! ## Waiting -/

theorem Answers.unwindowed (h : Answers scfg name content r c) : c.Unwindowed := by
  unfold ClientConnection.Unwindowed
  rw [h.point]
  cases r with
  | start => exact absurd rfl h.started
  | operation | filename | filesize => trivial
  | chunk i =>
      rcases chunk_cases content i with hi | hi | hi
      · rw [serverPoint_of_lt name hi]
        trivial
      · rw [serverPoint_of_last name hi]
        trivial
      · rw [serverPoint_of_le name hi]
        trivial

theorem Answers.stirred (h : Answers scfg name content r c) (hp : c.point ≠ .ended) (l : ReListen)
    (b : Bool) : Answers scfg name content r (c.stirred l b) ∧
      Single (answer content r) ((c.stirred l b).outbox.to scfg.clientAddress) := by
  refine ⟨⟨⟨h.file, h.opened, h.named, h.sized⟩, h.started, h.point, h.number, h.repeats, h.fresh,
    h.creates, h.reports⟩, ?_⟩
  exact single_retransmission (h.repeats hp) b

theorem Answers.ended (h : Answers scfg name content r c) (hp : c.point = .ended) :
    Answers scfg name content r (c.step scfg ev) ∧
      Single (answer content r) ((c.step scfg ev).outbox.to scfg.clientAddress) := by
  rw [ClientConnection.step_ended hp]
  exact ⟨⟨⟨h.file, h.opened, h.named, h.sized⟩, h.started, h.point, h.number, h.repeats, h.fresh,
    h.creates, h.reports⟩, .nil⟩

theorem Answers.idle (h : Answers scfg name content r c) (hev : ev.Quiet)
    (hg : (c.listened scfg ev).gaveUp = false) : Answers scfg name content r (c.step scfg ev) ∧
      Single (answer content r) ((c.step scfg ev).outbox.to scfg.clientAddress) := by
  by_cases hp : c.point = .ended
  · exact h.ended hp
  · obtain ⟨l, b, hstep⟩ := ClientConnection.step_quiet h.unwindowed hev hg
    rw [hstep]
    exact h.stirred hp l b

/-- A request that is answered already is turned down. -/
theorem Answers.stale (h : Answers scfg name content r c) (hm : request sent content r m)
    (hg : (c.listened scfg (.datagram m (some A) now)).gaveUp = false) :
    Answers scfg name content r (c.step scfg (.datagram m (some A) now)) ∧
      Single (answer content r)
        ((c.step scfg (.datagram m (some A) now)).outbox.to scfg.clientAddress) := by
  by_cases hp : c.point = .ended
  · exact h.ended hp
  have hne : c.sequenceNumber.value ≠ r.number := by
    rw [h.number hp]
    exact r.number_next_ne
  have declined : ∃ isAck isFin data, Carries m r.number isAck isFin data ∧
      c.Declines r.number isAck isFin data := by
    obtain ⟨isAck, isFin, data, hcarries⟩ := request_number h.started hm
    unfold ClientConnection.Declines
    rw [h.point]
    cases r with
    | start => exact absurd rfl h.started
    | operation => exact ⟨_, _, _, hm, hne, _, rfl⟩
    | filename | filesize => exact ⟨isAck, isFin, data, hcarries, hne⟩
    | chunk i =>
        rcases chunk_cases content i with hi | hi | hi
        · rw [serverPoint_of_lt name hi]
          exact ⟨isAck, isFin, data, hcarries, hne⟩
        · rw [serverPoint_of_last name hi]
          exact ⟨_, _, _, (request_of_lt (by omega)).mp hm, .inl rfl⟩
        · exact absurd (h.point.trans (serverPoint_of_le name hi)) hp
  obtain ⟨isAck, isFin, data, hcarries, hdecl⟩ := declined
  obtain ⟨l, b, hstep⟩ := ClientConnection.step_declined hcarries hdecl hg
  rw [hstep]
  exact h.stirred hp l b

/-! ## The next request -/

/-- An event in a receive of `run`. -/
theorem Answers.step_eq (h : Answers scfg name content r c) (ev : Event) :
    ∃ d : ClientConnection, Answers scfg name content r d ∧ d.outbox = [] ∧
      c.step scfg ev = ClientConnection.handle scfg ev.now (d.onEvent scfg ev) := by
  have hpoint : c.point ≠ .initiateCloseConnection := by
    rw [h.point]
    cases r with
    | start | operation | filename | filesize => simp [serverPoint]
    | chunk i =>
        rcases chunk_cases content i with hi | hi | hi
        · simp [serverPoint_of_lt name hi]
        · simp [serverPoint_of_last name hi]
        · simp [serverPoint_of_le name hi]
  exact ⟨{ c with outbox := [] }, ⟨⟨h.file, h.opened, h.named, h.sized⟩, h.started, h.point, h.number,
    h.repeats, h.fresh, h.creates, h.reports⟩, rfl, ClientConnection.step_eq_handle hpoint⟩

theorem Answers.reports_nil (h : Answers scfg name content r c) (hr : r.written < total content) :
    c.reports = [] := by
  by_contra hne
  exact absurd hr (Nat.not_lt.mpr (h.reports hne))

/-- What the connection answers a request: the last chunk by an ACK and a FIN. -/
inductive Replied (content : Bytes) (r : Round) (outs : List Bytes) : Prop
  | sends (h : Sends (answer content r) outs)
  | last {i : Nat} (hr : r = .chunk i) (hi : i + 1 = total content) {ack fin : Bytes}
      (hack : Carries ack (i % 2) true false []) (hfin : Carries fin (i % 2) false true [])
      (houts : outs = [ack, fin])
  | closed {i : Nat} (hr : r = .chunk i) (hi : total content ≤ i) (houts : outs = [])

theorem Replied.all {outs : List Bytes} (h : Replied content r outs) : ∀ o ∈ outs, answer content r o := by
  cases h with
  | sends h => exact h.single.all
  | last hr hi hack hfin houts =>
      rw [hr, houts]
      simpa using ⟨(answer_of_last hi).mpr (.inl hack), (answer_of_last hi).mpr (.inr hfin)⟩
  | closed _ _ houts => exact houts ▸ Single.nil.all

/-- What the connection makes of the next request. -/
inductive Replies (scfg : Server.Config) (name : String) (content : Bytes) (r : Round)
    (c : ClientConnection) : Prop
  | answers (h : Answers scfg name content r c)
      (houts : Replied content r (c.outbox.to scfg.clientAddress))
  | refuses (h : Refuses scfg name content r c)
      (houts : Single (refusal r) (c.outbox.to scfg.clientAddress))
  | dies (h : Dies scfg name content r c) (houts : c.outbox.to scfg.clientAddress = [])

/-- Another exception ends the run. -/
theorem dies_of_error {e : Exn} (hr : r = .filename) (he : e.cls ≠ .connectionClosingNeeded)
    (h : Stores scfg name content 0 c)
    (hrep : c.reports = []) (hout : c.outbox = []) :
    Replies scfg name content r (ClientConnection.handle scfg now (.error (e, c))) := by
  obtain ⟨state, disk, heq⟩ := ClientConnection.handle_error scfg now c he
  rw [heq]
  refine .dies ⟨⟨h.file, h.opened, h.named, h.sized⟩, hr, rfl, hrep⟩ ?_
  rw [hout]
  rfl

/-- A name or a size is refused with a FIN. -/
theorem refuses_of_closing (hproto : scfg.protocolVersion = .stopAndWait)
    (hr : r = .filename ∨ r = .filesize) (hn : c.sequenceNumber = ⟨r.number, .stopAndWait⟩)
    (h : Stores scfg name content 0 c) (hrep : c.reports = []) (hout : c.outbox = []) :
    Replies scfg name content r (ClientConnection.handle scfg now
      (ClientConnection.raise c .connectionClosingNeeded)) := by
  have hseq : c.stepSequence.stepAck.sequenceNumber = ⟨r.next.number, .stopAndWait⟩ := by
    show c.sequenceNumber.step = _
    rw [hn, SequenceNumber.step_mk_saw, r.stepSaw_number]
  obtain ⟨raw, hraw, hsend⟩ := ClientConnection.send_saw (c := c.stepSequence.stepAck) hproto
    (by rw [hseq]; exact r.next.number_lt) false true nil_fits
  rw [hseq] at hraw
  have hclose : ClientConnection.handle scfg now (ClientConnection.raise c .connectionClosingNeeded) =
      (ClientConnection.handed scfg c.stepSequence.stepAck raw).block .initiateCloseConnection now := by
    rw [ClientConnection.handle_closing, ClientConnection.initiateCloseConnection,
      ClientConnection.sendFin, hsend]
    rfl
  rw [hclose]
  refine .refuses ⟨⟨h.file, h.opened, h.named, h.sized⟩, hr, rfl, hseq, ?_, hrep⟩ ?_
  · rintro _ ⟨⟩
    exact ⟨hr, hraw⟩
  · exact (ClientConnection.sends_handed (c := c.stepSequence.stepAck) hout ⟨hr, hraw⟩).single

/-- The packet of a round is confirmed, and the next one waited for. -/
theorem answers_handed (now : Time) {e : ClientConnection} {raw : Bytes} (hraw : answer content r raw)
    (hr : r ≠ .start ∧ r ≠ .operation) (hn : e.sequenceNumber = ⟨r.number, .stopAndWait⟩)
    (h : Stores scfg name content r.written e) (hfile : e.file ≠ none) (hrep : e.reports = [])
    (hout : e.outbox = []) {d : ClientConnection}
    (hd : d = (ClientConnection.handed scfg e raw).stepSequence.block
      (serverPoint name content r) now) : Replies scfg name content r d := by
  have hsent : Sends (answer content r)
      ((ClientConnection.handed scfg e raw).outbox.to scfg.clientAddress) :=
    ClientConnection.sends_handed hout hraw
  rw [hd]
  refine .answers ⟨⟨h.file, h.opened, h.named, h.sized⟩, hr.1, rfl, fun _ ↦ ?_, fun _ ↦ ?_,
    fun h ↦ absurd h hr.2, fun _ ↦ hfile, fun hne ↦ absurd hrep hne⟩ (.sends hsent)
  · show e.sequenceNumber.step = _
    rw [hn, SequenceNumber.step_mk_saw, r.stepSaw_number]
  · show ∀ o ∈ Outbox.to [(raw, scfg.clientAddress)] scfg.clientAddress, answer content r o
    simpa using hraw

/-- The closing ACK. -/
theorem Answers.ack_taken {i : Nat} (hi : total content ≤ i) (hr : r.next = .chunk i)
    (hcontent : content ≠ []) (h : Answers scfg name content r c)
    (hm : Carries m (i % 2) true false []) :
    Replies scfg name content (.chunk i) (c.step scfg (.datagram m (some A) now)) := by
  obtain ⟨j, rfl, rfl⟩ : ∃ j, r = .chunk j ∧ i = j + 1 := by
    rcases Round.eq_of_next_eq_chunk hr with ⟨-, rfl⟩ | h
    · exact absurd hi (Nat.not_le.mpr (total_pos hcontent))
    · exact h
  have hall : (chunks content).take (j + 1) = (chunks content).take (j + 1 + 1) := by
    rw [List.take_of_length_le hi, List.take_of_length_le (Nat.le_succ_of_le hi)]
  rcases Nat.lt_or_ge j (total content) with hj | hj
  · obtain ⟨d, hd, hout, hstep⟩ := h.step_eq (.datagram m (some A) now)
    have hlast : j + 1 = total content := by omega
    have hnum : d.sequenceNumber = ⟨(j + 1) % 2, .stopAndWait⟩ :=
      hd.number (by rw [hd.point, serverPoint_of_last name hlast]; simp)
    have hok : ((ServerProtocol.waitForAck d.sequenceNumber).letThrough [.connectionLost]).check
        (m.take commsBufferSize) (some A) = .ok () := by
      rw [check_waitForAck hm, hnum]
      simp
    have hev : d.onEvent scfg (.datagram m (some A) now) =
        ClientConnection.onClosingUpload scfg d (.ok ()) := by
      rw [ClientConnection.onEvent, hd.point, serverPoint_of_last name hlast]
      exact ClientConnection.listen_returns hok
    rw [hstep, hev]
    refine .answers ⟨⟨?_, fun _ ↦ hd.opened (by simp [Round.written]), hd.named, hd.sized⟩, by simp,
      (serverPoint_of_le name (by omega)).symm, fun h ↦ absurd rfl h, fun h ↦ absurd rfl h,
      fun h ↦ (by cases h), fun _ ↦ hd.creates (by simp), fun _ ↦ ?_⟩ ?_
    · intro f hf
      exact ⟨(hd.file f hf).1, (hd.file f hf).2.trans hall⟩
    · simp only [Round.written]
      omega
    · show Replied content _ (d.outbox.to scfg.clientAddress)
      rw [hout]
      exact .closed rfl hi rfl
  · have hp : c.point = .ended := h.point.trans (serverPoint_of_le name hj)
    rw [ClientConnection.step_ended hp]
    refine .answers ⟨⟨?_, fun _ ↦ h.opened (by simp [Round.written]), h.named, h.sized⟩, by simp,
      hp.trans (serverPoint_of_le name (by omega)).symm, fun h ↦ absurd hp h, fun h ↦ absurd hp h,
      fun h ↦ (by cases h), fun _ ↦ h.creates (by simp), fun _ ↦ ?_⟩ (.closed rfl hi rfl)
    · intro f hf
      exact ⟨(h.file f hf).1, (h.file f hf).2.trans hall⟩
    · simp only [Round.written]
      omega

section Next

variable (hproto : scfg.protocolVersion = .stopAndWait)
include hproto

/-- The name. -/
theorem Answers.name_taken (hcontent : content ≠ []) (hname : ∀ n, decodeUtf8 ((encodeUtf8 sent).take
      (fullBufferSize - sawProtocolHeaderSize)) = .ok n → n = name)
    (h : Answers scfg name content .operation c) (hm : Carries m 0 false false (encodeUtf8 sent)) :
    Replies scfg name content .filename (c.step scfg (.datagram m (some A) now)) := by
  obtain ⟨d, hd, hout, hstep⟩ := h.step_eq (.datagram m (some A) now)
  have hnum : d.sequenceNumber = ⟨0, .stopAndWait⟩ := hd.number (by rw [hd.point]; simp [serverPoint])
  have hrep : d.reports = [] := hd.reports_nil (total_pos hcontent)
  have hstores : Stores scfg name content 0 d := hd.toStores
  have hcheck := check_receiveFilename (A := A) (s := d.sequenceNumber) scfg.protocolVersion hm
  have hev : d.onEvent scfg (.datagram m (some A) now) = ClientConnection.listen d
      (ServerProtocol.receiveFilename scfg.protocolVersion d.sequenceNumber) (.datagram m (some A) now)
      (ClientConnection.onSuccess (ClientConnection.onFilenameForUpload scfg now)) := by
    rw [ClientConnection.onEvent, hd.point]
    rfl
  rw [hstep, hev]
  cases hdec : decodeUtf8 ((encodeUtf8 sent).take (fullBufferSize - sawProtocolHeaderSize)) with
  | error e =>
      rw [hdec] at hcheck
      obtain rfl := decodeUtf8_error hdec
      rw [ClientConnection.listen_raises hcheck (show ExnClass.unicodeDecodeError ∉
        configureWantedExceptionsToCatch [] by decide)]
      refine dies_of_error (c := d.retransmit false) rfl (by decide)
        ⟨hstores.file, hstores.opened, hstores.named, hstores.sized⟩ hrep ?_
      simp [ClientConnection.retransmit, hout]
  | ok n =>
      obtain rfl := hname n hdec
      have hok : (ServerProtocol.receiveFilename scfg.protocolVersion d.sequenceNumber).check
          (m.take fullBufferSize) (some A) = .ok (⟨0, scfg.protocolVersion⟩, n) := by
        rw [hcheck, hdec, hnum]
        rfl
      rw [ClientConnection.listen_returns hok, ClientConnection.onSuccess,
        ClientConnection.onFilenameForUpload]
      dsimp only
      cases hopen : scfg.fileHandler.openFileWriteMode d.disk n false with
      | ok opened =>
          obtain ⟨file, disk⟩ := opened
          obtain ⟨-, rfl, -⟩ := FileHandler.openFileWriteMode_eq_ok hopen
          generalize he : ({ d with
            sequenceNumber := ⟨0, scfg.protocolVersion⟩
            file := some (.forWriting (scfg.fileHandler.getFilepath n false)
              (scfg.fileHandler.node (scfg.fileHandler.getFilepath n false)))
            disk } : ClientConnection) = e
          have hseq : e.sequenceNumber = ⟨0, .stopAndWait⟩ := by rw [← he, hproto]
          obtain ⟨raw, hraw, hsend⟩ := ClientConnection.send_saw (c := e) hproto
            (by rw [hseq]; decide) true false nil_fits
          rw [hseq] at hraw
          dsimp only
          rw [he, ClientConnection.sendAck, hsend]
          subst he
          refine answers_handed (r := .filename) now hraw (by decide) hseq
            ⟨?_, fun h ↦ absurd rfl h, hstores.named, hstores.sized⟩ (Option.some_ne_none _) hrep hout rfl
          rintro f ⟨⟩
          exact ⟨⟨rfl, rfl⟩, rfl⟩
      | error e =>
          rcases FileHandler.openFileWriteMode_error hopen with rfl | rfl
          · exact dies_of_error (c := { d with sequenceNumber := ⟨0, scfg.protocolVersion⟩ })
              rfl (by decide) ⟨hstores.file, hstores.opened, hstores.named, hstores.sized⟩ hrep hout
          · exact refuses_of_closing (c := { d with
              sequenceNumber := ⟨0, scfg.protocolVersion⟩, state := .unrecoverableBadState }) hproto
              (.inl rfl) (by rw [hproto]; rfl)
              ⟨hstores.file, hstores.opened, hstores.named, hstores.sized⟩ hrep hout

/-- A chunk. -/
theorem Answers.chunk_taken {i : Nat} (hi : i < total content) (hr : r.next = .chunk i)
    (h : Answers scfg name content r c)
    (hm : Carries m (i % 2) false (i + 1 = total content) ((chunks content).getD i [])) :
    Replies scfg name content (.chunk i) (c.step scfg (.datagram m (some A) now)) := by
  obtain ⟨d, hd, hout, hstep⟩ := h.step_eq (.datagram m (some A) now)
  have hwritten : r.written = i := by
    rcases Round.eq_of_next_eq_chunk hr with ⟨rfl, rfl⟩ | ⟨j, rfl, rfl⟩ <;> rfl
  have hpoint : d.point = .receiveFileChunk := by
    rw [hd.point]
    rcases Round.eq_of_next_eq_chunk hr with ⟨rfl, rfl⟩ | ⟨j, rfl, rfl⟩
    · rfl
    · exact serverPoint_of_lt name hi
  have hnum : d.sequenceNumber = ⟨i % 2, .stopAndWait⟩ := by
    rw [hd.number (by rw [hpoint]; simp), hr]
    rfl
  have hrep : d.reports = [] := hd.reports_nil (by omega)
  have hstores : Stores scfg name content i d := hwritten ▸ hd.toStores
  obtain ⟨file, hfile⟩ := Option.ne_none_iff_exists'.mp (hd.creates (by rintro rfl; cases hr))
  obtain ⟨packet, hfin, hdata, hcheck⟩ := check_receiveFileChunk (A := A) (s := d.sequenceNumber)
    scfg.protocolVersion hm
  have hok : (ServerProtocol.receiveFileChunk scfg.protocolVersion d.sequenceNumber).check
      (m.take fullBufferSize) (some A) = .ok (⟨i % 2, scfg.protocolVersion⟩, packet) := by
    rw [hcheck, hnum]
    exact if_neg (not_not.mpr rfl)
  have hwhole : packet.data = (chunks content).getD i [] := by
    rw [hdata, List.take_of_length_le]
    exact le_trans (length_chunk_le i) (by decide)
  have hev : d.onEvent scfg (.datagram m (some A) now) =
      ClientConnection.onFileChunk scfg now d (⟨i % 2, scfg.protocolVersion⟩, packet) := by
    rw [ClientConnection.onEvent, hpoint]
    exact ClientConnection.listen_returns hok
  generalize he : ({ d with sequenceNumber := ⟨i % 2, scfg.protocolVersion⟩ } : ClientConnection) = e
  have hseq : e.sequenceNumber = ⟨i % 2, .stopAndWait⟩ := by rw [← he, hproto]
  have hlt : e.sequenceNumber.value < 2 := by
    rw [hseq]
    exact Nat.mod_lt i (by decide)
  have hpieces : ∀ f ∈ some (FileHandler.appendToFile file packet),
      scfg.fileHandler.OpenAt (scfg.fileHandler.getFilepath name false) f ∧
        f.pieces = (chunks content).take (i + 1) := by
    rintro _ ⟨⟩
    obtain ⟨hpath, hpieces⟩ := hstores.file file hfile
    refine ⟨hpath, ?_⟩
    rw [FileHandler.pieces_appendToFile, hpieces, hwhole, List.take_succ_eq_append_getElem hi,
      List.getElem_eq_getD []]
  rw [hstep, hev, ClientConnection.onFileChunk]
  dsimp only
  rw [he]
  by_cases hlast : i + 1 = total content
  · have hisFin : packet.isFin = true := by rw [hfin, decide_eq_true hlast]
    rw [hisFin, if_pos rfl]
    subst he
    generalize he : ({ d with
      sequenceNumber := ⟨i % 2, scfg.protocolVersion⟩
      file := some (FileHandler.close (FileHandler.appendToFile file packet))
      disk := FileHandler.closeOnDisk (scfg.fileHandler.flush d.disk (FileHandler.appendToFile file
        packet)) (FileHandler.appendToFile file packet) } : ClientConnection) = e
    have hwritten : (ClientConnection.appendToFile scfg { d with
        sequenceNumber := ⟨i % 2, scfg.protocolVersion⟩ } packet).closeWritten = e := by
      simp only [ClientConnection.appendToFile, ClientConnection.closeWritten, hfile, ← he]
    have hseq : e.sequenceNumber = ⟨i % 2, .stopAndWait⟩ := by rw [← he, hproto]
    obtain ⟨ack, fin, hack, hfin, hclosing⟩ := ClientConnection.closingHandshakeForUpload_eq
      (c := e) hproto (by rw [hseq]; exact Nat.mod_lt i (by decide)) now
    rw [hseq] at hack hfin
    have hstep : ClientConnection.handle scfg (Event.datagram m (some A) now).now (do
        let c ← (.ok { d with sequenceNumber := ⟨i % 2, scfg.protocolVersion⟩ } : Exec)
        let c := ClientConnection.appendToFile scfg c packet
        ClientConnection.closingHandshakeForUpload scfg now c.closeWritten) =
        (ClientConnection.handed scfg (ClientConnection.handed scfg
          (e.report .connectionFinalizationReceived) ack) fin).stepSequence.block
            .closingHandshakeForUpload now := by
      simp only [bind, Except.bind, hwritten, hclosing]
      rfl
    refine Eq.subst (motive := Replies scfg name content (.chunk i)) hstep.symm ?_
    subst he
    refine .answers ⟨⟨?_, fun _ ↦ Option.some_ne_none _, hstores.named, hstores.sized⟩, by simp,
      (serverPoint_of_last name hlast).symm, fun _ ↦ ?_, fun _ o ho ↦ ?_, fun h ↦ (by cases h),
      fun _ ↦ Option.some_ne_none _, fun _ ↦ le_of_eq hlast.symm⟩ ?_
    · rintro _ ⟨⟩
      exact hpieces (FileHandler.appendToFile file packet) rfl
    · show SequenceNumber.step ⟨i % 2, scfg.protocolVersion⟩ = _
      rw [hproto]
      exact congrArg (SequenceNumber.mk · _) (SequenceNumber.stepSaw_mod i)
    · obtain rfl : o = fin := Outbox.eq_of_mem_to ho
      exact (answer_of_last hlast).mpr (.inr hfin)
    · refine .last rfl hlast hack hfin ?_
      show Outbox.to ((d.outbox ++ [(ack, scfg.clientAddress)]) ++ [(fin, scfg.clientAddress)])
        scfg.clientAddress = [ack, fin]
      rw [hout]
      simp
  · have hisFin : packet.isFin = false := by rw [hfin, decide_eq_false hlast]
    have hmore : i + 1 < total content := by omega
    obtain ⟨raw, hraw, hsend⟩ := ClientConnection.send_saw (c := e) hproto hlt true false nil_fits
    rw [hseq] at hraw
    rw [hisFin, if_neg (by decide), ClientConnection.sendAck, hsend]
    subst he
    refine answers_handed (r := .chunk i) now (e := { d with
      sequenceNumber := ⟨i % 2, scfg.protocolVersion⟩
      file := some (FileHandler.appendToFile file packet)
      disk := scfg.fileHandler.flush d.disk (FileHandler.appendToFile file packet) })
      ((answer_of_lt hmore).mpr hraw) (by simp) hseq ⟨hpieces, fun _ ↦ Option.some_ne_none _, hstores.named,
        hstores.sized⟩ (Option.some_ne_none _) hrep hout ?_
    simp only [bind, Except.bind, pure, Except.pure, ClientConnection.handle, Bool.false_eq_true,
      if_false, ClientConnection.appendToFile, ClientConnection.handed, hfile,
      serverPoint_of_lt name hmore]

/-- The size. -/
theorem Answers.size_taken (hcontent : content ≠ []) (hsize : content.length < 2 ^ 32)
    (h : Answers scfg name content .filename c)
    (hm : Carries m 1 false false (toBytes 4 content.length)) :
    Replies scfg name content .filesize (c.step scfg (.datagram m (some A) now)) := by
  obtain ⟨d, hd, hout, hstep⟩ := h.step_eq (.datagram m (some A) now)
  have hnum : d.sequenceNumber = ⟨1, .stopAndWait⟩ := hd.number (by rw [hd.point]; simp [serverPoint])
  have hrep : d.reports = [] := hd.reports_nil (total_pos hcontent)
  have hstores : Stores scfg name content 0 d := hd.toStores
  have hok : (ServerProtocol.receiveFilesize scfg.protocolVersion d.sequenceNumber).check
      (m.take commsBufferSize) (some A) = .ok (⟨1, scfg.protocolVersion⟩, content.length) := by
    have hvalue : fromBytes ((toBytes 4 content.length).take
        (commsBufferSize - sawProtocolHeaderSize)) = content.length := by
      rw [List.take_of_length_le (by simp [commsBufferSize, sawProtocolHeaderSize])]
      exact fromBytes_toBytes (lt_of_lt_of_eq hsize (by norm_num))
    rw [check_receiveFilesize scfg.protocolVersion hm, hnum, hvalue]
    rfl
  have hev : d.onEvent scfg (.datagram m (some A) now) =
      ClientConnection.onFilesize scfg now name d (⟨1, scfg.protocolVersion⟩, content.length) := by
    rw [ClientConnection.onEvent, hd.point]
    exact ClientConnection.listen_returns hok
  rw [hstep, hev, ClientConnection.onFilesize]
  dsimp only
  generalize he : ({ d with sequenceNumber := ⟨1, scfg.protocolVersion⟩ } :
    ClientConnection).stepAck = e
  have hseq : e.sequenceNumber = ⟨1, .stopAndWait⟩ := by
    rw [← he, hproto]
    rfl
  by_cases hfit : scfg.fileHandler.canFileFit content.length = true
  · obtain ⟨raw, hraw, hsend⟩ := ClientConnection.send_saw (c := e) hproto
      (by rw [hseq]; decide) true false nil_fits
    rw [hseq] at hraw
    rw [if_pos hfit, ClientConnection.sendAck, hsend]
    refine answers_handed (r := .filesize) now (e := { e with
      filenameForUpload := some name, filesizeForUpload := some content.length }) hraw (by decide) hseq
      ⟨by subst he; exact hstores.file, fun h ↦ absurd rfl h, by rintro _ ⟨⟩; rfl,
        by rintro _ ⟨⟩; rfl⟩ (by subst he; exact hd.creates (by decide))
      (by subst he; exact hrep) (by subst he; exact hout) ?_
    simp only [bind, Except.bind, pure, Except.pure, ClientConnection.handle,
      ClientConnection.startReception, hproto]
    rfl
  · rw [if_neg hfit]
    subst he
    exact refuses_of_closing (r := .filesize) hproto (.inr rfl) hseq
      ⟨hstores.file, hstores.opened, hstores.named, hstores.sized⟩ hrep hout

/-- What a connection that has answered a round makes of the request of the next one. -/
theorem Answers.next (hcontent : content ≠ [])
    (hname : ∀ n, decodeUtf8 ((encodeUtf8 sent).take (fullBufferSize - sawProtocolHeaderSize)) = .ok n →
      n = name) (h : Answers scfg name content r c) (hm : request sent content r.next m) :
    Replies scfg name content r.next (c.step scfg (.datagram m (some A) now)) := by
  cases hr : r.next with
  | start => cases r <;> cases hr
  | operation =>
      cases r with
      | start => exact absurd rfl h.started
      | _ => cases hr
  | filename =>
      cases r with
      | operation => exact h.name_taken hproto hcontent hname hm
      | _ => cases hr
  | filesize =>
      cases r with
      | filename => exact h.size_taken hproto hcontent hm.1 hm.2
      | _ => cases hr
  | chunk i =>
      rw [hr] at hm
      rcases Nat.lt_or_ge i (total content) with hi | hi
      · exact h.chunk_taken hproto hi hr ((request_of_lt hi).mp hm)
      · exact h.ack_taken hi hr hcontent ((request_of_le hi).mp hm)

end Next

/-! ## Afterwards -/

theorem Refuses.stirred (h : Refuses scfg name content r c) (l : ReListen) (b : Bool) :
    Refuses scfg name content r (c.stirred l b) ∧
      Single (refusal r) ((c.stirred l b).outbox.to scfg.clientAddress) :=
  ⟨⟨⟨h.file, h.opened, h.named, h.sized⟩, h.round, h.point, h.number, h.repeats, h.reports⟩,
    ⟨fun o ho ↦ h.repeats o (SocketSaw.mem_retransmission ho),
      (single_retransmission (fun _ _ ↦ trivial) b).short⟩⟩

theorem Refuses.idle (h : Refuses scfg name content r c) (hev : ev.Quiet)
    (hg : (c.listened scfg ev).gaveUp = false) : Refuses scfg name content r (c.step scfg ev) ∧
      Single (refusal r) ((c.step scfg ev).outbox.to scfg.clientAddress) := by
  obtain ⟨l, b, hstep⟩ := ClientConnection.step_quiet
    (by rw [ClientConnection.Unwindowed, h.point]; trivial) hev hg
  rw [hstep]
  exact h.stirred l b

theorem Refuses.stale (hr : r ≠ .start) (h : Refuses scfg name content r c)
    (hm : request sent content r m) (hg : (c.listened scfg (.datagram m (some A) now)).gaveUp = false) :
    Refuses scfg name content r (c.step scfg (.datagram m (some A) now)) ∧
      Single (refusal r)
        ((c.step scfg (.datagram m (some A) now)).outbox.to scfg.clientAddress) := by
  obtain ⟨isAck, isFin, data, hcarries⟩ := request_number hr hm
  have hdecl : c.Declines r.number isAck isFin data := by
    rw [ClientConnection.Declines, h.point, h.number]
    exact r.number_next_ne
  obtain ⟨l, b, hstep⟩ := ClientConnection.step_declined hcarries hdecl hg
  rw [hstep]
  exact h.stirred l b

theorem Refuses.closes (h : Refuses scfg name content r c) : Closes scfg name content r c :=
  ⟨h.toStores, .inl ⟨h.point, h.number⟩, fun raw hraw ↦ .inl (h.repeats raw hraw), h.reports⟩

theorem Closes.step (hproto : scfg.protocolVersion = .stopAndWait)
    (h : Closes scfg name content r c) (ev : Event) : Closes scfg name content r (c.step scfg ev) := by
  rcases h.point with ⟨hp, hn⟩ | hp
  · have hlast : ∀ raw ∈ c.socket.lastRawPacket, refusal r raw := fun raw hraw ↦
      (h.last raw hraw).resolve_right fun hended ↦ by
        rw [hp] at hended
        cases hended.1
    simp only [ClientConnection.step, ClientConnection.onEvent, hp, ClientConnection.listen]
    split
    · exact ⟨⟨h.file, h.opened, h.named, h.sized⟩, .inl ⟨rfl, hn⟩,
        fun raw hraw ↦ .inl (hlast raw hraw), h.reports⟩
    · simp only [ClientConnection.onSuccess, ClientConnection.onFinOrAck, ClientConnection.sendAck]
      generalize he : ({ c with outbox := [], point := .initiateCloseConnection } :
        ClientConnection).stepSequence.stepAck = e
      have hseq : e.sequenceNumber = ⟨r.next.next.number, .stopAndWait⟩ := by
        rw [← he]
        show c.sequenceNumber.step = _
        rw [hn, SequenceNumber.step_mk_saw, r.next.stepSaw_number]
      obtain ⟨raw, hraw, hsend⟩ := ClientConnection.send_saw (c := e) hproto
        (by rw [hseq]; exact r.next.next.number_lt) true false nil_fits
      rw [hseq] at hraw
      rw [hsend]
      subst he
      refine ⟨⟨h.file, h.opened, h.named, h.sized⟩, .inr rfl, ?_, h.reports⟩
      rintro _ ⟨⟩
      exact .inr ⟨rfl, hraw⟩
    · exact ⟨⟨h.file, h.opened, h.named, h.sized⟩, .inr rfl,
        fun raw hraw ↦ .inl (hlast raw hraw), h.reports⟩
  · rw [ClientConnection.step_ended hp]
    exact ⟨⟨h.file, h.opened, h.named, h.sized⟩, .inr hp, h.last, h.reports⟩

theorem Dies.step (h : Dies scfg name content r c) (ev : Event) :
    Dies scfg name content r (c.step scfg ev) ∧ (c.step scfg ev).outbox = [] := by
  rw [ClientConnection.step_ended h.point]
  exact ⟨⟨⟨h.file, h.opened, h.named, h.sized⟩, h.round, h.point, h.reports⟩, rfl⟩

end Rdt.Saw.Upload
