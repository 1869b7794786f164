import Rdt.Saw.Download

/-! # The connection of a download, round by round -/

namespace Rdt.Saw.Download

open BigEndian Server

variable {scfg : Server.Config} {A : Address} {name sent : String} {content : Bytes} {disk : Disk}
  {r : Round} {c : ClientConnection} {m : Bytes} {now : Time} {ev : Event}

/-! ## Waiting -/

theorem Answers.unwindowed (h : Answers scfg name content disk r c) : c.Unwindowed := by
  unfold ClientConnection.Unwindowed
  rw [h.point]
  cases r with
  | start => exact absurd rfl h.started
  | operation => trivial
  | chunk i =>
      by_cases hi : i + 1 < total content
      · rw [serverPoint_of_lt hi]
        trivial
      · by_cases hlast : i + 1 = total content
        · rw [serverPoint_of_last hlast]
          trivial
        · rw [serverPoint_of_le (by omega)]
          trivial

theorem Answers.stirred (h : Answers scfg name content disk r c) (hp : c.point ≠ .ended)
    (l : ReListen) (b : Bool) : Answers scfg name content disk r (c.stirred l b) ∧
      Single (answer content r) ((c.stirred l b).outbox.to scfg.clientAddress) :=
  ⟨⟨h.started, h.point, h.number, h.repeats, h.disk, h.reads, h.reports⟩,
    single_retransmission (h.repeats hp) b⟩

theorem Answers.ended (h : Answers scfg name content disk r c) (hp : c.point = .ended) :
    Answers scfg name content disk r (c.step scfg ev) ∧
      Single (answer content r) ((c.step scfg ev).outbox.to scfg.clientAddress) := by
  rw [ClientConnection.step_ended hp]
  exact ⟨⟨h.started, h.point, h.number, h.repeats, h.disk, h.reads, h.reports⟩, .nil⟩

theorem Answers.idle (h : Answers scfg name content disk r c) (hev : ev.Quiet)
    (hg : (c.listened scfg ev).gaveUp = false) :
    Answers scfg name content disk r (c.step scfg ev) ∧
      Single (answer content r) ((c.step scfg ev).outbox.to scfg.clientAddress) := by
  by_cases hp : c.point = .ended
  · exact h.ended hp
  · obtain ⟨l, b, hstep⟩ := ClientConnection.step_quiet h.unwindowed hev hg
    rw [hstep]
    exact h.stirred hp l b

/-- A request that is answered already is turned down. -/
theorem Answers.stale (h : Answers scfg name content disk r c) (hm : request sent content r m)
    (hg : (c.listened scfg (.datagram m (some A) now)).gaveUp = false) :
    Answers scfg name content disk r (c.step scfg (.datagram m (some A) now)) ∧
      Single (answer content r)
        ((c.step scfg (.datagram m (some A) now)).outbox.to scfg.clientAddress) := by
  by_cases hp : c.point = .ended
  · exact h.ended hp
  have declined : ∃ number isAck isFin data, Carries m number isAck isFin data ∧
      c.Declines number isAck isFin data := by
    have hnum := congrArg SequenceNumber.value (h.number hp)
    unfold ClientConnection.Declines
    rw [hnum, h.point]
    cases r with
    | start => exact absurd rfl h.started
    | operation => exact ⟨_, _, _, _, hm, by decide, _, rfl⟩
    | chunk i =>
        rcases Nat.lt_trichotomy (i + 1) (total content) with hi | hi | hi
        · rw [serverPoint_of_lt hi]
          cases i with
          | zero => exact ⟨_, _, _, _, hm, .inl rfl⟩
          | succ i =>
              refine ⟨_, _, _, _, (request_of_lt (Nat.lt_of_succ_lt hi)).mp hm, .inr ?_⟩
              exact (Round.chunk i).number_next_ne
        · rw [serverPoint_of_last hi]
          cases i with
          | zero => exact ⟨_, _, _, _, hm, .inr ⟨rfl, rfl⟩⟩
          | succ i =>
              refine ⟨_, _, _, _, (request_of_lt (by omega)).mp hm, .inl ?_⟩
              exact (Round.chunk i).number_next_ne
        · exact absurd (h.point.trans (serverPoint_of_le (by omega))) hp
  obtain ⟨number, isAck, isFin, data, hcarries, hdecl⟩ := declined
  obtain ⟨l, b, hstep⟩ := ClientConnection.step_declined hcarries hdecl hg
  rw [hstep]
  exact h.stirred hp l b

/-! ## The next request -/

/-- An event in a receive of `run`. -/
theorem Answers.step_eq (h : Answers scfg name content disk r c) (ev : Event) :
    ∃ d : ClientConnection, Answers scfg name content disk r d ∧ d.outbox = [] ∧
      c.step scfg ev = ClientConnection.handle scfg ev.now (d.onEvent scfg ev) := by
  have hpoint : c.point ≠ .initiateCloseConnection := by
    rw [h.point]
    cases r with
    | start | operation => simp [serverPoint]
    | chunk i =>
        rcases Nat.lt_trichotomy (i + 1) (total content) with hi | hi | hi
        · simp [serverPoint_of_lt hi]
        · simp [serverPoint_of_last hi]
        · simp [serverPoint_of_le (show total content ≤ i by omega)]
  exact ⟨{ c with outbox := [] }, ⟨h.started, h.point, h.number, h.repeats, h.disk, h.reads,
    h.reports⟩, rfl, ClientConnection.step_eq_handle hpoint⟩

theorem Answers.reports_nil (h : Answers scfg name content disk r c)
    (hr : ∀ i, r = .chunk i → i < total content) : c.reports = [] := by
  by_contra hne
  obtain ⟨i, hi, hle⟩ := h.reports hne
  exact absurd (hr i hi) (Nat.not_lt.mpr hle)

/-- What the connection makes of the next request. -/
inductive Replies (scfg : Server.Config) (name : String) (content : Bytes) (disk : Disk) (r : Round)
    (c : ClientConnection) : Prop
  | answers (h : Answers scfg name content disk r c)
      (houts : Sends (answer content r) (c.outbox.to scfg.clientAddress))
  | refuses (h : Refuses scfg name content r c)
      (houts : ∀ o ∈ c.outbox.to scfg.clientAddress, refusal r o)
  | dies (h : Dies scfg name content r c) (houts : c.outbox.to scfg.clientAddress = [])

/-- Another exception ends the run. -/
theorem dies_of_error {e : Exn} (hr : r = .chunk 0) (he : e.cls ≠ .connectionClosingNeeded)
    (h : Reads scfg name content c)
    (hrep : c.reports = []) (hout : c.outbox = []) :
    Replies scfg name content disk r (ClientConnection.handle scfg now (.error (e, c))) := by
  obtain ⟨state, disk', heq⟩ := ClientConnection.handle_error scfg now c he
  rw [heq]
  refine .dies ⟨hr, rfl, h, hrep⟩ ?_
  rw [hout]
  rfl

section Next

variable (hproto : scfg.protocolVersion = .stopAndWait)
include hproto

/-- The next chunk is read and sent; `d` is the connection as it sends it. -/
theorem answers_transmitFile {i : Nat} (hi : i < total content) (now : Time) (isFirst : Bool)
    {d : ClientConnection} (hd : (if isFirst then c else c.stepSequence) = d)
    (hfirst : isFirst = decide (i = 0)) (hn : d.sequenceNumber = ⟨i % 2, .stopAndWait⟩)
    (hreads : Reads scfg name content d) (hrep : d.reports = []) (hout : d.outbox = []) :
    Replies scfg name content disk (.chunk i) (ClientConnection.handle scfg now
      (ClientConnection.transmitFile scfg now (total content) ((chunks content).drop i) (i + 1)
        isFirst c)) := by
  have hlt : (if isFirst then c else c.stepSequence).sequenceNumber.value < 2 := by
    rw [hd, hn]
    exact Nat.mod_lt i (by decide)
  obtain ⟨raw, hraw, hloop⟩ := ClientConnection.transmitFile_eq hproto hi isFirst now hlt
  rw [hd] at hraw hloop
  rw [hn, hfirst] at hraw
  have hraw : answer content (.chunk i) raw := (answer_of_lt hi).mpr hraw
  rw [hloop]
  refine .answers ⟨by simp, ?_, fun _ ↦ hn, fun _ o ho ↦ ?_, fun h ↦ (by cases h), hreads,
    fun hne ↦ absurd hrep hne⟩ (ClientConnection.sends_handed hout hraw)
  · by_cases hlast : i + 1 = total content
    · rw [serverPoint_of_last hlast]
      exact if_pos hlast
    · rw [serverPoint_of_lt (by omega)]
      exact if_neg hlast
  · obtain rfl : o = raw := Outbox.eq_of_mem_to ho
    exact hraw

/-- There is no such file: one FIN, and another one to begin the closing. -/
theorem refuses_of_closing (hn : c.sequenceNumber = ⟨0, .stopAndWait⟩)
    (h : Reads scfg name content c) (hrep : c.reports = []) (hout : c.outbox = []) :
    Replies scfg name content disk (.chunk 0) (ClientConnection.handle scfg now (do
      let c ← ClientConnection.sendFin scfg c
      ClientConnection.raise { c with state := .unrecoverableBadState } .connectionClosingNeeded)) := by
  obtain ⟨fin, hfin, hsend⟩ := ClientConnection.send_saw (c := c) hproto (by rw [hn]; decide)
    false true nil_fits
  rw [hn] at hfin
  generalize he : ({ ClientConnection.handed scfg c fin with
    state := .unrecoverableBadState } : ClientConnection).stepSequence.stepAck = e
  have hseq : e.sequenceNumber = ⟨1, .stopAndWait⟩ := by
    rw [← he]
    show c.sequenceNumber.step = _
    rw [hn]
    rfl
  obtain ⟨fin', hfin', hsend'⟩ := ClientConnection.send_saw (c := e) hproto (by rw [hseq]; decide)
    false true nil_fits
  rw [hseq] at hfin'
  have hclose : ClientConnection.handle scfg now (do
      let c ← ClientConnection.sendFin scfg c
      ClientConnection.raise { c with state := .unrecoverableBadState } .connectionClosingNeeded) =
      (ClientConnection.handed scfg e fin').block .initiateCloseConnection now := by
    rw [ClientConnection.sendFin, hsend]
    show ClientConnection.initiateCloseConnection scfg now
      { ClientConnection.handed scfg c fin with state := .unrecoverableBadState } = _
    rw [ClientConnection.initiateCloseConnection, he, ClientConnection.sendFin, hsend']
    rfl
  rw [hclose]
  subst he
  refine .refuses ⟨rfl, rfl, hseq, ?_, h, hrep⟩ fun o ho ↦ ?_
  · rintro _ ⟨⟩
    exact ⟨rfl, .inr hfin'⟩
  · have ho : o ∈ Outbox.to ((c.outbox ++ [(fin, scfg.clientAddress)]) ++
      [(fin', scfg.clientAddress)]) scfg.clientAddress := ho
    rw [hout] at ho
    obtain rfl | rfl : o = fin ∨ o = fin' := by simpa using ho
    · exact ⟨rfl, .inl hfin⟩
    · exact ⟨rfl, .inr hfin'⟩

/-- The name. -/
theorem Answers.name_taken (hcontent : content ≠ []) (hname : ∀ n, decodeUtf8 ((encodeUtf8 sent).take
      (fullBufferSize - sawProtocolHeaderSize)) = .ok n → n = name)
    (hread : ∀ n file, decodeUtf8 ((encodeUtf8 sent).take
      (fullBufferSize - sawProtocolHeaderSize)) = .ok n →
        scfg.fileHandler.openFileReadMode disk n false = .ok file → file.content = content)
    (h : Answers scfg name content disk .operation c)
    (hm : Carries m 0 false false (encodeUtf8 sent)) :
    Replies scfg name content disk (.chunk 0) (c.step scfg (.datagram m (some A) now)) := by
  obtain ⟨d, hd, hout, hstep⟩ := h.step_eq (.datagram m (some A) now)
  have hnum : d.sequenceNumber = ⟨0, .stopAndWait⟩ := hd.number (by rw [hd.point]; simp [serverPoint])
  have hrep : d.reports = [] := hd.reports_nil fun _ hi ↦ (by cases hi)
  have hcheck := check_receiveFilename (A := A) (s := d.sequenceNumber) scfg.protocolVersion hm
  have hev : d.onEvent scfg (.datagram m (some A) now) = ClientConnection.listen d
      (ServerProtocol.receiveFilename scfg.protocolVersion d.sequenceNumber) (.datagram m (some A) now)
      (ClientConnection.onSuccess (ClientConnection.onFilenameForDownload scfg now)) := by
    rw [ClientConnection.onEvent, hd.point]
    rfl
  rw [hstep, hev]
  cases hdec : decodeUtf8 ((encodeUtf8 sent).take (fullBufferSize - sawProtocolHeaderSize)) with
  | error e =>
      rw [hdec] at hcheck
      obtain rfl := decodeUtf8_error hdec
      rw [ClientConnection.listen_raises hcheck (show ExnClass.unicodeDecodeError ∉
        configureWantedExceptionsToCatch [] by decide)]
      refine dies_of_error (c := d.retransmit false) rfl (by decide) hd.reads hrep ?_
      simp [ClientConnection.retransmit, hout]
  | ok n =>
      obtain rfl := hname n hdec
      have hok : (ServerProtocol.receiveFilename scfg.protocolVersion d.sequenceNumber).check
          (m.take fullBufferSize) (some A) = .ok (⟨0, .stopAndWait⟩, n) := by
        rw [hcheck, hdec, hnum, hproto]
        rfl
      rw [ClientConnection.listen_returns hok, ClientConnection.onSuccess,
        ClientConnection.onFilenameForDownload]
      generalize he : ({ d with sequenceNumber := ⟨0, .stopAndWait⟩ } :
        ClientConnection).stepAck = e
      have hseq : e.sequenceNumber = ⟨0, .stopAndWait⟩ := by
        rw [← he]
        rfl
      have hdisk : e.disk = disk := by
        rw [← he]
        exact hd.disk rfl
      have hsame : e.reports = [] ∧ e.outbox = [] ∧ Reads scfg n content e := by
        rw [← he]
        exact ⟨hrep, hout, hd.reads⟩
      dsimp only
      rw [hdisk]
      cases hopen : scfg.fileHandler.openFileReadMode disk n false with
      | ok file =>
          have hcont := hread n file hdec hopen
          dsimp only
          rw [hproto, ← total_eq, hcont]
          refine answers_transmitFile hproto (i := 0) (total_pos hcontent) now true rfl rfl hseq ?_
            hsame.1 hsame.2.1
          rintro _ ⟨⟩
          exact ⟨(FileHandler.openFileReadMode_eq_ok hopen).1, hcont⟩
      | error err =>
          rcases FileHandler.openFileReadMode_error hopen with rfl | rfl
          · exact dies_of_error rfl (by decide) hsame.2.2 hsame.1 hsame.2.1
          · exact refuses_of_closing hproto hseq hsame.2.2 hsame.1 hsame.2.1

/-- The ACK of a chunk that is not the last one. -/
theorem Answers.ack_taken {i : Nat} (hi : i + 1 < total content)
    (h : Answers scfg name content disk (.chunk i) c) (hm : Carries m (i % 2) true false []) :
    Replies scfg name content disk (.chunk (i + 1)) (c.step scfg (.datagram m (some A) now)) := by
  obtain ⟨d, hd, hout, hstep⟩ := h.step_eq (.datagram m (some A) now)
  have hpoint := hd.point.trans (serverPoint_of_lt hi)
  have hnum : d.sequenceNumber = ⟨i % 2, .stopAndWait⟩ := hd.number (by rw [hpoint]; simp)
  have hok : (ServerProtocol.waitForAck d.sequenceNumber).check (m.take commsBufferSize) (some A) =
      .ok () := by
    refine (check_waitForAck hm []).trans ?_
    rw [hnum]
    simp
  have hev : d.onEvent scfg (.datagram m (some A) now) = ClientConnection.transmitFile scfg now
      (total content) ((chunks content).drop (i + 1)) (i + 2) false d := by
    rw [ClientConnection.onEvent, hpoint]
    exact ClientConnection.listen_returns hok
  have hrep : d.reports = [] := hd.reports_nil fun _ hj ↦ Round.chunk.inj hj ▸ Nat.lt_of_succ_lt hi
  rw [hstep, hev]
  refine answers_transmitFile hproto hi now false rfl rfl ?_ hd.reads hrep hout
  show d.sequenceNumber.step = _
  rw [hnum, SequenceNumber.step_mk_saw, SequenceNumber.stepSaw_mod]

/-- The ACK or the FIN that confirms the last chunk. -/
theorem Answers.last_taken {i : Nat} (hi : i + 1 = total content)
    (h : Answers scfg name content disk (.chunk i) c)
    (hm : Carries m (i % 2) true false [] ∨ Carries m (i % 2) false true []) :
    Replies scfg name content disk (.chunk (i + 1)) (c.step scfg (.datagram m (some A) now)) := by
  obtain ⟨d, hd, hout, hstep⟩ := h.step_eq (.datagram m (some A) now)
  have hpoint := hd.point.trans (serverPoint_of_last hi)
  have hnum : d.sequenceNumber = ⟨i % 2, .stopAndWait⟩ := hd.number (by rw [hpoint]; simp)
  have hok : (ServerProtocol.waitForFinOrAck d.sequenceNumber).check (m.take commsBufferSize)
      (some A) = .ok () := by
    have heq : d.sequenceNumber.value = i % 2 := by rw [hnum]
    rcases hm with hm | hm
    · exact (check_waitForFinOrAck hm).trans (by simp [heq])
    · exact (check_waitForFinOrAck hm).trans (by simp [heq])
  have hev : d.onEvent scfg (.datagram m (some A) now) = ClientConnection.completeDownload scfg d := by
    rw [ClientConnection.onEvent, hpoint]
    exact ClientConnection.listen_returns hok
  have hseq : (d.report .fileTransferComplete).stepSequence.sequenceNumber =
      ⟨(i + 1) % 2, .stopAndWait⟩ := by
    show d.sequenceNumber.step = _
    rw [hnum, SequenceNumber.step_mk_saw, SequenceNumber.stepSaw_mod]
  obtain ⟨raw, hraw, hsend⟩ := ClientConnection.send_saw hproto
    (c := (d.report .fileTransferComplete).stepSequence)
    (by rw [hseq]; exact Nat.mod_lt _ (by decide)) true false nil_fits
  rw [hseq] at hraw
  rw [hstep, hev, ClientConnection.completeDownload, ClientConnection.sendAck, hsend]
  refine .answers ⟨by simp, (serverPoint_of_le (le_of_eq hi.symm)).symm, fun h ↦ absurd rfl h,
    fun h ↦ absurd rfl h, fun h ↦ (by cases h), hd.reads, fun _ ↦ ⟨i + 1, rfl, le_of_eq hi.symm⟩⟩ ?_
  exact ClientConnection.sends_handed (c := (d.report .fileTransferComplete).stepSequence) hout
    ((answer_of_last hi).mpr hraw)

/-- What a connection that has answered a round makes of the request of the next one. -/
theorem Answers.next (hcontent : content ≠ []) (hname : ∀ n, decodeUtf8 ((encodeUtf8 sent).take
      (fullBufferSize - sawProtocolHeaderSize)) = .ok n → n = name)
    (hread : ∀ n file, decodeUtf8 ((encodeUtf8 sent).take
      (fullBufferSize - sawProtocolHeaderSize)) = .ok n →
        scfg.fileHandler.openFileReadMode disk n false = .ok file → file.content = content)
    (h : Answers scfg name content disk r c) (hm : request sent content r.next m) :
    Replies scfg name content disk r.next (c.step scfg (.datagram m (some A) now)) := by
  cases r with
  | start => exact absurd rfl h.started
  | operation => exact h.name_taken hproto hcontent hname hread hm
  | chunk i =>
      rcases Nat.lt_trichotomy (i + 1) (total content) with hi | hi | hi
      · exact h.ack_taken hproto hi ((request_of_lt hi).mp hm)
      · exact h.last_taken hproto hi ((request_of_last hi).mp hm)
      · exact absurd hm (not_request_of_lt hi)

end Next

/-! ## Afterwards -/

theorem Refuses.stirred (h : Refuses scfg name content r c) (l : ReListen) (b : Bool) :
    Refuses scfg name content r (c.stirred l b) ∧
      ∀ o ∈ (c.stirred l b).outbox.to scfg.clientAddress, refusal r o :=
  ⟨⟨h.round, h.point, h.number, h.repeats, h.reads, h.reports⟩,
    fun o ho ↦ h.repeats o (SocketSaw.mem_retransmission ho)⟩

theorem Refuses.idle (h : Refuses scfg name content r c) (hev : ev.Quiet)
    (hg : (c.listened scfg ev).gaveUp = false) : Refuses scfg name content r (c.step scfg ev) ∧
      ∀ o ∈ (c.step scfg ev).outbox.to scfg.clientAddress, refusal r o := by
  obtain ⟨l, b, hstep⟩ := ClientConnection.step_quiet
    (by rw [ClientConnection.Unwindowed, h.point]; trivial) hev hg
  rw [hstep]
  exact h.stirred l b

theorem Refuses.stale (h : Refuses scfg name content r c) (hm : request sent content r m)
    (hg : (c.listened scfg (.datagram m (some A) now)).gaveUp = false) :
    Refuses scfg name content r (c.step scfg (.datagram m (some A) now)) ∧
      ∀ o ∈ (c.step scfg (.datagram m (some A) now)).outbox.to scfg.clientAddress, refusal r o := by
  have hcarries : Carries m 0 false false (encodeUtf8 sent) := by
    have hr := h.round
    subst hr
    exact hm
  have hdecl : c.Declines 0 false false (encodeUtf8 sent) := by
    rw [ClientConnection.Declines, h.point, h.number]
    exact Nat.one_ne_zero
  obtain ⟨l, b, hstep⟩ := ClientConnection.step_declined hcarries hdecl hg
  rw [hstep]
  exact h.stirred l b

theorem Refuses.closes (h : Refuses scfg name content r c) : Closes scfg name content r c :=
  ⟨.inl ⟨h.point, h.number⟩, fun raw hraw ↦ .inl (h.repeats raw hraw), h.reads, h.reports⟩

theorem Closes.step (hproto : scfg.protocolVersion = .stopAndWait)
    (h : Closes scfg name content r c) (ev : Event) : Closes scfg name content r (c.step scfg ev) := by
  rcases h.point with ⟨hp, hn⟩ | hp
  · have hlast : ∀ raw ∈ c.socket.lastRawPacket, refusal r raw := fun raw hraw ↦
      (h.last raw hraw).resolve_right fun hended ↦ by
        rw [hp] at hended
        cases hended.1
    simp only [ClientConnection.step, ClientConnection.onEvent, hp, ClientConnection.listen]
    split
    · exact ⟨.inl ⟨rfl, hn⟩, fun raw hraw ↦ .inl (hlast raw hraw), h.reads, h.reports⟩
    · simp only [ClientConnection.onSuccess, ClientConnection.onFinOrAck, ClientConnection.sendAck]
      generalize he : ({ c with outbox := [], point := .initiateCloseConnection } :
        ClientConnection).stepSequence.stepAck = e
      have hseq : e.sequenceNumber = ⟨0, .stopAndWait⟩ := by
        rw [← he]
        show c.sequenceNumber.step = _
        rw [hn]
        rfl
      obtain ⟨raw, hraw, hsend⟩ := ClientConnection.send_saw (c := e) hproto
        (by rw [hseq]; decide) true false nil_fits
      rw [hseq] at hraw
      rw [hsend]
      subst he
      refine ⟨.inr rfl, ?_, h.reads, h.reports⟩
      rintro _ ⟨⟩
      exact .inr ⟨rfl, hraw⟩
    · exact ⟨.inr rfl, fun raw hraw ↦ .inl (hlast raw hraw), h.reads, h.reports⟩
  · rw [ClientConnection.step_ended hp]
    exact ⟨.inr hp, h.last, h.reads, h.reports⟩

theorem Dies.step (h : Dies scfg name content r c) (ev : Event) :
    Dies scfg name content r (c.step scfg ev) ∧ (c.step scfg ev).outbox = [] := by
  rw [ClientConnection.step_ended h.point]
  exact ⟨⟨h.round, h.point, h.reads, h.reports⟩, rfl⟩

end Rdt.Saw.Download
