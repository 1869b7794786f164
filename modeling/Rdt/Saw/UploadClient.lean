import Rdt.Saw.Upload

/-! # The client of an upload, round by round -/

namespace Rdt.Saw.Upload

open BigEndian

variable {ccfg : Client.Config} {peer A : Address} {name src : String} {content : Bytes} {r : Round}
  {c : Client} {m : Bytes} {now : Time} {ev : Event}

/-! ## Waiting -/

theorem Asks.unwindowed (h : Asks peer name content r c) : c.Unwindowed := by
  unfold Client.Unwindowed
  rw [h.point]
  cases r with
  | start => exact absurd rfl h.started
  | operation | filename | filesize => trivial
  | chunk i =>
      rcases chunk_cases content i with hi | hi | hi
      · rw [clientPoint_of_lt peer hi]
        trivial
      · rw [clientPoint_of_last peer hi]
        trivial
      · rw [clientPoint_of_le peer hi]
        trivial

/-- The retries and a retransmission leave the client in its round. -/
theorem Asks.stirred (h : Asks peer name content r c) (l : ReListen) (b : Bool) :
    Asks peer name content r (c.stirred l b) ∧
      Single (request name content r) ((c.stirred l b).outbox.to peer) := by
  refine ⟨⟨h.started, h.point, h.number, h.ack, h.source, h.server, h.repeats, h.reports⟩, ?_⟩
  exact single_retransmission h.repeats b

theorem Asks.idle (h : Asks peer name content r c) (hev : ev.Quiet)
    (hg : (c.listened ccfg ev).gaveUp = false) :
    Asks peer name content r (c.step ccfg ev) ∧
      Single (request name content r) ((c.step ccfg ev).outbox.to peer) := by
  obtain ⟨l, b, hstep⟩ := Client.step_quiet h.unwindowed hev hg
  rw [hstep]
  exact h.stirred l b

/-- An answer of the round before is turned down. -/
theorem Asks.stale (h : Asks peer name content r.next c) (hm : answer content r m)
    (hg : (c.listened ccfg (.datagram m (some A) now)).gaveUp = false) :
    Asks peer name content r.next (c.step ccfg (.datagram m (some A) now)) ∧
      Single (request name content r.next)
        ((c.step ccfg (.datagram m (some A) now)).outbox.to peer) := by
  have hne : c.sequenceNumber.value ≠ r.number := by
    rw [h.number]
    exact r.number_next_ne
  have ack : Carries m r.number true false [] → c.Declines r.number true false := by
    intro _
    unfold Client.Declines
    rw [h.point]
    cases r with
    | start | operation | filename => exact ⟨rfl, rfl, hne⟩
    | filesize | chunk =>
        rw [Round.next]
        rcases chunk_cases content _ with hi | hi | hi
        · rw [clientPoint_of_lt peer hi]
          exact ⟨rfl, rfl, hne⟩
        · rw [clientPoint_of_last peer hi]
          exact hne
        · rw [clientPoint_of_le peer hi]
          trivial
  have declined : ∃ isAck isFin data, Carries m r.number isAck isFin data ∧
      c.Declines r.number isAck isFin := by
    cases r with
    | start | operation | filename | filesize => exact ⟨true, false, [], hm, ack hm⟩
    | chunk i =>
        rcases chunk_cases content i with hi | hi | hi
        · have hm := (answer_of_lt hi).mp hm
          exact ⟨true, false, [], hm, ack hm⟩
        · have ended : ∀ isAck isFin, c.Declines (i % 2) isAck isFin := by
            intro isAck isFin
            unfold Client.Declines
            rw [h.point, Round.next, clientPoint_of_le peer (by omega)]
            trivial
          rcases (answer_of_last hi).mp hm with hm | hm
          · exact ⟨true, false, [], hm, ended _ _⟩
          · exact ⟨false, true, [], hm, ended _ _⟩
        · exact absurd hm (not_answer_of_le hi)
  obtain ⟨isAck, isFin, data, hcarries, hdecl⟩ := declined
  obtain ⟨l, b, hstep⟩ := Client.step_declined h.ack hcarries hdecl hg
  rw [hstep]
  exact h.stirred l b

/-! ## The answer -/

/-- An event in a receive of `perform_upload`, whose exceptions `perform_upload` handles. -/
theorem Asks.step_eq (h : Asks peer name content r c) (cfg : Client.Config) (ev : Event) :
    ∃ d : Client, Asks peer name content r d ∧ d.outbox = [] ∧
      c.step cfg ev = Client.handle cfg ev.now (d.onEvent cfg ev) := by
  have points : c.point ≠ .handshake ∧ c.point ≠ .handleConnectionFinalization .exceptClause := by
    have hu := h.unwindowed
    rw [h.point]
    cases r with
    | start => exact absurd rfl h.started
    | operation | filename | filesize => simp [clientPoint]
    | chunk i =>
        rcases chunk_cases content i with hi | hi | hi
        · simp [clientPoint_of_lt peer hi]
        · simp [clientPoint_of_last peer hi]
        · simp [clientPoint_of_le peer hi]
  exact ⟨{ c with outbox := [] }, ⟨h.started, h.point, h.number, h.ack, h.source, h.server, h.repeats,
    h.reports⟩, rfl, Client.step_eq_handle points.1 points.2⟩

/-- A client that sent the packet of a round and waits for the answer. -/
theorem asks_handed (hr : r ≠ .start) {e : Client} {raw : Bytes} (hraw : request name content r raw)
    (hn : e.sequenceNumber = ⟨r.number, .stopAndWait⟩) (hack : e.ackNumber = none)
    (hsource : e.file.content = content) (hserver : e.serverAddress = peer) (hout : e.outbox = [])
    (hrep : e.reports ≠ [] → ∃ i, r = .chunk i ∧ total content ≤ i) {d : Client}
    (hd : d = { e.handed raw with point := clientPoint peer content r, listening := d.listening }) :
    Asks peer name content r d ∧ Sends (request name content r) (d.outbox.to peer) := by
  have only : Sends (request name content r) (Outbox.to [(raw, e.serverAddress)] peer) := by
    rw [hserver, Outbox.to_cons_self]
    exact ⟨raw, hraw, rfl⟩
  rw [hd]
  refine ⟨⟨hr, rfl, hn, hack, hsource, fun _ ↦ hserver, only.single.all, hrep⟩, ?_⟩
  simpa only [Client.handed, hout, List.nil_append] using only

theorem Asks.reports_nil (h : Asks peer name content r c)
    (hr : ∀ i, r = .chunk i → i < total content) : c.reports = [] := by
  by_contra hne
  obtain ⟨i, hi, hle⟩ := h.reports hne
  exact absurd (hr i hi) (Nat.not_lt.mpr hle)

section Answered

variable (hproto : ccfg.protocolVersion = .stopAndWait) (hport : peer.port ≠ 0)
include hproto hport

/-- The confirmation of the operation: the name is sent, unless it is too long for a packet. -/
theorem Asks.operation_confirmed (htask : ccfg.task = .upload src name)
    (h : Asks peer name content .operation c)
    (hm : Carries m 1 true false []) :
    (Asks peer name content .filename (c.step ccfg (.datagram m (some A) now)) ∧
        Sends (request name content .filename)
          ((c.step ccfg (.datagram m (some A) now)).outbox.to peer)) ∨
      2 ^ 16 ≤ (encodeUtf8 name).length ∧
        Fails .operation (c.step ccfg (.datagram m (some A) now)) ∧
          (c.step ccfg (.datagram m (some A) now)).outbox.to peer = [] := by
  obtain ⟨d, hd, hout, hstep⟩ := h.step_eq ccfg (.datagram m (some A) now)
  have hreports : d.reports = [] := hd.reports_nil fun _ hi ↦ (by cases hi)
  obtain ⟨packet, -, -, -, hc⟩ := check_confirmation (A := A) (s := d.sequenceNumber) hm
  have hok : (ClientProtocol.validateConfirmation d.sequenceNumber none (m.take commsBufferSize)
      (some A)).map Prod.fst = .ok packet := by simpa [hd.number, Round.number] using hc
  have hev : d.onEvent ccfg (.datagram m (some A) now) =
      Client.onOperationConfirmation ccfg now peer d (.ok packet) := by
    unfold Client.onEvent
    rw [hd.point, hd.ack]
    exact Client.listen_returns hok
  rw [hstep, hev]
  have hnumber : SequenceNumber.step ⟨1, .stopAndWait⟩ = ⟨0, .stopAndWait⟩ := rfl
  simp only [Client.onOperationConfirmation, Client.informName, htask, Client.informFilename]
  generalize he : ({ d with serverAddress := peer } : Client).stepSequence.stepAck = e
  have hseq : e.sequenceNumber = ⟨0, .stopAndWait⟩ := by
    rw [← he]
    simp only [Client.stepSequence, Client.stepAck, hd.number, Round.number, hnumber]
  rcases Client.send_saw_cases hproto (c := e) (by rw [hseq]; decide) (he ▸ hport) false false
    ccfg.myAddress.port (encodeUtf8 name) with ⟨-, raw, hraw, hsend⟩ | ⟨hlong, hsend⟩
  · left
    rw [hsend]
    rw [hseq] at hraw
    subst he
    refine asks_handed (r := .filename) (by decide) hraw hseq ?_ hd.source rfl hout ?_ rfl
    · simp only [Client.stepAck, Client.stepSequence, hd.ack]
      rfl
    · exact fun hne ↦ absurd hreports hne
  · right
    rw [hsend]
    subst he
    obtain ⟨hended, hsent⟩ := Client.handle_error_ends
      (e := ExnClass.structError.exn) (by rw [Client.closesConnection, htask]; rfl) now
    exact ⟨hlong, ⟨.inl rfl, hended.point, hended.reports.trans hreports⟩,
      congrArg (Outbox.to · peer) (hsent.trans hout)⟩

/-- The confirmation of the name: the size is sent, unless it does not fit into four bytes. -/
theorem Asks.filename_confirmed (htask : ccfg.task = .upload src name)
    (h : Asks peer name content .filename c) (hm : Carries m 0 true false []) :
    (Asks peer name content .filesize (c.step ccfg (.datagram m (some A) now)) ∧
        Sends (request name content .filesize)
          ((c.step ccfg (.datagram m (some A) now)).outbox.to peer)) ∨
      Fails .filename (c.step ccfg (.datagram m (some A) now)) ∧
        (c.step ccfg (.datagram m (some A) now)).outbox.to peer = [] := by
  obtain ⟨d, hd, hout, hstep⟩ := h.step_eq ccfg (.datagram m (some A) now)
  obtain ⟨packet, -, -, -, hc⟩ := check_confirmation (A := A) (s := d.sequenceNumber) hm
  have hok : (ClientProtocol.validateConfirmation d.sequenceNumber none (m.take commsBufferSize)
      (some A)).map Prod.fst = .ok packet := by simpa [hd.number, Round.number] using hc
  have hev : d.onEvent ccfg (.datagram m (some A) now) = Client.informFilesize ccfg now d := by
    unfold Client.onEvent
    rw [hd.point, hd.ack]
    exact Client.listen_returns hok
  have hreports : d.reports = [] := hd.reports_nil fun _ hi ↦ (by cases hi)
  have hsource : d.stepSequence.stepAck.file.content = content := hd.source
  rw [hstep, hev]
  unfold Client.informFilesize
  dsimp only
  rw [hsource]
  by_cases hsize : content.length < 2 ^ 32
  · left
    have hseq : d.stepSequence.stepAck.sequenceNumber = ⟨1, .stopAndWait⟩ := by
      show d.sequenceNumber.step = _
      rw [hd.number]
      rfl
    have hserver : d.stepSequence.stepAck.serverAddress = peer := hd.server (by decide)
    obtain ⟨raw, hraw, hsend⟩ := Client.send_saw hproto (c := d.stepSequence.stepAck)
      (by rw [hseq]; decide) (hserver ▸ hport) false false ccfg.myAddress.port
      (show (toBytes 4 content.length).length < 2 ^ 16 by simp)
    rw [hseq] at hraw
    rw [if_pos (lt_of_lt_of_eq hsize (by norm_num)), hsend]
    refine asks_handed (r := .filesize) (by decide) ⟨hsize, hraw⟩ hseq ?_ hd.source hserver hout ?_ rfl
    · show d.ackNumber.map _ = none
      rw [hd.ack]
      rfl
    · exact fun hne ↦ absurd hreports hne
  · right
    rw [if_neg fun hlt ↦ hsize (lt_of_lt_of_eq hlt (by norm_num))]
    obtain ⟨hended, hsent⟩ := Client.handle_error_ends (c := d.stepSequence.stepAck)
      (e := ExnClass.overflowError.exn) (by rw [Client.closesConnection, htask]; rfl) now
    exact ⟨⟨.inr rfl, hended.point, hended.reports.trans hreports⟩,
      congrArg (Outbox.to · peer) (hsent.trans hout)⟩

/-- The next chunk is read and sent. -/
theorem asks_sendFileSaw {i : Nat} (hi : i < total content) (now : Time) {e : Client}
    (hn : e.sequenceNumber.step = ⟨i % 2, .stopAndWait⟩) (hack : e.ackNumber = none)
    (hsource : e.file.content = content) (hserver : e.serverAddress = peer) (hout : e.outbox = [])
    (hrep : e.reports = []) {d : Client} (hd : d = Client.handle ccfg now (Client.sendFileSaw ccfg now
      (total content) ((chunks content).drop i) (i + 1) e)) :
    Asks peer name content (.chunk i) d ∧
      Sends (request name content (.chunk i)) (d.outbox.to peer) := by
  have hstep : e.stepSequence.sequenceNumber = ⟨i % 2, .stopAndWait⟩ := hn
  obtain ⟨raw, hraw, hloop⟩ := Client.sendFileSaw_eq hproto hi now (c := e)
    (by rw [hstep]; exact Nat.mod_lt i (by decide)) (hserver ▸ hport)
  rw [hstep] at hraw
  have hraw : request name content (.chunk i) raw := (request_of_lt hi).mpr hraw
  have hnorep : e.reports ≠ [] → ∃ j, Round.chunk i = .chunk j ∧ total content ≤ j :=
    fun hne ↦ absurd hrep hne
  rw [hloop] at hd
  by_cases hlast : i + 1 = total content
  · rw [if_pos hlast] at hd
    refine asks_handed (r := .chunk i) (e := { e.stepSequence with file := FileHandler.close e.file })
      (by simp) hraw hn hack hsource hserver hout hnorep ?_
    rw [hd, clientPoint_of_last peer hlast]
    rfl
  · rw [if_neg hlast] at hd
    refine asks_handed (r := .chunk i) (e := e.stepSequence) (by simp) hraw hn hack hsource hserver
      hout hnorep ?_
    rw [hd, clientPoint_of_lt peer (by omega)]
    rfl

/-- The confirmation of the size: the first chunk is sent. -/
theorem Asks.filesize_confirmed (hcontent : content ≠ [])
    (h : Asks peer name content .filesize c) (hm : Carries m 1 true false []) :
    Asks peer name content (.chunk 0) (c.step ccfg (.datagram m (some A) now)) ∧
      Sends (request name content (.chunk 0))
        ((c.step ccfg (.datagram m (some A) now)).outbox.to peer) := by
  obtain ⟨d, hd, hout, hstep⟩ := h.step_eq ccfg (.datagram m (some A) now)
  obtain ⟨packet, -, -, -, hc⟩ := check_confirmation (A := A) (s := d.sequenceNumber) hm
  have hok : (ClientProtocol.validateConfirmation d.sequenceNumber none (m.take commsBufferSize)
      (some A)).map Prod.fst = .ok packet := by simpa [hd.number, Round.number] using hc
  have hev : d.onEvent ccfg (.datagram m (some A) now) = Client.sendFile ccfg now d := by
    unfold Client.onEvent
    rw [hd.point, hd.ack]
    exact Client.listen_returns hok
  have hfile : Client.sendFile ccfg now d = Client.sendFileSaw ccfg now (total content)
      ((chunks content).drop 0) 1 d := by
    rw [Client.sendFile, hproto, total_eq, ← hd.source]
    rfl
  refine asks_sendFileSaw hproto hport (total_pos hcontent) now (e := d) ?_ hd.ack hd.source
    (hd.server (by decide)) hout (hd.reports_nil fun _ hi ↦ (by cases hi)) ?_
  · rw [hd.number]
    rfl
  · rw [hstep, hev, hfile]
    rfl

/-- The confirmation of a chunk that is not the last one: the next one is sent. -/
theorem Asks.chunk_confirmed {i : Nat} (hi : i + 1 < total content)
    (h : Asks peer name content (.chunk i) c) (hm : Carries m (i % 2) true false []) :
    Asks peer name content (.chunk (i + 1)) (c.step ccfg (.datagram m (some A) now)) ∧
      Sends (request name content (.chunk (i + 1)))
        ((c.step ccfg (.datagram m (some A) now)).outbox.to peer) := by
  obtain ⟨d, hd, hout, hstep⟩ := h.step_eq ccfg (.datagram m (some A) now)
  obtain ⟨packet, -, -, -, hc⟩ := check_confirmation (A := A) (s := d.sequenceNumber) hm
  have hok : (ClientProtocol.validateConfirmation d.sequenceNumber none (m.take commsBufferSize)
      (some A)).map Prod.fst = .ok packet := by simpa [hd.number, Round.number] using hc
  have hev : d.onEvent ccfg (.datagram m (some A) now) = Client.sendFileSaw ccfg now (total content)
      ((chunks content).drop (i + 1)) (i + 2) d := by
    unfold Client.onEvent
    rw [hd.point, hd.ack, clientPoint_of_lt peer hi]
    exact Client.listen_returns hok
  refine asks_sendFileSaw hproto hport hi now (e := d) ?_ hd.ack hd.source (hd.server (by simp)) hout
    (hd.reports_nil ?_) ?_
  · rw [hd.number]
    exact congrArg (SequenceNumber.mk · _) (SequenceNumber.stepSaw_mod i)
  · rintro j ⟨⟩
    omega
  · rw [hstep, hev]
    rfl

/-- The confirmation of the last chunk, an ACK or a FIN: the closing ACK is sent. -/
theorem Asks.last_confirmed {i : Nat} (hi : i + 1 = total content)
    (h : Asks peer name content (.chunk i) c)
    (hm : Carries m (i % 2) true false [] ∨ Carries m (i % 2) false true []) :
    Asks peer name content (.chunk (i + 1)) (c.step ccfg (.datagram m (some A) now)) ∧
      Sends (request name content (.chunk (i + 1)))
        ((c.step ccfg (.datagram m (some A) now)).outbox.to peer) := by
  obtain ⟨d, hd, hout, hstep⟩ := h.step_eq ccfg (.datagram m (some A) now)
  have hok : (ClientProtocol.waitForFinOrAck d.sequenceNumber none).check
      (m.take commsBufferSize) (some A) = .ok () := by
    have heq : d.sequenceNumber.value = i % 2 := by rw [hd.number]; rfl
    rcases hm with hm | hm
    · exact (check_client_waitForFinOrAck hm []).trans (by simp [heq])
    · exact (check_client_waitForFinOrAck hm []).trans (by simp [heq])
  have hev : d.onEvent ccfg (.datagram m (some A) now) = Client.completeUpload ccfg d := by
    unfold Client.onEvent
    rw [hd.point, hd.ack, clientPoint_of_last peer hi]
    exact Client.listen_returns hok
  have hseq : (d.report .uploadCompleted).stepSequence.sequenceNumber =
      ⟨(i + 1) % 2, .stopAndWait⟩ := by
    show d.sequenceNumber.step = _
    rw [hd.number]
    exact congrArg (SequenceNumber.mk · _) (SequenceNumber.stepSaw_mod i)
  have hserver : (d.report .uploadCompleted).stepSequence.serverAddress = peer := hd.server (by simp)
  obtain ⟨raw, hraw, hsend⟩ := Client.send_saw hproto
    (c := (d.report .uploadCompleted).stepSequence)
    (by rw [hseq]; exact Nat.mod_lt _ (by decide)) (hserver ▸ hport) true false ccfg.myAddress.port
    nil_fits
  rw [hseq] at hraw
  rw [hstep, hev, Client.completeUpload, Client.sendAck, hsend]
  refine asks_handed (r := .chunk (i + 1)) (by simp) ((request_of_le (by omega)).mpr hraw) hseq hd.ack
    hd.source hserver hout (fun _ ↦ ⟨i + 1, rfl, by omega⟩) ?_
  rw [clientPoint_of_le peer (by omega)]
  rfl

/-- A name or a size is refused. -/
theorem Asks.refused (htask : ccfg.task = .upload src name) (h : Asks peer name content r c)
    (hm : refusal r m) : Quits r (c.step ccfg (.datagram m (some A) now)) := by
  obtain ⟨d, hd, hout, hstep⟩ := h.step_eq ccfg (.datagram m (some A) now)
  obtain ⟨hr, hm⟩ := hm
  obtain ⟨packet, -, -, -, hc⟩ := check_confirmation (A := A) (s := d.sequenceNumber) hm
  have herr : (ClientProtocol.validateConfirmation d.sequenceNumber none (m.take commsBufferSize)
      (some A)).map Prod.fst = .error ExnClass.messageIsNotAck.exn := hc
  have hev : ∃ e : ExnClass, Client.closesConnection ccfg e.exn.cls = true ∧
      d.onEvent ccfg (.datagram m (some A) now) = .error (e.exn, d) := by
    unfold Client.onEvent
    rw [hd.point, hd.ack]
    have hthrough : ExnClass.messageIsNotAck.exn.cls ∉ configureWantedExceptionsToCatch
        [.unexpectedFinMessage, .messageIsNotAck] := by decide
    rcases hr with rfl | rfl
    · refine ⟨.fileAlreadyExists, by rw [Client.closesConnection, htask]; rfl, ?_⟩
      refine (Client.listen_raises herr hthrough).trans ?_
      simp [Client.onConfirmation, Client.raise, Client.retransmit, ExnClass.exn]
    · refine ⟨.fileTooBig, by rw [Client.closesConnection, htask]; rfl, ?_⟩
      refine (Client.listen_raises herr hthrough).trans ?_
      simp [Client.onConfirmation, Client.raise, Client.retransmit, ExnClass.exn]
  obtain ⟨e, hclose, hev⟩ := hev
  have hreports : d.reports = [] := hd.reports_nil (by rintro i rfl; rcases hr with hr | hr <;> cases hr)
  have hseq : d.stepSequence.stepAck.sequenceNumber = ⟨r.next.number, .stopAndWait⟩ := by
    show d.sequenceNumber.step = _
    rw [hd.number, SequenceNumber.step_mk_saw, r.stepSaw_number]
  have hserver : d.stepSequence.stepAck.serverAddress = peer :=
    hd.server (by rcases hr with rfl | rfl <;> simp)
  obtain ⟨ack, fin, -, -, hfinal⟩ := Client.finalization_eq hproto (c := d.stepSequence.stepAck)
    (by rw [hseq]; exact r.next.number_lt) (hserver ▸ hport) now .exceptClause
  have hquit : c.step ccfg (.datagram m (some A) now) =
      ((((d.stepSequence.stepAck).handed ack).handed fin).stepSequence).block
        (.handleConnectionFinalization .exceptClause) now := by
    rw [hstep, hev, Client.handle_error_closes hclose]
    exact congrArg Client.swallow hfinal
  rw [hquit]
  refine ⟨.finalizing rfl, fun _ ↦ ⟨?_, ?_⟩, hreports⟩
  · show d.stepSequence.stepAck.sequenceNumber.step = _
    rw [hseq, SequenceNumber.step_mk_saw, r.next.stepSaw_number]
  · show d.ackNumber.map _ = none
    rw [hd.ack]
    rfl

end Answered

/-! ## Afterwards -/

theorem Quits.step (h : Quits r c) (cfg : Client.Config) (ev : Event) : Quits r (c.step cfg ev) := by
  cases h.leaving with
  | ended hp =>
      rw [Client.step_ended hp]
      exact ⟨.ended hp, fun hp' ↦ absurd (hp.symm.trans hp') (by simp), h.reports⟩
  | finalizing hp =>
      rcases Client.step_exceptClause hp cfg ev with ⟨l, b, hstep⟩ | hended
      · rw [hstep]
        exact ⟨.finalizing hp, fun _ ↦ h.number hp, h.reports⟩
      · exact ⟨.ended hended.point, fun hp' ↦ absurd (hended.point.symm.trans hp') (by simp),
          hended.reports.trans h.reports⟩

theorem Fails.step (h : Fails r c) (cfg : Client.Config) (ev : Event) :
    Fails r (c.step cfg ev) ∧ (c.step cfg ev).outbox = [] := by
  rw [Client.step_ended h.point]
  exact ⟨⟨h.round, h.point, h.reports⟩, rfl⟩

end Rdt.Saw.Upload
