import Rdt.Saw.Download

/-! # The client of a download, round by round -/

namespace Rdt.Saw.Download

open BigEndian

variable {ccfg : Client.Config} {peer A : Address} {name destination : String} {content : Bytes}
  {r : Round} {c : Client} {m : Bytes} {now : Time} {ev : Event}

/-! ## Waiting -/

theorem Asks.unwindowed (h : Asks peer name content r c) : c.Unwindowed := by
  unfold Client.Unwindowed
  rw [h.point]
  cases r with
  | start => exact absurd rfl h.started
  | operation => trivial
  | chunk i =>
      cases i with
      | zero => trivial
      | succ i =>
          rcases round_cases content (i + 1) with hi | hi | hi
          · rw [clientPoint_of_lt peer hi]
            trivial
          · rw [clientPoint_of_last peer hi]
            trivial
          · rw [clientPoint_of_gt peer hi]
            trivial

/-- The retries and a retransmission leave the client in its round. -/
theorem Asks.stirred (h : Asks peer name content r c) (hp : c.point ≠ .ended) (l : ReListen)
    (b : Bool) : Asks peer name content r (c.stirred l b) ∧
      Single (request name content r) ((c.stirred l b).outbox.to peer) :=
  ⟨⟨h.started, h.point, h.number, h.ack, h.pieces, h.server, h.repeats, h.reports⟩,
    single_retransmission (h.repeats hp) b⟩

theorem Asks.ended (h : Asks peer name content r c) (hp : c.point = .ended) :
    Asks peer name content r (c.step ccfg ev) ∧
      Single (request name content r) ((c.step ccfg ev).outbox.to peer) := by
  rw [Client.step_ended hp]
  exact ⟨⟨h.started, h.point, h.number, h.ack, h.pieces, h.server, h.repeats, h.reports⟩, .nil⟩

theorem Asks.idle (h : Asks peer name content r c) (hev : ev.Quiet)
    (hg : (c.listened ccfg ev).gaveUp = false) :
    Asks peer name content r (c.step ccfg ev) ∧
      Single (request name content r) ((c.step ccfg ev).outbox.to peer) := by
  by_cases hp : c.point = .ended
  · exact h.ended hp
  · obtain ⟨l, b, hstep⟩ := Client.step_quiet h.unwindowed hev hg
    rw [hstep]
    exact h.stirred hp l b

theorem answer_number (hm : answer content r m) :
    ∃ isAck isFin data, Carries m r.number isAck isFin data := by
  cases r with
  | start | operation => exact ⟨_, _, _, hm⟩
  | chunk i =>
      rcases round_cases content i with hi | hi | hi
      · exact ⟨_, _, _, (answer_of_lt hi).mp hm⟩
      · exact ⟨_, _, _, (answer_of_last hi).mp hm⟩
      · exact absurd hm (not_answer_of_lt hi)

/-- An answer of the round before is turned down. -/
theorem Asks.stale (h : Asks peer name content r.next c) (hm : answer content r m)
    (hg : (c.listened ccfg (.datagram m (some A) now)).gaveUp = false) :
    Asks peer name content r.next (c.step ccfg (.datagram m (some A) now)) ∧
      Single (request name content r.next)
        ((c.step ccfg (.datagram m (some A) now)).outbox.to peer) := by
  by_cases hp : c.point = .ended
  · exact h.ended hp
  have hne : c.sequenceNumber.value ≠ r.number := by
    rw [h.number hp]
    exact r.number_next_ne
  have declined : ∃ isAck isFin data, Carries m r.number isAck isFin data ∧
      c.Declines r.number isAck isFin := by
    obtain ⟨isAck, isFin, data, hcarries⟩ := answer_number hm
    unfold Client.Declines
    rw [h.point]
    cases r with
    | start | operation => exact ⟨true, false, [], hm, rfl, rfl, hne⟩
    | chunk i =>
        rcases round_cases content (i + 1) with hi | hi | hi
        · rw [Round.next, clientPoint_of_lt peer hi]
          exact ⟨isAck, isFin, data, hcarries, hne⟩
        · rw [Round.next, clientPoint_of_last peer hi]
          exact ⟨isAck, isFin, data, hcarries, hne⟩
        · exact absurd (h.point.trans (clientPoint_of_gt peer hi)) hp
  obtain ⟨isAck, isFin, data, hcarries, hdecl⟩ := declined
  obtain ⟨l, b, hstep⟩ := Client.step_declined h.ack hcarries hdecl hg
  rw [hstep]
  exact h.stirred hp l b

/-! ## The answer -/

/-- An event in a receive of `perform_download`, whose exceptions `perform_download` handles. -/
theorem Asks.step_eq (h : Asks peer name content r c) (cfg : Client.Config) (ev : Event) :
    ∃ d : Client, Asks peer name content r d ∧ d.outbox = [] ∧
      c.step cfg ev = Client.handle cfg ev.now (d.onEvent cfg ev) := by
  have points : c.point ≠ .handshake ∧ c.point ≠ .handleConnectionFinalization .exceptClause := by
    rw [h.point]
    cases r with
    | start => exact absurd rfl h.started
    | operation => simp [clientPoint]
    | chunk i =>
        cases i with
        | zero => simp [clientPoint]
        | succ i =>
            rcases round_cases content (i + 1) with hi | hi | hi
            · simp [clientPoint_of_lt peer hi]
            · simp [clientPoint_of_last peer hi]
            · simp [clientPoint_of_gt peer hi]
  exact ⟨{ c with outbox := [] }, ⟨h.started, h.point, h.number, h.ack, h.pieces, h.server, h.repeats,
    h.reports⟩, rfl, Client.step_eq_handle points.1 points.2⟩

/-- What the client asks by: the last chunk is confirmed by an ACK and a FIN. -/
inductive Requested (name : String) (content : Bytes) (r : Round) (outs : List Bytes) : Prop
  | sends (h : Sends (request name content r) outs)
  | last {i : Nat} (hr : r = .chunk (i + 1)) (hi : i + 1 = total content) {ack fin : Bytes}
      (hack : Carries ack (i % 2) true false []) (hfin : Carries fin (i % 2) false true [])
      (houts : outs = [ack, fin])
  | closed {i : Nat} (hr : r = .chunk (i + 1)) (hi : total content < i + 1) (houts : outs = [])

theorem Requested.all {outs : List Bytes} (h : Requested name content r outs) :
    ∀ o ∈ outs, request name content r o := by
  cases h with
  | sends h => exact h.single.all
  | last hr hi hack hfin houts =>
      rw [hr, houts]
      simpa using ⟨(request_of_last hi).mpr (.inl hack), (request_of_last hi).mpr (.inr hfin)⟩
  | closed _ _ houts => exact houts ▸ Single.nil.all

theorem Asks.reports_nil (h : Asks peer name content r c) (hr : r.written < total content) :
    c.reports = [] := by
  by_contra hne
  exact absurd hr (Nat.not_lt.mpr (h.reports hne))

/-- The closing ACK. -/
theorem Asks.final_taken {i : Nat} (hi : i + 1 = total content)
    (h : Asks peer name content (.chunk (i + 1)) c) (hm : answer content (.chunk (i + 1)) m) :
    Asks peer name content (.chunk (i + 2)) (c.step ccfg (.datagram m (some A) now)) ∧
      (c.step ccfg (.datagram m (some A) now)).outbox.to peer = [] := by
  obtain ⟨d, hd, hout, hstep⟩ := h.step_eq ccfg (.datagram m (some A) now)
  have hpoint : d.point = .handleConnectionFinalization .performDownload :=
    hd.point.trans (clientPoint_of_last peer hi)
  have hnum : d.sequenceNumber = ⟨(i + 1) % 2, .stopAndWait⟩ := hd.number (by rw [hpoint]; simp)
  have hok : ((ClientProtocol.waitForFinOrAck d.sequenceNumber none).letThrough
      [.connectionLost]).check (m.take commsBufferSize) (some A) = .ok () := by
    rw [check_client_waitForFinOrAck ((answer_of_last hi).mp hm), hnum]
    simp
  have hev : d.onEvent ccfg (.datagram m (some A) now) = .ok d.finish := by
    unfold Client.onEvent
    rw [hpoint, hd.ack]
    exact Client.listen_returns hok
  have hall : (chunks content).take (i + 1) = (chunks content).take (i + 2) := by
    rw [List.take_of_length_le (le_of_eq hi.symm),
      List.take_of_length_le (Nat.le_succ_of_le (le_of_eq hi.symm))]
  rw [hstep, hev]
  refine ⟨⟨by simp, (clientPoint_of_gt peer (by omega)).symm, fun h ↦ absurd rfl h, hd.ack,
    hd.pieces.trans hall, fun _ ↦ hd.server (by simp), fun h ↦ absurd rfl h, fun _ ↦ ?_⟩, ?_⟩
  · exact le_trans (le_of_eq hi.symm) (Nat.le_succ _)
  · show d.outbox.to peer = []
    rw [hout]
    rfl

section Answered

variable (hproto : ccfg.protocolVersion = .stopAndWait) (hport : peer.port ≠ 0)
include hproto hport

/-- The confirmation of the operation: the name is sent, unless it is too long for a packet. -/
theorem Asks.operation_confirmed (htask : ccfg.task = .download destination name)
    (hcontent : content ≠ []) (h : Asks peer name content .operation c)
    (hm : Carries m 1 true false []) :
    (Asks peer name content (.chunk 0) (c.step ccfg (.datagram m (some A) now)) ∧
        Requested name content (.chunk 0)
          ((c.step ccfg (.datagram m (some A) now)).outbox.to peer)) ∨
      Fails .operation (c.step ccfg (.datagram m (some A) now)) ∧
        (c.step ccfg (.datagram m (some A) now)).outbox.to peer = [] := by
  obtain ⟨d, hd, hout, hstep⟩ := h.step_eq ccfg (.datagram m (some A) now)
  have hreports : d.reports = [] := hd.reports_nil (total_pos hcontent)
  have hnum : d.sequenceNumber = ⟨1, .stopAndWait⟩ := hd.number (by rw [hd.point]; simp [clientPoint])
  obtain ⟨packet, -, -, -, hc⟩ := check_confirmation (A := A) (s := d.sequenceNumber) hm
  have hok : (ClientProtocol.validateConfirmation d.sequenceNumber none (m.take commsBufferSize)
      (some A)).map Prod.fst = .ok packet := by simpa [hnum] using hc
  have hev : d.onEvent ccfg (.datagram m (some A) now) =
      Client.onOperationConfirmation ccfg now peer d (.ok packet) := by
    unfold Client.onEvent
    rw [hd.point, hd.ack]
    exact Client.listen_returns hok
  rw [hstep, hev]
  have hnumber : SequenceNumber.step ⟨1, .stopAndWait⟩ = ⟨0, .stopAndWait⟩ := rfl
  simp only [Client.onOperationConfirmation, Client.informName, htask, Client.informFilename]
  generalize he : ({ d with serverAddress := peer } : Client).stepSequence.stepAck = e
  have hseq : e.sequenceNumber = ⟨0, .stopAndWait⟩ := by
    rw [← he]
    simp only [Client.stepSequence, Client.stepAck, hnum, hnumber]
  rcases Client.send_saw_cases hproto (c := e) (by rw [hseq]; decide) (he ▸ hport) false false
    ccfg.myAddress.port (encodeUtf8 name) with ⟨-, raw, hraw, hsend⟩ | ⟨-, hsend⟩
  · left
    rw [hsend]
    rw [hseq] at hraw
    subst he
    refine ⟨⟨by simp, rfl, fun _ ↦ hseq, ?_, hd.pieces, fun _ ↦ rfl, fun _ o ho ↦ ?_,
      fun hne ↦ absurd hreports hne⟩, .sends ?_⟩
    · show d.ackNumber.map _ = none
      rw [hd.ack]
      rfl
    · obtain rfl : o = raw := Outbox.eq_of_mem_to ho
      exact hraw
    · show Sends _ (Outbox.to (d.outbox ++ [(raw, peer)]) peer)
      rw [hout, List.nil_append, Outbox.to_cons_self]
      exact ⟨raw, hraw, rfl⟩
  · right
    rw [hsend]
    subst he
    obtain ⟨hended, hsent⟩ := Client.handle_error_ends
      (e := ExnClass.structError.exn) (by rw [Client.closesConnection, htask]; rfl) now
    exact ⟨⟨rfl, hended.point, hended.pieces.trans hd.pieces, hended.reports.trans hreports⟩,
      congrArg (Outbox.to · peer) (hsent.trans hout)⟩

variable (ccfg name) in
/-- The next chunk is confirmed and written, and the one after it waited for; the last one is
confirmed by the closing of the connection. -/
theorem asks_received {i : Nat} (hi : i < total content) (now : Time) {e : Client} {packet : Packet}
    (hfin : packet.isFin = decide (i + 1 = total content))
    (hdata : packet.data = (chunks content).getD i [])
    (hn : e.sequenceNumber = ⟨i % 2, .stopAndWait⟩) (hack : e.ackNumber = none)
    (hpieces : e.file.pieces = (chunks content).take i) (hserver : e.serverAddress = peer)
    (hout : e.outbox = []) (hrep : e.reports = []) :
    ∃ d, (do
      let c ← if packet.isFin then (.ok e : Client.Exec) else Client.sendAck ccfg e
      Client.afterChunk ccfg now packet.isFin (Client.appendToFile ccfg c packet)) = .ok d ∧
        Asks peer name content (.chunk (i + 1)) d ∧
        Requested name content (.chunk (i + 1)) (d.outbox.to peer) := by
  have hport : e.serverAddress.port ≠ 0 := hserver ▸ hport
  have hlt : e.sequenceNumber.value < 2 := by
    rw [hn]
    exact Nat.mod_lt i (by decide)
  have hwritten : e.file.pieces ++ [packet.data] = (chunks content).take (i + 1) := by
    rw [hpieces, hdata, List.take_succ_eq_append_getElem hi, List.getElem_eq_getD []]
  have hstep : e.sequenceNumber.step = ⟨(i + 1) % 2, .stopAndWait⟩ := by
    rw [hn, SequenceNumber.step_mk_saw, SequenceNumber.stepSaw_mod]
  by_cases hlast : i + 1 = total content
  · have hisFin : packet.isFin = true := by rw [hfin, decide_eq_true hlast]
    obtain ⟨ack, fin, hack', hfin', hclose⟩ := Client.finalization_eq hproto
      (c := { (Client.appendToFile ccfg e packet).report .downloadCompleted with
        downloadCompleted := true
        file := FileHandler.close (Client.appendToFile ccfg e packet).file
        disk := FileHandler.closeOnDisk (Client.appendToFile ccfg e packet).disk
          (Client.appendToFile ccfg e packet).file }) hlt hport now .performDownload
    have hack' : Carries ack (i % 2) true false [] := by
      have h : Carries ack e.sequenceNumber.value true false [] := hack'
      rwa [hn] at h
    have hfin' : Carries fin (i % 2) false true [] := by
      have h : Carries fin e.sequenceNumber.value false true [] := hfin'
      rwa [hn] at h
    simp only [hisFin, if_true, bind, Except.bind, Client.afterChunk, Client.completeDownload]
    refine ⟨_, hclose, ⟨by simp, (clientPoint_of_last peer hlast).symm, fun _ ↦ hstep, hack, hwritten,
      fun _ ↦ hserver, fun _ o ho ↦ ?_, fun _ ↦ le_of_eq hlast.symm⟩, ?_⟩
    · obtain rfl : o = fin := Outbox.eq_of_mem_to ho
      exact (request_of_last hlast).mpr (.inr hfin')
    · refine .last rfl hlast hack' hfin' ?_
      show Outbox.to ((e.outbox ++ [(ack, e.serverAddress)]) ++ [(fin, e.serverAddress)]) peer = _
      rw [hout, hserver]
      simp
  · have hisFin : packet.isFin = false := by rw [hfin, decide_eq_false hlast]
    have hmore : i + 1 < total content := by omega
    obtain ⟨raw, hraw, hsend⟩ := Client.send_saw hproto hlt hport true false ccfg.myAddress.port
      nil_fits
    rw [hn] at hraw
    have hraw : request name content (.chunk (i + 1)) raw := (request_of_lt hmore).mpr hraw
    rw [hisFin, if_neg (by decide), Client.sendAck, hsend]
    refine ⟨_, rfl, ⟨by simp, (clientPoint_of_lt peer hmore).symm, fun _ ↦ hstep, hack, hwritten,
      fun _ ↦ hserver, fun _ o ho ↦ ?_, fun hne ↦ absurd hrep hne⟩, .sends ?_⟩
    · obtain rfl : o = raw := Outbox.eq_of_mem_to ho
      exact hraw
    · show Sends _ (Outbox.to (e.outbox ++ [(raw, e.serverAddress)]) peer)
      rw [hout, hserver, List.nil_append, Outbox.to_cons_self]
      exact ⟨raw, hraw, rfl⟩

/-- The first chunk, which under a FIN is the last one. -/
theorem Asks.first_taken (hcontent : content ≠ []) (h : Asks peer name content (.chunk 0) c)
    (hm : answer content (.chunk 0) m) :
    Asks peer name content (.chunk 1) (c.step ccfg (.datagram m (some A) now)) ∧
      Requested name content (.chunk 1)
        ((c.step ccfg (.datagram m (some A) now)).outbox.to peer) := by
  have hpos : 0 < total content := total_pos hcontent
  obtain ⟨d, hd, hout, hstep⟩ := h.step_eq ccfg (.datagram m (some A) now)
  have hnum : d.sequenceNumber = ⟨0, .stopAndWait⟩ := hd.number (by rw [hd.point]; simp [clientPoint])
  have hrep : d.reports = [] := hd.reports_nil hpos
  obtain ⟨packet, hfin, hlength, hdata, hc⟩ := check_confirmation (A := A) (s := d.sequenceNumber)
    ((answer_of_lt hpos).mp hm)
  have hwhole : packet.data = (chunks content).getD 0 [] := by
    rw [hdata, List.take_of_length_le]
    exact le_trans (length_chunk_le 0) (by decide)
  obtain ⟨d', hrun, hasks, houts⟩ := asks_received ccfg name hproto hport hpos now hfin hwhole
    hnum hd.ack hd.pieces (hd.server (by simp)) hout hrep
  have hreceive : Client.receiveFile ccfg now d packet = .ok d' := by
    rw [← hrun, Client.receiveFile, hproto]
  have hev : d.onEvent ccfg (.datagram m (some A) now) = .ok d' := by
    unfold Client.onEvent
    rw [hd.point, hd.ack]
    by_cases hlast : 0 + 1 = total content
    · have hlong : 0 < packet.payloadLength := by
        rw [hlength]
        exact List.length_pos_iff.mpr (chunk_ne_nil hpos)
      have herr : (ClientProtocol.validateConfirmation d.sequenceNumber none
          (m.take commsBufferSize) (some A)).map Prod.fst =
          .error (ExnClass.unexpectedFinMessage.carrying packet) := by
        rw [hc, decide_eq_true hlast]
        rfl
      refine (Client.listen_raises herr (show ExnClass.unexpectedFinMessage ∉
        configureWantedExceptionsToCatch [.unexpectedFinMessage, .messageIsNotAck] by decide)).trans ?_
      have hsame : d.retransmit false = d := by simp [Client.retransmit]
      rw [hsame]
      unfold Client.onDownloadAnswer
      exact (if_pos rfl).trans ((if_pos hlong).trans hreceive)
    · have hok : (ClientProtocol.validateConfirmation d.sequenceNumber none
          (m.take commsBufferSize) (some A)).map Prod.fst = .ok packet := by
        rw [hc, hnum, decide_eq_false hlast]
        rfl
      exact (Client.listen_returns hok).trans hreceive
  rw [hstep, hev]
  exact ⟨hasks, houts⟩

/-- A chunk after the first one. -/
theorem Asks.chunk_taken {i : Nat} (hi : i + 1 < total content)
    (h : Asks peer name content (.chunk (i + 1)) c) (hm : answer content (.chunk (i + 1)) m) :
    Asks peer name content (.chunk (i + 2)) (c.step ccfg (.datagram m (some A) now)) ∧
      Requested name content (.chunk (i + 2))
        ((c.step ccfg (.datagram m (some A) now)).outbox.to peer) := by
  obtain ⟨d, hd, hout, hstep⟩ := h.step_eq ccfg (.datagram m (some A) now)
  have hpoint : d.point = .receiveFileSaw := hd.point.trans (clientPoint_of_lt peer hi)
  have hnum : d.sequenceNumber = ⟨(i + 1) % 2, .stopAndWait⟩ := hd.number (by rw [hpoint]; simp)
  obtain ⟨packet, hfin, hdata, hc⟩ := check_receiveFileChunkSaw (A := A) (s := d.sequenceNumber)
    ccfg.protocolVersion ((answer_of_lt hi).mp hm)
  have hwhole : packet.data = (chunks content).getD (i + 1) [] := by
    rw [hdata, List.take_of_length_le]
    exact le_trans (length_chunk_le (i + 1)) (by decide)
  have hok : (ClientProtocol.receiveFileChunkSaw ccfg.protocolVersion d.sequenceNumber).check
      (m.take fullBufferSize) (some A) = .ok (⟨(i + 1) % 2, .stopAndWait⟩, packet) := by
    rw [hc, hnum, hproto]
    exact if_neg (not_not.mpr rfl)
  obtain ⟨d', hrun, hasks, houts⟩ := asks_received ccfg name hproto hport hi now
    (e := { d with sequenceNumber := ⟨(i + 1) % 2, .stopAndWait⟩ }) hfin hwhole rfl hd.ack hd.pieces
    (hd.server (by simp)) hout (hd.reports_nil hi)
  have hev : d.onEvent ccfg (.datagram m (some A) now) = .ok d' := by
    unfold Client.onEvent
    rw [hpoint]
    exact (Client.listen_returns hok).trans hrun
  rw [hstep, hev]
  exact ⟨hasks, houts⟩

/-- There is no such file. -/
theorem Asks.refused (htask : ccfg.task = .download destination name) (hcontent : content ≠ [])
    (h : Asks peer name content r c) (hm : refusal r m) :
    Quits r (c.step ccfg (.datagram m (some A) now)) := by
  obtain ⟨d, hd, hout, hstep⟩ := h.step_eq ccfg (.datagram m (some A) now)
  obtain ⟨rfl, hm⟩ := hm
  obtain ⟨number, hm⟩ : ∃ number, Carries m number false true [] := hm.elim (⟨0, ·⟩) (⟨1, ·⟩)
  have hnum : d.sequenceNumber = ⟨0, .stopAndWait⟩ := hd.number (by rw [hd.point]; simp [clientPoint])
  obtain ⟨packet, -, -, -, hc⟩ := check_confirmation (A := A) (s := d.sequenceNumber) hm
  have herr : (ClientProtocol.validateConfirmation d.sequenceNumber none (m.take commsBufferSize)
      (some A)).map Prod.fst = .error ExnClass.messageIsNotAck.exn := hc
  have hev : d.onEvent ccfg (.datagram m (some A) now) =
      .error (ExnClass.fileDoesNotExist.exn, d) := by
    unfold Client.onEvent
    rw [hd.point, hd.ack]
    refine (Client.listen_raises herr (show ExnClass.messageIsNotAck ∉
      configureWantedExceptionsToCatch [.unexpectedFinMessage, .messageIsNotAck] by decide)).trans ?_
    simp [Client.onDownloadAnswer, Client.raise, Client.retransmit, ExnClass.exn]
  have hreports : d.reports = [] := hd.reports_nil (total_pos hcontent)
  have hseq : d.stepSequence.stepAck.sequenceNumber = ⟨1, .stopAndWait⟩ := by
    show d.sequenceNumber.step = _
    rw [hnum]
    rfl
  have hserver : d.stepSequence.stepAck.serverAddress = peer := hd.server (by simp)
  obtain ⟨ack, fin, -, -, hfinal⟩ := Client.finalization_eq hproto (c := d.stepSequence.stepAck)
    (by rw [hseq]; decide) (hserver ▸ hport) now .exceptClause
  have hquit : c.step ccfg (.datagram m (some A) now) =
      ((((d.stepSequence.stepAck).handed ack).handed fin).stepSequence).block
        (.handleConnectionFinalization .exceptClause) now := by
    rw [hstep, hev, Client.handle_error_closes (by rw [Client.closesConnection, htask]; rfl)]
    exact congrArg Client.swallow hfinal
  rw [hquit]
  refine ⟨rfl, .finalizing rfl, fun _ ↦ ⟨?_, ?_⟩, hd.pieces, hreports⟩
  · show d.stepSequence.stepAck.sequenceNumber.step = _
    rw [hseq]
    rfl
  · show d.ackNumber.map _ = none
    rw [hd.ack]
    rfl

end Answered

/-! ## Afterwards -/

theorem Quits.step (h : Quits r c) (cfg : Client.Config) (ev : Event) : Quits r (c.step cfg ev) := by
  cases h.leaving with
  | ended hp =>
      rw [Client.step_ended hp]
      exact ⟨h.round, .ended hp, fun hp' ↦ absurd (hp.symm.trans hp') (by simp), h.pieces, h.reports⟩
  | finalizing hp =>
      rcases Client.step_exceptClause hp cfg ev with ⟨l, b, hstep⟩ | hended
      · rw [hstep]
        exact ⟨h.round, .finalizing hp, fun _ ↦ h.number hp, h.pieces, h.reports⟩
      · exact ⟨h.round, .ended hended.point, fun hp' ↦ absurd (hended.point.symm.trans hp') (by simp),
          hended.pieces.trans h.pieces, hended.reports.trans h.reports⟩

theorem Fails.step (h : Fails r c) (cfg : Client.Config) (ev : Event) :
    Fails r (c.step cfg ev) ∧ (c.step cfg ev).outbox = [] := by
  rw [Client.step_ended h.point]
  exact ⟨⟨h.round, h.point, h.pieces, h.reports⟩, rfl⟩

end Rdt.Saw.Download
