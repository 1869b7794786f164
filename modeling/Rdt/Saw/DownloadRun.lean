import Rdt.Saw.Counting
import Rdt.Saw.Start
import Rdt.Saw.DownloadClient
import Rdt.Saw.DownloadServer

/-! # Runs of a download -/

namespace Rdt.Saw.Download

open Duplex Server

/-- The name the client sends, what the receive buffer makes of it, and the file of that name. -/
structure Setting (ccfg : Client.Config) (scfg : Server.Config) (name stored : String)
    (content : Bytes) (disk : Disk) : Prop where
  client : ccfg.protocolVersion = .stopAndWait
  server : scfg.protocolVersion = .stopAndWait
  task : ∃ destination, ccfg.task = .download destination name
  nonempty : content ≠ []
  file : ∀ n f,
    decodeUtf8 ((encodeUtf8 name).take (fullBufferSize - sawProtocolHeaderSize)) = .ok n →
      scfg.fileHandler.openFileReadMode disk n false = .ok f → f.content = content
  name : ∀ n, decodeUtf8 ((encodeUtf8 name).take (fullBufferSize - sawProtocolHeaderSize)) = .ok n →
    n = stored

variable {ccfg : Client.Config} {scfg : Server.Config} {name stored : String} {content : Bytes}
  {disk : Disk}

/-! ## What the ends send, and at what price -/

section Prices

variable {peer : Address} {r : Round} {c : Client} {d : ClientConnection} {outs : List Bytes}
  {Q : Bytes → Prop}

/-- What a client in a round sends is paid for by an answer of the round before. -/
theorem Asks.emits (h : Asks peer name content r c) (ho : Single Q outs) :
    Emits Q c.countsChunk (requestPrice content r) outs (requestCost content r) := by
  cases r with
  | start => exact absurd rfl h.started
  | operation =>
      refine ho.emits_uncounted (fun raw ↦ ?_) (le_refl _)
      rw [Client.countsChunk, h.point]
      rfl
  | chunk i =>
      cases i with
      | zero =>
          refine ho.emits_uncounted (fun raw ↦ ?_) (le_refl _)
          rw [Client.countsChunk, h.point]
          rfl
      | succ i =>
          rw [requestPrice_chunk, requestCost_chunk]
          rcases Nat.lt_or_ge i (total content) with hi | hi
          · exact ho.emits (by omega)
          · refine ho.emits_uncounted (fun raw ↦ ?_) (by omega)
            rw [Client.countsChunk, h.point, clientPoint_of_gt peer (Nat.lt_succ_of_le hi)]

theorem Asks.requestCost_le (h : Asks peer name content r c) :
    requestCost content r ≤ 2 * c.outstanding (total content) + 1 := by
  unfold Client.outstanding
  rw [h.point, h.pieces]
  cases r with
  | start => exact absurd rfl h.started
  | operation => exact Nat.le_succ _
  | chunk i =>
      cases i with
      | zero => exact Nat.le_succ _
      | succ i =>
          have hlength : ((chunks content).take (i + 1)).length = min (i + 1) (total content) :=
            List.length_take
          rw [requestCost_chunk, Round.written, hlength]
          rcases round_cases content (i + 1) with hi | hi | hi
          · rw [clientPoint_of_lt peer hi]
            dsimp only
            omega
          · rw [clientPoint_of_last peer hi]
            dsimp only
            omega
          · omega

theorem Answers.emits (h : Answers scfg stored content disk r d) (ho : Single Q outs) :
    Emits Q d.countsChunk (answerPrice content r) outs (requestPrice content r) := by
  cases r with
  | start => exact absurd rfl h.started
  | operation =>
      refine ho.emits_uncounted (fun raw ↦ ?_) (le_refl _)
      rw [ClientConnection.countsChunk, h.point]
      rfl
  | chunk i =>
      rw [answerPrice_chunk, requestPrice_chunk]
      rcases Nat.lt_or_ge i (total content) with hi | hi
      · exact ho.emits (by omega)
      · refine ho.emits_uncounted (fun raw ↦ ?_) (by omega)
        rw [ClientConnection.countsChunk, h.point, serverPoint_of_le hi]

theorem Answers.requestPrice_le (h : Answers scfg stored content disk r d) :
    requestPrice content r ≤ 2 * d.outstanding (total content) + 1 := by
  unfold ClientConnection.outstanding
  rw [h.point]
  cases r with
  | start => exact absurd rfl h.started
  | operation => exact Nat.le_succ _
  | chunk i =>
      rw [requestPrice_chunk]
      rcases Nat.lt_trichotomy (i + 1) (total content) with hi | hi | hi
      · rw [serverPoint_of_lt hi]
        dsimp only
        rw [length_drop_chunks]
        omega
      · rw [serverPoint_of_last hi]
        dsimp only
        omega
      · omega

/-- The ACK and the FIN for the last chunk lead to nothing more. -/
theorem Asks.emits_requested (h : Asks peer name content r c) (ho : Requested name content r outs) :
    Emits (request name content r) c.countsChunk (requestPrice content r) outs
      (requestCost content r) := by
  cases ho with
  | sends ho => exact h.emits ho.single
  | @last i hr hi ack fin hack hfin houts =>
      subst hr
      have hall : request name content (.chunk (i + 1)) ack ∧ request name content (.chunk (i + 1)) fin :=
        ⟨(request_of_last hi).mpr (.inl hack), (request_of_last hi).mpr (.inr hfin)⟩
      have hprice : requestPrice content (.chunk (i + 1)) = 0 ∧
          requestCost content (.chunk (i + 1)) = 1 := by
        rw [requestPrice_chunk, requestCost_chunk]
        omega
      rw [hprice.1, hprice.2, houts]
      refine emits_ack_fin hall ?_
      rw [Client.countsChunk, h.point, clientPoint_of_last peer hi]
      exact isAck_fin hfin
  | closed _ _ houts => exact houts ▸ h.emits .nil

theorem Closes.countsChunk (h : Closes scfg stored content r d) (raw : Bytes) :
    d.countsChunk raw = false := by
  unfold ClientConnection.countsChunk
  rcases h.point with ⟨hp, -⟩ | hp
  · rw [hp]
  · rw [hp]

end Prices

/-- What a client that waits for the answer of a round makes of it. -/
theorem Setting.client_next (h : Setting ccfg scfg name stored content disk) {A : Address}
    {r : Round} {c : Client} {m : Bytes} {now : Time} (hc : Asks scfg.address name content r c)
    (hm : answer content r m) :
    (Asks scfg.address name content r.next (c.step ccfg (.datagram m (some A) now)) ∧
        Requested name content r.next
          ((c.step ccfg (.datagram m (some A) now)).outbox.to scfg.address)) ∨
      Fails r (c.step ccfg (.datagram m (some A) now)) ∧
        (c.step ccfg (.datagram m (some A) now)).outbox.to scfg.address = [] := by
  obtain ⟨destination, htask⟩ := h.task
  cases r with
  | start => exact absurd rfl hc.started
  | operation => exact hc.operation_confirmed h.client scfg.portBound htask h.nonempty hm
  | chunk i =>
      left
      cases i with
      | zero => exact hc.first_taken h.client scfg.portBound h.nonempty hm
      | succ i =>
          rcases round_cases content (i + 1) with hi | hi | hi
          · exact hc.chunk_taken h.client scfg.portBound hi hm
          · obtain ⟨hasks, hnone⟩ := hc.final_taken hi hm
            exact ⟨hasks, .closed rfl (Nat.lt_succ_of_le (le_of_eq hi.symm)) hnone⟩
          · exact absurd hm (not_answer_of_lt hi)

/-- The two ends of a download, as long as neither exhausts its retries. -/
def lockstep (h : Setting ccfg scfg name stored content disk) :
    Lockstep Round (Client.patientNode ccfg scfg.address) (ClientConnection.patientNode scfg) where
  next := Round.next
  request := request name content
  answer := answer content
  refusal := refusal
  left := Asks scfg.address name content
  silent := Fails
  leftOver := Quits
  right := Answers scfg stored content disk
  refusing := Refuses scfg stored content
  rightOver := Closes scfg stored content
  mute := Dies scfg stored content
  countsLeft := Client.countsChunk
  countsRight := ClientConnection.countsChunk
  requestPrice := requestPrice content
  answerPrice := answerPrice content
  leftAllowance := fun c ↦ 2 * c.outstanding (total content) + 1
  rightAllowance := fun c ↦ 2 * c.outstanding (total content) + 1
  left_idle := by
    rintro r c _ _ hc ⟨ev, hev, hg, ⟨⟩⟩
    obtain ⟨hasks, houts⟩ := hc.idle (hev.elim id id) hg
    exact ⟨hasks, .inr ((hasks.emits houts).mono hc.requestCost_le)⟩
  left_stale := by
    rintro r c m _ _ hc hm ⟨_, ⟨now, rfl⟩ | ⟨now, rfl⟩, hg, ⟨⟩⟩
    · obtain ⟨hasks, houts⟩ := hc.stale hm hg
      exact ⟨hasks, requestCost_next content r ▸ hasks.emits houts⟩
    · obtain ⟨hasks, houts⟩ := hc.stale hm hg
      exact ⟨hasks, requestCost_next content r ▸ hasks.emits houts⟩
  left_next := by
    rintro r c m _ _ hc hm ⟨_, ⟨now, rfl⟩ | ⟨now, rfl⟩, -, ⟨⟩⟩
    · refine (h.client_next hc hm).imp_left fun ⟨hasks, houts⟩ ↦ ⟨hasks, ?_⟩
      exact requestCost_next content r ▸ hasks.emits_requested houts
    · refine (h.client_next hc hm).imp_left fun ⟨hasks, houts⟩ ↦ ⟨hasks, ?_⟩
      exact requestCost_next content r ▸ hasks.emits_requested houts
  left_refused := by
    obtain ⟨destination, htask⟩ := h.task
    rintro r c m _ _ hc hm ⟨_, ⟨now, rfl⟩ | ⟨now, rfl⟩, -, ⟨⟩⟩
    · have hquits : Quits r (c.step ccfg (.datagram m (some scfg.address) now)) :=
        hc.refused h.client scfg.portBound htask h.nonempty hm
      exact ⟨hquits, countP_uncounted hquits.leaving.countsChunk⟩
    · have hquits : Quits r (c.step ccfg (.datagram m (some ccfg.serverAddress) now)) :=
        hc.refused h.client scfg.portBound htask h.nonempty hm
      exact ⟨hquits, countP_uncounted hquits.leaving.countsChunk⟩
  silent_step := by
    rintro r c i _ _ hc ⟨ev, -, -, ⟨⟩⟩
    exact ⟨(hc.step ccfg ev).1, congrArg (Outbox.to · scfg.address) (hc.step ccfg ev).2⟩
  left_over := by
    rintro r c i _ _ hc ⟨ev, -, -, ⟨⟩⟩
    exact ⟨hc.step ccfg ev, countP_uncounted (hc.step ccfg ev).leaving.countsChunk⟩
  right_idle := by
    rintro r c _ _ hc ⟨ev, hev, hg, ⟨⟩⟩
    obtain ⟨hanswers, houts⟩ := hc.idle hev hg
    exact ⟨hanswers, .inr ((hanswers.emits houts).mono hc.requestPrice_le)⟩
  right_stale := by
    rintro r c m _ _ hc hm ⟨_, ⟨now, rfl⟩, hg, ⟨⟩⟩
    obtain ⟨hanswers, houts⟩ := hc.stale hm hg
    exact ⟨hanswers, hanswers.emits houts⟩
  right_next := by
    rintro r c m _ _ hc hm ⟨_, ⟨now, rfl⟩, -, ⟨⟩⟩
    have hr : Replies scfg stored content disk r.next
        (c.step scfg (.datagram m (some scfg.clientAddress) now)) :=
      hc.next h.server h.nonempty h.name h.file hm
    cases hr with
    | answers hc houts => exact .inl ⟨hc, hc.emits houts.single⟩
    | refuses hc houts => exact .inr (.inl ⟨hc, emits_free houts hc.closes.countsChunk⟩)
    | dies hc houts => exact .inr (.inr ⟨hc, houts⟩)
  refusing_idle := by
    rintro r c _ _ hc ⟨ev, hev, hg, ⟨⟩⟩
    obtain ⟨hrefuses, houts⟩ := hc.idle hev hg
    exact ⟨hrefuses, emits_free houts hrefuses.closes.countsChunk⟩
  refusing_stale := by
    rintro r c m _ _ hc hm ⟨_, ⟨now, rfl⟩, hg, ⟨⟩⟩
    obtain ⟨hrefuses, houts⟩ := hc.stale hm hg
    exact ⟨hrefuses, emits_free houts hrefuses.closes.countsChunk⟩
  over_of_refusing := fun hc ↦ hc.closes
  right_over := by
    rintro r c i _ _ hc ⟨ev, -, -, ⟨⟩⟩
    exact ⟨hc.step h.server ev, countP_uncounted (hc.step h.server ev).countsChunk⟩
  mute_step := by
    rintro r c i _ _ hc ⟨ev, -, -, ⟨⟩⟩
    exact ⟨(hc.step ev).1, congrArg (Outbox.to · scfg.clientAddress) (hc.step ev).2⟩

/-! ## The start -/

theorem Setting.client_starts (h : Setting ccfg scfg name stored content disk) {peer : Address}
    {c₀ c : Client} (hpieces : c₀.file.pieces = []) (hc : SentOperation ccfg peer c₀ c) :
    Asks peer name content .operation c := by
  obtain ⟨destination, htask⟩ := h.task
  obtain ⟨hpoint, hnumber, hack, hfile, hreports, raw, hlast, hraw⟩ := hc.spec
  rw [Client.operationCode, htask] at hraw
  refine ⟨by decide, hpoint, fun _ ↦ hnumber, hack, hfile ▸ hpieces, fun hne ↦ absurd rfl hne,
    fun _ o ho ↦ ?_, fun hne ↦ absurd hreports hne⟩
  obtain rfl : raw = o := Option.some.inj (hlast.symm.trans (SocketSaw.mem_retransmission (b := true) ho))
  exact hraw

theorem Setting.connection_starts (h : Setting ccfg scfg name stored content disk) {peer : Address}
    {c₀ c : Client} {d : ClientConnection} (hc : SentOperation ccfg peer c₀ c)
    (hd : ConnectionStarts scfg c disk d) : Answers scfg stored content disk .operation d ∧
      ∃ ack, Carries ack 1 true false [] ∧ d.outbox = [(ack, scfg.clientAddress)] := by
  obtain ⟨destination, htask⟩ := h.task
  obtain ⟨-, -, -, -, -, raw, hlast, hraw⟩ := hc.spec
  rw [Client.operationCode, htask] at hraw
  have hstarted := hd.spec (.inr rfl) ⟨raw, hlast, hraw⟩
  obtain ⟨ack, hack, hout, hrep⟩ := hstarted.ack
  refine ⟨⟨by decide, hstarted.point, fun _ ↦ hstarted.number, fun _ o ho ↦ ?_, fun _ ↦ hstarted.disk,
    ?_, fun hne ↦ absurd hstarted.reports hne⟩, ack, hack, hout⟩
  · rw [hrep] at ho
    obtain rfl := Outbox.eq_of_mem_to ho
    exact hack
  · unfold Reads
    rw [hstarted.unnamed.1]
    rintro _ ⟨⟩

/-- The first ACK is answered, and every copy of an answer in flight may lead to all chunks. -/
theorem Setting.starts (h : Setting ccfg scfg name stored content disk) {c₀ : Client}
    {w : World Client ClientConnection Bytes Bytes} (hpieces : c₀.file.pieces = [])
    (hw : Starts ccfg scfg disk c₀ w) :
    (lockstep h).Balanced (w.toLeft.length * (2 * total content)) w.journaled := by
  obtain ⟨hanswers, ack, hack, hout⟩ := h.connection_starts hw.client hw.connection
  refine .answered .start (h.client_starts hpieces hw.client) hanswers ?_
    (hw.toLeft.weighs hout hack _) (le_of_eq ?_)
  · show ∀ m ∈ w.toRight, _
    rw [hw.toRight]
    rintro _ ⟨⟩
  · show 0 + (w.toRight.length * _ + _) = _ + 0
    rw [hw.toRight, List.length_nil, Nat.zero_mul, Nat.zero_add, Nat.zero_add]
    rfl

end Rdt.Saw.Download
