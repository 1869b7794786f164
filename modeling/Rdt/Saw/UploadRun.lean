import Rdt.Saw.Counting
import Rdt.Saw.Start
import Rdt.Saw.UploadClient
import Rdt.Saw.UploadServer

/-! # Runs of an upload -/

namespace Rdt.Saw.Upload

open Duplex Server

/-- The file that is uploaded, and the name that the receive buffer makes of the one sent. -/
structure Setting (ccfg : Client.Config) (scfg : Server.Config) (name stored : String)
    (content : Bytes) : Prop where
  client : ccfg.protocolVersion = .stopAndWait
  server : scfg.protocolVersion = .stopAndWait
  task : ∃ src, ccfg.task = .upload src name
  nonempty : content ≠ []
  name : ∀ n, decodeUtf8 ((encodeUtf8 name).take (fullBufferSize - sawProtocolHeaderSize)) = .ok n →
    n = stored

variable {ccfg : Client.Config} {scfg : Server.Config} {name stored : String} {content : Bytes}

/-! ## What the ends send, and at what price -/

section Prices

variable {peer : Address} {r : Round} {c : Client} {d : ClientConnection} {outs : List Bytes}
  {Q : Bytes → Prop}

/-- What a client in a round sends is paid for by an answer of the round before. -/
theorem Asks.emits (h : Asks peer name content r c) (ho : Single Q outs) :
    Emits Q c.countsChunk (requestPrice content r) outs (requestCost content r) := by
  have early : c.point = clientPoint peer content r → (∀ i, r ≠ .chunk i) →
      Emits Q c.countsChunk (2 * total content) outs (2 * total content) := by
    intro hp hr
    refine ho.emits_uncounted (fun raw ↦ ?_) (le_refl _)
    unfold Client.countsChunk
    rw [hp]
    cases r with
    | chunk i => exact absurd rfl (hr i)
    | start | operation | filename | filesize => rfl
  cases r with
  | start | operation | filename | filesize => exact early h.point (by simp)
  | chunk i =>
      rw [requestPrice_chunk, requestCost_chunk]
      rcases Nat.lt_or_ge i (total content) with hi | hi
      · exact ho.emits (by omega)
      · refine ho.emits_uncounted (fun raw ↦ ?_) (by omega)
        rw [Client.countsChunk, h.point, clientPoint_of_le peer hi]

theorem Asks.requestCost_le (h : Asks peer name content r c) :
    requestCost content r ≤ 2 * c.outstanding (total content) + 1 := by
  unfold Client.outstanding
  rw [h.point]
  cases r with
  | start => exact absurd rfl h.started
  | operation | filename | filesize => exact Nat.le_succ _
  | chunk i =>
      rw [requestCost_chunk]
      rcases chunk_cases content i with hi | hi | hi
      · rw [clientPoint_of_lt peer hi]
        dsimp only
        rw [length_drop_chunks]
        omega
      · rw [clientPoint_of_last peer hi]
        dsimp only
        omega
      · omega

theorem Stores.pieces_eq {k : Nat} (h : Stores scfg stored content k d) :
    d.pieces = (chunks content).take k := by
  unfold ClientConnection.pieces
  cases hf : d.file with
  | some f => exact (h.file f hf).2
  | none =>
      obtain rfl : k = 0 := by_contra fun hk ↦ h.opened hk hf
      rfl

theorem Answers.emits (h : Answers scfg stored content r d) (ho : Single Q outs) :
    Emits Q d.countsChunk (answerPrice content r) outs (requestPrice content r) := by
  cases r with
  | start => exact absurd rfl h.started
  | operation | filename =>
      refine ho.emits_uncounted (fun raw ↦ ?_) (le_refl _)
      rw [ClientConnection.countsChunk, h.point]
      rfl
  | filesize =>
      refine ho.emits_uncounted (fun raw ↦ ?_) (le_refl _)
      rw [ClientConnection.countsChunk, h.point, h.pieces_eq]
      exact Bool.and_false _
  | chunk i =>
      rw [answerPrice_chunk, requestPrice_chunk]
      rcases Nat.lt_or_ge i (total content) with hi | hi
      · exact ho.emits (by omega)
      · refine ho.emits_uncounted (fun raw ↦ ?_) (by omega)
        rw [ClientConnection.countsChunk, h.point, serverPoint_of_le stored hi]

theorem Answers.requestPrice_le (h : Answers scfg stored content r d) :
    requestPrice content r ≤ 2 * d.outstanding (total content) + 1 := by
  unfold ClientConnection.outstanding
  rw [h.point, h.pieces_eq]
  cases r with
  | start => exact absurd rfl h.started
  | operation | filename => exact Nat.le_succ _
  | filesize => exact Nat.le_succ _
  | chunk i =>
      have hlength : ((chunks content).take (i + 1)).length = min (i + 1) (total content) :=
        List.length_take
      rw [requestPrice_chunk, Round.written, hlength]
      rcases chunk_cases content i with hi | hi | hi
      · rw [serverPoint_of_lt stored hi]
        dsimp only
        omega
      · rw [serverPoint_of_last stored hi]
        dsimp only
        omega
      · omega

/-- The ACK and the FIN for the last chunk lead to nothing more. -/
theorem Answers.emits_replied (h : Answers scfg stored content r d) (ho : Replied content r outs) :
    Emits (answer content r) d.countsChunk (answerPrice content r) outs (requestPrice content r) := by
  cases ho with
  | sends ho => exact h.emits ho.single
  | @last i hr hi ack fin hack hfin houts =>
      subst hr
      have hall := And.intro ((answer_of_last hi).mpr (.inl hack)) ((answer_of_last hi).mpr (.inr hfin))
      have hprice : answerPrice content (.chunk i) = 0 ∧ requestPrice content (.chunk i) = 1 := by
        rw [answerPrice_chunk, requestPrice_chunk]
        omega
      rw [hprice.1, hprice.2, houts]
      refine emits_ack_fin hall ?_
      rw [ClientConnection.countsChunk, h.point, serverPoint_of_last stored hi]
      exact Bool.and_eq_false_imp.mpr fun hack ↦ absurd (isAck_fin hfin) (by simp [hack])
  | closed _ _ houts => exact houts ▸ h.emits .nil

theorem Closes.countsChunk (h : Closes scfg stored content r d) (raw : Bytes) :
    d.countsChunk raw = false := by
  unfold ClientConnection.countsChunk
  rcases h.point with ⟨hp, -⟩ | hp
  · rw [hp]
  · rw [hp]

end Prices

/-- What a client that waits for the answer of a round makes of it. -/
theorem Setting.client_next (h : Setting ccfg scfg name stored content) {A : Address} {r : Round}
    {c : Client} {m : Bytes} {now : Time} (hc : Asks scfg.address name content r c) (hm : answer content r m) :
    (Asks scfg.address name content r.next (c.step ccfg (.datagram m (some A) now)) ∧
        Sends (request name content r.next)
          ((c.step ccfg (.datagram m (some A) now)).outbox.to scfg.address)) ∨
      Fails r (c.step ccfg (.datagram m (some A) now)) ∧
        (c.step ccfg (.datagram m (some A) now)).outbox.to scfg.address = [] := by
  obtain ⟨src, htask⟩ := h.task
  cases r with
  | start => exact absurd rfl hc.started
  | operation => exact (hc.operation_confirmed h.client scfg.portBound htask hm).imp_right And.right
  | filename => exact hc.filename_confirmed h.client scfg.portBound htask hm
  | filesize => exact .inl (hc.filesize_confirmed h.client scfg.portBound h.nonempty hm)
  | chunk i =>
      rcases chunk_cases content i with hi | hi | hi
      · exact .inl (hc.chunk_confirmed h.client scfg.portBound hi ((answer_of_lt hi).mp hm))
      · exact .inl (hc.last_confirmed h.client scfg.portBound hi ((answer_of_last hi).mp hm))
      · exact absurd hm (not_answer_of_le hi)

/-- The two ends of an upload, as long as neither exhausts its retries. -/
def lockstep (h : Setting ccfg scfg name stored content) :
    Lockstep Round (Client.patientNode ccfg scfg.address) (ClientConnection.patientNode scfg) where
  next := Round.next
  request := request name content
  answer := answer content
  refusal := refusal
  left := Asks scfg.address name content
  silent := Fails
  leftOver := Quits
  right := Answers scfg stored content
  refusing := Refuses scfg stored content
  rightOver := Closes scfg stored content
  mute := Dies scfg stored content
  countsLeft := Client.countsChunk
  countsRight := ClientConnection.countsChunk
  requestPrice := requestPrice content
  answerPrice := answerPrice content
  leftAllowance := fun c ↦ 2 * c.outstanding (total content) + 1
  rightAllowance := fun c ↦ 2 * c.outstanding (total content) + 1
  left_idle := by
    rintro r c _ _ hc ⟨ev, hev, hg, ⟨⟩⟩
    obtain ⟨hasks, houts⟩ := hc.idle (hev.elim id id) hg
    exact ⟨hasks, .inr ((hasks.emits houts).mono hc.requestCost_le)⟩
  left_stale := by
    rintro r c m _ _ hc hm ⟨_, ⟨now, rfl⟩ | ⟨now, rfl⟩, hg, ⟨⟩⟩
    · obtain ⟨hasks, houts⟩ := hc.stale hm hg
      exact ⟨hasks, requestCost_next content r ▸ hasks.emits houts⟩
    · obtain ⟨hasks, houts⟩ := hc.stale hm hg
      exact ⟨hasks, requestCost_next content r ▸ hasks.emits houts⟩
  left_next := by
    rintro r c m _ _ hc hm ⟨_, ⟨now, rfl⟩ | ⟨now, rfl⟩, -, ⟨⟩⟩
    · refine (h.client_next hc hm).imp_left fun ⟨hasks, houts⟩ ↦ ⟨hasks, ?_⟩
      exact requestCost_next content r ▸ hasks.emits houts.single
    · refine (h.client_next hc hm).imp_left fun ⟨hasks, houts⟩ ↦ ⟨hasks, ?_⟩
      exact requestCost_next content r ▸ hasks.emits houts.single
  left_refused := by
    obtain ⟨src, htask⟩ := h.task
    rintro r c m _ _ hc hm ⟨_, ⟨now, rfl⟩ | ⟨now, rfl⟩, -, ⟨⟩⟩
    · have hquits : Quits r (c.step ccfg (.datagram m (some scfg.address) now)) :=
        hc.refused h.client scfg.portBound htask hm
      exact ⟨hquits, countP_uncounted hquits.leaving.countsChunk⟩
    · have hquits : Quits r (c.step ccfg (.datagram m (some ccfg.serverAddress) now)) :=
        hc.refused h.client scfg.portBound htask hm
      exact ⟨hquits, countP_uncounted hquits.leaving.countsChunk⟩
  silent_step := by
    rintro r c i _ _ hc ⟨ev, -, -, ⟨⟩⟩
    exact ⟨(hc.step ccfg ev).1, congrArg (Outbox.to · scfg.address) (hc.step ccfg ev).2⟩
  left_over := by
    rintro r c i _ _ hc ⟨ev, -, -, ⟨⟩⟩
    exact ⟨hc.step ccfg ev, countP_uncounted (hc.step ccfg ev).leaving.countsChunk⟩
  right_idle := by
    rintro r c _ _ hc ⟨ev, hev, hg, ⟨⟩⟩
    obtain ⟨hanswers, houts⟩ := hc.idle hev hg
    exact ⟨hanswers, .inr ((hanswers.emits houts).mono hc.requestPrice_le)⟩
  right_stale := by
    rintro r c m _ _ hc hm ⟨_, ⟨now, rfl⟩, hg, ⟨⟩⟩
    obtain ⟨hanswers, houts⟩ := hc.stale hm hg
    exact ⟨hanswers, hanswers.emits houts⟩
  right_next := by
    rintro r c m _ _ hc hm ⟨_, ⟨now, rfl⟩, -, ⟨⟩⟩
    have hr : Replies scfg stored content r.next
        (c.step scfg (.datagram m (some scfg.clientAddress) now)) :=
      hc.next h.server h.nonempty h.name hm
    cases hr with
    | answers hc houts => exact .inl ⟨hc, hc.emits_replied houts⟩
    | refuses hc houts => exact .inr (.inl ⟨hc, emits_free houts.all hc.closes.countsChunk⟩)
    | dies hc houts => exact .inr (.inr ⟨hc, houts⟩)
  refusing_idle := by
    rintro r c _ _ hc ⟨ev, hev, hg, ⟨⟩⟩
    obtain ⟨hrefuses, houts⟩ := hc.idle hev hg
    exact ⟨hrefuses, emits_free houts.all hrefuses.closes.countsChunk⟩
  refusing_stale := by
    rintro r c m _ _ hc hm ⟨_, ⟨now, rfl⟩, hg, ⟨⟩⟩
    obtain ⟨hrefuses, houts⟩ := hc.stale (by rintro rfl; exact hm) hm hg
    exact ⟨hrefuses, emits_free houts.all hrefuses.closes.countsChunk⟩
  over_of_refusing := fun hc ↦ hc.closes
  right_over := by
    rintro r c i _ _ hc ⟨ev, -, -, ⟨⟩⟩
    exact ⟨hc.step h.server ev, countP_uncounted (hc.step h.server ev).countsChunk⟩
  mute_step := by
    rintro r c i _ _ hc ⟨ev, -, -, ⟨⟩⟩
    exact ⟨(hc.step ev).1, congrArg (Outbox.to · scfg.clientAddress) (hc.step ev).2⟩

/-! ## The start -/

theorem Setting.client_starts (h : Setting ccfg scfg name stored content) {peer : Address}
    {c₀ c : Client} (hsource : c₀.file.content = content) (hc : SentOperation ccfg peer c₀ c) :
    Asks peer name content .operation c := by
  obtain ⟨src, htask⟩ := h.task
  obtain ⟨hpoint, hnumber, hack, hfile, hreports, raw, hlast, hraw⟩ := hc.spec
  rw [Client.operationCode, htask] at hraw
  refine ⟨by decide, hpoint, hnumber, hack, hfile ▸ hsource, fun hne ↦ absurd rfl hne,
    fun o ho ↦ ?_, fun hne ↦ absurd hreports hne⟩
  obtain rfl : raw = o := Option.some.inj (hlast.symm.trans (SocketSaw.mem_retransmission (b := true) ho))
  exact hraw

theorem Setting.connection_starts (h : Setting ccfg scfg name stored content) {peer : Address}
    {c₀ c : Client} {disk : Disk} {d : ClientConnection} (hc : SentOperation ccfg peer c₀ c)
    (hd : ConnectionStarts scfg c disk d) : Answers scfg stored content .operation d ∧
      ∃ ack, Carries ack 1 true false [] ∧ d.outbox = [(ack, scfg.clientAddress)] := by
  obtain ⟨src, htask⟩ := h.task
  obtain ⟨-, -, -, -, -, raw, hlast, hraw⟩ := hc.spec
  rw [Client.operationCode, htask] at hraw
  have hstarted := hd.spec (.inl rfl) ⟨raw, hlast, hraw⟩
  obtain ⟨hfile, hnamed, hsized⟩ := hstarted.unnamed
  obtain ⟨ack, hack, hout, hrep⟩ := hstarted.ack
  refine ⟨⟨⟨?_, fun hne ↦ absurd rfl hne, ?_, ?_⟩, by decide, hstarted.point,
    fun _ ↦ hstarted.number, fun _ o ho ↦ ?_, fun _ ↦ hfile, fun hne ↦ absurd rfl hne,
    fun hne ↦ absurd hstarted.reports hne⟩, ack, hack, hout⟩
  · rw [hfile]
    rintro _ ⟨⟩
  · rw [hnamed]
    rintro _ ⟨⟩
  · rw [hsized]
    rintro _ ⟨⟩
  · rw [hrep] at ho
    obtain rfl := Outbox.eq_of_mem_to ho
    exact hack

/-- The first ACK is answered, and every copy of an answer in flight may lead to all chunks. -/
theorem Setting.starts (h : Setting ccfg scfg name stored content) {disk : Disk} {c₀ : Client}
    {w : World Client ClientConnection Bytes Bytes} (hsource : c₀.file.content = content)
    (hw : Starts ccfg scfg disk c₀ w) :
    (lockstep h).Balanced (w.toLeft.length * (2 * total content)) w.journaled := by
  obtain ⟨hanswers, ack, hack, hout⟩ := h.connection_starts hw.client hw.connection
  refine .answered .start (h.client_starts hsource hw.client) hanswers ?_
    (hw.toLeft.weighs hout hack _) (le_of_eq ?_)
  · show ∀ m ∈ w.toRight, _
    rw [hw.toRight]
    rintro _ ⟨⟩
  · show 0 + (w.toRight.length * _ + _) = _ + 0
    rw [hw.toRight, List.length_nil, Nat.zero_mul, Nat.zero_add, Nat.zero_add]
    rfl

end Rdt.Saw.Upload
