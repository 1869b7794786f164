import Rdt.Gbn.Safety

/-!
# What has been sent when `send_file` returns

The run is that of a whole transfer, with a record of all the sending end has put on the
wire since it entered `send_file`.
-/

namespace Rdt.Gbn

open Duplex SlidingWindow

variable {content : Bytes} {σ first offset : Nat} {D : Discipline} {ccfg : Client.Config}
  {scfg : Server.Config}

/-! ## Past `send_file` -/

section Past

/-- The client of an upload has left `send_file`. -/
inductive PastSendFile (c : Client) : Prop
  | waiting (hp : c.point = .initiateCloseConnection)
  | finalizing (hp : c.point = .handleConnectionFinalization .exceptClause)
  | ended (hp : c.point = .ended)

theorem PastSendFile.of_leaving {c : Client} (h : c.Leaving) : PastSendFile c := by
  cases h with
  | finalizing hp => exact .finalizing hp
  | ended hp => exact .ended hp

theorem PastSendFile.step {c : Client} (h : PastSendFile c) (cfg : Client.Config) (ev : Event) :
    PastSendFile (c.step cfg ev) := by
  cases h with
  | ended hp => exact .of_leaving (Client.Leaving.step cfg (.ended hp) ev)
  | finalizing hp => exact .of_leaving (Client.Leaving.step cfg (.finalizing hp) ev)
  | waiting hp =>
      simp only [Client.step, Client.onEvent, hp, Client.listen]
      split
      · exact .waiting rfl
      · exact .of_leaving (Client.leaving_onFinOrAck cfg ev.now _ _)
      · exact .of_leaving (Client.leaving_onFinOrAck cfg ev.now _ _)

end Past

section ServerPast

open Server

/-- The connection of a download has left `send_file`. -/
inductive PastServerSendFile (c : ClientConnection) : Prop
  | waiting (hp : c.point = .closingHandshakeForDownload)
  | closing (hp : c.point = .initiateCloseConnection)
  | ended (hp : c.point = .ended)

theorem PastServerSendFile.of_leaving {c : ClientConnection} (h : c.Leaving) :
    PastServerSendFile c := by
  cases h with
  | closing hp => exact .closing hp
  | ended hp => exact .ended hp

theorem PastServerSendFile.step {c : ClientConnection} (h : PastServerSendFile c) (cfg : Config)
    (ev : Event) : PastServerSendFile (c.step cfg ev) := by
  cases h with
  | ended hp => exact .of_leaving (ClientConnection.Leaving.step (.ended hp) cfg ev)
  | closing hp => exact .of_leaving (ClientConnection.Leaving.step (.closing hp) cfg ev)
  | waiting hp =>
      simp only [ClientConnection.step, ClientConnection.onEvent, hp, ClientConnection.listen]
      split
      · exact .waiting rfl
      · exact .of_leaving (ClientConnection.leaving_completeDownload cfg ev.now _)
      · exact .of_leaving (ClientConnection.leaving_handle_error cfg ev.now _)

end ServerPast

/-! ## The open window behind a run -/

/-- As long as the sending end is not past `send_file` its window is open, and the record
of what it sent is the window's. -/
theorem open_or_past {τ : Type} {f : τ → Event → τ × List Bytes} {υ : Type}
    {events : Option Bytes → Set Event} {R : Node υ Bytes Bytes} {P : Transfer UInt8}
    (rl : Refines (.ofFun f events) (Sender.node P) toReply toData)
    (rr : Refines R (Receiver.node P) toData toReply) (hP : P.Counted) {past : τ → Prop}
    (hpast : ∀ {s}, past s → ∀ e, past (f s e).1)
    (hsplit : ∀ {s a}, rl.rel s a → a.phase ≠ .chaos → a.Open ∨ past s)
    {w w' : World (τ × List Bytes) υ Bytes Bytes}
    {v : World (Sender × List (Option (Data UInt8))) (Receiver UInt8) (Option (Data UInt8))
      (Option Reply)}
    (h : Related rl.logging rr w v) (hv : (openContract hP).Holds v) (hopen : v.left.1.Open)
    (hrun : (system D (.ofFun (logging f) events) R).Reaches w w') :
    past w'.left.1 ∨
      ∃ v', Related rl.logging rr w' v' ∧ (openContract hP).Holds v' ∧ v'.left.1.Open := by
  refine hrun.invariant (I := fun w ↦ past w.left.1 ∨
    ∃ v, Related rl.logging rr w v ∧ (openContract hP).Holds v ∧ v.left.1.Open) ?_
    (.inr ⟨v, h, hv, hopen⟩)
  intro w ℓ w' hI _ hs
  rcases hI with hp | ⟨v, h, hv, hopen⟩
  · left
    cases hs with
    | leftTakes ht hs =>
        obtain ⟨e, he, hs⟩ := hs
        obtain ⟨rfl, rfl⟩ := Prod.mk.inj hs
        exact hpast hp e
    | leftMoves hs =>
        obtain ⟨e, he, hs⟩ := hs
        obtain ⟨rfl, rfl⟩ := Prod.mk.inj hs
        exact hpast hp e
    | rightTakes | rightMoves | lose => exact hp
  · obtain ⟨v', hs', h'⟩ := Related.step h hs
    have hv' := hv.step (guard_trivial v _) hs'
    exact (hsplit h'.left.1 (sane_of_open hv hopen hs')).symm.imp id
      fun ho ↦ ⟨v', h', hv', ho⟩

/-! ## The moment `send_file` returns -/

/-- All chunks of the transfer are on the wire, and `number` is that of the last one. -/
structure SentWhole (P : Transfer UInt8) (wire : List Bytes) (number : SequenceNumber) : Prop where
  all : ∀ k, P.first ≤ k → k < P.total → ∃ raw ∈ wire, toData raw = some (P.chunk k)
  number : number = ⟨(P.chunk (P.total - 1)).number, .goBackN⟩

/-- The ACK that arrives names the last chunk, which the window does not reach yet. -/
def AcksUnsent (g : GoBackNSender) (j : Option Bytes) : Prop :=
  g.base + windowSize < g.totalChunks ∧ ∃ raw, j = some raw ∧
    (PacketParser.getPacketFromBytes (raw.take commsBufferSize)).ackNumber =
      some (g.offsetInitialSeqNumber.value + g.totalChunks - 1)

theorem Returns.stops_at {P : Transfer UInt8} {stops : Bool} {s : Sender}
    {i : Option (Option Reply)} {g' : GoBackNSender} (h : Returns P stops s i g') :
    ∃ s' early, Sender.Step P s i s' [] ∧ s'.phase = .closing early ∧
      (early = true → stops = true) ∧ Fields P g' s' := by
  cases h with
  | done early he hs hp hr hf => exact ⟨_, early, hs, hp, he, hf⟩
  | @told s' hs hp hf =>
      refine ⟨{ s' with reported := false }, false, hs false [] (by simp), hp, nofun, ?_⟩
      exact ⟨hf.base, hf.next, hf.ack, hf.offset, hf.chunks⟩

section Moment

variable {stops : Bool} {g g' : GoBackNSender} {s : Sender} {t : Receiver UInt8} {wire : List Bytes}
  {j : Option Bytes}

/-- It returns with the whole file sent, or else on an ACK of a last chunk it has not sent. -/
theorem Returns.next_eq (h : Returns (transfer content first offset) stops s (j.map toReply) g')
    (hgood : Good (transfer content first offset) False s t)
    (hi : ∀ m, j.map toReply = some m → ReplyOk (transfer content first offset) False s t m)
    (hopen : s.Open) (ht : Tracks (transfer content first offset) g s) :
    g'.returnedSequenceNumber = ⟨offset + s.next - 1, .goBackN⟩ ∧
      s.next = min (s.base + windowSize) (totalChunks content) ∧
      (s.next = totalChunks content ∨ stops = true ∧ AcksUnsent g j) := by
  obtain ⟨s', early, hs, hp, hearly, hf⟩ := h.stops_at
  obtain ⟨hnext, hmin, hcases⟩ := hgood.next_of_stop hi window_pos hopen hs hp
  have hmin : s.next = min (s.base + windowSize) (totalChunks content) := hmin
  refine ⟨?_, hmin, ?_⟩
  · rw [GoBackNSender.returnedSequenceNumber, hf.next, hf.offset, hnext, Nat.add_comm]
    rfl
  by_cases hall : s.next = totalChunks content
  · exact .inl hall
  obtain ⟨he, r, hr, hadv⟩ := hcases.resolve_left hall
  have hadv : s.advance (transfer content first offset) r + 1 = totalChunks content := hadv
  have hbase : s.base + windowSize < totalChunks content := by omega
  refine .inr ⟨hearly he, by rwa [ht.base, ht.totalChunks], ?_⟩
  obtain ⟨raw, rfl, hreply⟩ := Option.map_eq_some_iff.mp hr
  refine ⟨raw, rfl, ?_⟩
  have hack : r.ack = offset + totalChunks content - 1 := by
    have : 0 < windowSize := by decide
    unfold Sender.advance at hadv
    split at hadv
    · have hle : offset + s.base ≤ r.ack := ‹_›
      have : r.ack - offset + 1 = totalChunks content := hadv
      omega
    · omega
  unfold toReply at hreply
  split at hreply
  · cases hreply
  · obtain ⟨n, hn, rfl⟩ := Option.map_eq_some_iff.mp hreply
    rw [hn, ht.offset, ht.totalChunks]
    exact congrArg some hack

end Moment

theorem Tracks.opened {P : Transfer UInt8} {g : GoBackNSender} {s : Sender} (h : Tracks P g s) :
    s.Open := by
  have hphase := h.phase
  cases hg : g.point with
  | sendPacketsInWindow => exact .inl (by rw [hphase, hg, phaseOf])
  | awaitAckPhase => exact .inr (.inl (by rw [hphase, hg, phaseOf]))
  | waitForAck => exact .inr (.inr (by rw [hphase, hg, phaseOf]))

theorem Follows.returns {P : Transfer UInt8} {stops : Bool} {s : Sender}
    {i : Option (Option Reply)} {g' : GoBackNSender} (h : Follows P stops s i (.returned g'))
    (hsane : ¬Sender.Step P s i { s with phase := .chaos } []) : Returns P stops s i g' := by
  cases h with
  | returned h => exact h
  | chaos hs => exact absurd (hs []) hsane

/-! ## Whole runs -/

/-- A sending end that goes through `send_file` once: `sends` holds while it is there, `past`
from then on. -/
structure SendsOnce {τ : Type} {f : τ → Event → τ × List Bytes}
    {events : Option Bytes → Set Event} (P : Transfer UInt8)
    (rl : Refines (.ofFun f events) (Sender.node P) toReply toData)
    (sends : τ → GoBackNSender → Prop) (past : τ → Prop) : Prop where
  past_step : ∀ {s}, past s → ∀ e, past (f s e).1
  not_sends : ∀ {s g}, past s → ¬sends s g
  sends_or_past : ∀ {s a}, rl.rel s a → a.phase ≠ .chaos → (∃ g, Tracks P g a) ∨ past s
  tracks : ∀ {s a g}, rl.rel s a → a.phase ≠ .chaos → sends s g → Tracks P g a

section Runs

variable {τ υ : Type} {f : τ → Event → τ × List Bytes} {events : Option Bytes → Set Event}
  {R : Node υ Bytes Bytes} {sends : τ → GoBackNSender → Prop} {past : τ → Prop}
  {rl : Refines (.ofFun f events) (Sender.node (transfer content first offset)) toReply toData}
  {rr : Refines R (Receiver.node (transfer content first offset)) toData toReply}

/-- The window as `send_file` returns: still open, behind all that is on the wire. -/
structure Closes (P : Transfer UInt8) (stops : Bool) (wire : List Bytes) (g g' : GoBackNSender)
    (j : Option Bytes) (s : Sender) (t : Receiver UInt8) : Prop where
  good : Good P False s t
  arriving : ∀ m, j.map toReply = some m → ReplyOk P False s t m
  opened : s.Open
  tracks : Tracks P g s
  returns : Returns P stops s (j.map toReply) g'
  sent : Sent P s (wire.map toData)

/-- The window of a transfer that fits its numbers, behind the end that is in `send_file`. -/
theorem SendsOnce.window_of_fits (hl : SendsOnce (transfer content first offset) rl sends past)
    (hfirst : first < totalChunks content) (hoffset : 0 < offset)
    (hfit : offset + totalChunks content ≤ maxSequenceNumber + 2) {w₀ : World τ υ Bytes Bytes}
    (h₀ : Related rl rr w₀ (windowWorld (transfer content first offset) w₀))
    (hstale : Stale (transfer content first offset)
      (windowWorld (transfer content first offset) w₀))
    {w : World (τ × List Bytes) υ Bytes Bytes}
    (hrun : (system D (.ofFun (logging f) events) R).Reaches w₀.logged w) {g : GoBackNSender}
    (hg : sends w.left.1 g) :
    ∃ s t, Good (transfer content first offset) False s t ∧ s.Open ∧
      Tracks (transfer content first offset) g s ∧
      Sent (transfer content first offset) s (w.left.2.map toData) ∧
      ∀ raw ∈ w.toLeft, ReplyOk (transfer content first offset) False s t (toReply raw) := by
  have hP : (transfer content first offset).Counted := counted hfirst hoffset hfit
  obtain hpast | ⟨v, hrel, hv, hopen⟩ := open_or_past rl rr hP hl.past_step
    (fun hr hc ↦ (hl.sends_or_past hr hc).imp (fun ⟨_, ht⟩ ↦ ht.opened) id)
    (w := w₀.logged) (v := (windowWorld (transfer content first offset) w₀).logged)
    ⟨⟨h₀.left, rfl⟩, h₀.right, h₀.toRight, h₀.toLeft⟩
    (openContract_start hP rfl rfl
      (fun m hm ↦ (hstale.toRight m hm).imp fun _ h ↦ ⟨h.1, h.2.1⟩) hstale.toLeft) (.inl rfl) hrun
  · exact absurd hg (hl.not_sends hpast)
  obtain ⟨hgood, hsent⟩ := hv.inv hopen
  refine ⟨v.left.1, v.right, hgood, hopen, hl.tracks hrel.left.1 hopen.phase_ne.2.1 hg, ?_,
    fun raw hraw ↦ hv.onLeft _ ?_ hopen⟩
  · rw [← hrel.left.2]
    exact hsent
  · rw [hrel.toLeft]
    exact List.mem_map_of_mem hraw

/-- The window of a transfer that is too long for its numbers -/
theorem SendsOnce.window_of_overflows (hl : SendsOnce (transfer content first offset) rl sends past)
    (hoffset : 0 < offset)
    (hP : (transfer content first offset).Overflows (maxSequenceNumber + 1))
    {w₀ : World τ υ Bytes Bytes}
    (h₀ : Related rl rr w₀ (windowWorld (transfer content first offset) w₀))
    (hstale : Stale (transfer content first offset)
      (windowWorld (transfer content first offset) w₀))
    {w : World (τ × List Bytes) υ Bytes Bytes}
    (hrun : (system D (.ofFun (logging f) events) R).Reaches w₀.logged w) {g : GoBackNSender}
    (hg : sends w.left.1 g) :
    ∃ s t, Endless (transfer content first offset) (maxSequenceNumber + 1) s t ∧
      Tracks (transfer content first offset) g s ∧
      ∀ raw ∈ w.toLeft, ∃ r, toReply raw = some r ∧ r.ack ≤ maxSequenceNumber + 1 ∧
        r.bare = false := by
  have hstart := endlessContract_start hP
    (w := windowWorld (transfer content first offset) w₀) rfl rfl (Nat.add_pos_left hoffset _) hstale
  obtain ⟨v, -, hrel, hv⟩ := h₀.run (fun _ _ _ ↦ guard_trivial _ _) hstart
    (Reaches.unlogged hrun)
  refine ⟨v.left, v.right, hv.inv, hl.tracks hrel.left hv.inv.sender_sane.1 hg,
    fun raw hraw ↦ hv.onLeft _ ?_⟩
  rw [hrel.toLeft]
  exact List.mem_map_of_mem hraw

theorem SendsOnce.closes (hl : SendsOnce (transfer content first offset) rl sends past)
    (hfirst : first < totalChunks content) (hoffset : 0 < offset)
    (hlimit : offset + first ≤ maxSequenceNumber + 1) {w₀ : World τ υ Bytes Bytes}
    (h₀ : Related rl rr w₀ (windowWorld (transfer content first offset) w₀))
    (hstale : Stale (transfer content first offset)
      (windowWorld (transfer content first offset) w₀))
    {w : World (τ × List Bytes) υ Bytes Bytes}
    (hrun : (system D (.ofFun (logging f) events) R).Reaches w₀.logged w) {g g' : GoBackNSender}
    (hg : sends w.left.1 g) {j : Option Bytes} (hj : ∀ raw, j = some raw → raw ∈ w.toLeft)
    {stops : Bool} (hret : ∀ {s}, Tracks (transfer content first offset) g s →
      Follows (transfer content first offset) stops s (j.map toReply) (.returned g')) :
    ∃ s t, Closes (transfer content first offset) stops w.left.2 g g' j s t := by
  by_cases hfit : offset + totalChunks content ≤ maxSequenceNumber + 2
  · obtain ⟨s, t, hgood, hopen, ht, hsent, hleft⟩ :=
      hl.window_of_fits hfirst hoffset hfit h₀ hstale hrun hg
    have hi : ∀ m, j.map toReply = some m →
        ReplyOk (transfer content first offset) False s t m := by
      intro m hm
      obtain ⟨raw, hraw, rfl⟩ := Option.map_eq_some_iff.mp hm
      exact hleft raw (hj raw hraw)
    refine ⟨s, t, hgood, hi, hopen, ht, (hret ht).returns fun hs ↦ ?_, hsent⟩
    refine (hgood.sender_step (counted hfirst hoffset hfit) ?_ hi hs).1.sane.1 rfl
    rintro (h | ⟨_, h⟩) <;> cases h
  · have hP : (transfer content first offset).Overflows (maxSequenceNumber + 1) :=
      overflows hlimit (Nat.lt_of_not_le hfit)
    obtain ⟨s, t, hinv, ht, hleft⟩ := hl.window_of_overflows hoffset hP h₀ hstale hrun hg
    have hi : ∀ m, j.map toReply = some m →
        ∃ r, m = some r ∧ r.ack ≤ maxSequenceNumber + 1 ∧ r.bare = false := by
      intro m hm
      obtain ⟨raw, hraw, rfl⟩ := Option.map_eq_some_iff.mp hm
      exact hleft raw (hj raw hraw)
    obtain ⟨s', early, hs, hp, -⟩ :=
      ((hret ht).returns fun hs ↦ (hinv.sender_step hP hi hs).1.sender_sane.1 rfl).stops_at
    exact absurd hp ((hinv.sender_step hP hi hs).1.sender_sane.2 early)

/-- What is on its way to the end that is in `send_file` has an ACK number, which is not behind the
window if it is that of a FIN. -/
theorem SendsOnce.hears (hl : SendsOnce (transfer content first offset) rl sends past)
    (hfirst : first < totalChunks content) (hoffset : 0 < offset)
    (hlimit : offset + first ≤ maxSequenceNumber + 1) {w₀ : World τ υ Bytes Bytes}
    (h₀ : Related rl rr w₀ (windowWorld (transfer content first offset) w₀))
    (hstale : Stale (transfer content first offset)
      (windowWorld (transfer content first offset) w₀))
    {w : World (τ × List Bytes) υ Bytes Bytes}
    (hrun : (system D (.ofFun (logging f) events) R).Reaches w₀.logged w) {g : GoBackNSender}
    (hg : sends w.left.1 g) {raw : Bytes} (hraw : raw ∈ w.toLeft) :
    ∃ r, toReply raw = some r ∧ (r.bare = true → g.ackNumber.value ≤ r.ack) := by
  by_cases hfit : offset + totalChunks content ≤ maxSequenceNumber + 2
  · obtain ⟨s, t, hgood, -, ht, -, hleft⟩ :=
      hl.window_of_fits hfirst hoffset hfit h₀ hstale hrun hg
    have hack : g.ackNumber.value = offset + s.base := ht.ack
    have hbase : s.base < totalChunks content := hgood.base_lt
    have hreply := hleft raw hraw
    generalize toReply raw = m at hreply
    cases hreply with
    | stale _ _ hb => exact ⟨_, rfl, fun hbare ↦ (by rw [hb] at hbare; cases hbare)⟩
    | named _ _ ha _ hb =>
        refine ⟨_, rfl, fun hbare ↦ ?_⟩
        have hlast : _ = totalChunks content := (hb hbare).2
        have ha : _ = offset + _ := ha
        omega
  · obtain ⟨s, t, -, -, hleft⟩ := hl.window_of_overflows hoffset
      (overflows hlimit (Nat.lt_of_not_le hfit)) h₀ hstale hrun hg
    obtain ⟨r, hr, -, hbare⟩ := hleft raw hraw
    exact ⟨r, hr, fun h ↦ (by rw [hbare] at h; cases h)⟩

theorem Closes.sentWhole_iff {wire : List Bytes} {g g' : GoBackNSender} {stops : Bool}
    {j : Option Bytes} {s : Sender} {t : Receiver UInt8}
    (h : Closes (transfer content first offset) stops wire g g' j s t) :
    (SentWhole (transfer content first offset) wire g'.returnedSequenceNumber ↔ ¬AcksUnsent g j) ∧
      (stops = false → ¬AcksUnsent g j) := by
  obtain ⟨hgood, hi, hopen, ht, hret, hsent⟩ := h
  obtain ⟨hnumber, hmin, hcases⟩ := hret.next_eq hgood hi hopen ht
  have hunsent : AcksUnsent g j → s.next ≠ totalChunks content := by
    rintro ⟨hlt, -⟩
    rw [ht.base, ht.totalChunks] at hlt
    have hlt : s.base + windowSize < totalChunks content := hlt
    omega
  refine ⟨⟨fun hwhole hacks ↦ hunsent hacks ?_, fun hacks ↦ ?_⟩, fun hstops hacks ↦ ?_⟩
  · have hlast := hnumber.symm.trans hwhole.number
    have hlast : offset + s.next - 1 = offset + (totalChunks content - 1) :=
      congrArg SequenceNumber.value hlast
    have : 0 < windowSize := by decide
    have : s.base < totalChunks content := hgood.base_lt
    omega
  · have hall := hcases.resolve_right fun h ↦ hacks h.2
    refine ⟨fun k hk hlt ↦ ?_, ?_⟩
    · have hlt : k < s.next := by
        rw [hall]
        exact hlt
      exact List.mem_map.mp (hsent.all k hk hlt)
    · have : 0 < totalChunks content := Nat.zero_lt_of_lt hgood.base_lt
      rw [hnumber, hall]
      show (⟨offset + totalChunks content - 1, .goBackN⟩ : SequenceNumber) =
        ⟨offset + (totalChunks content - 1), .goBackN⟩
      rw [Nat.add_sub_assoc this]
  · obtain hall | ⟨hstops', -⟩ := hcases
    · exact hunsent hacks hall
    · exact absurd (hstops.symm.trans hstops') nofun

end Runs

theorem client_sendsOnce (hc : ccfg.protocolVersion = .goBackN)
    (ht : ∃ src name, ccfg.task = .upload src name) {peer : Address} (hport : peer.port ≠ 0) :
    SendsOnce (f := Client.react ccfg peer) (transfer content first offset)
      (clientRefines content first offset peer hport hc ht) (fun c g ↦ c.point = .sendFileGbn g)
      PastSendFile where
  past_step h ev := h.step ccfg ev
  not_sends h hg := by cases h <;> (rename_i hp; cases hp.symm.trans hg)
  sends_or_past h hsane := by
    cases (h.resolve_right hsane).at_point with
    | sending hp ht => exact .inl ⟨_, ht⟩
    | waiting hp => exact .inr (.waiting hp)
    | finalizing hp => exact .inr (.finalizing hp)
    | ended hp => exact .inr (.ended hp)
  tracks h hsane hg := (h.resolve_right hsane).tracks hg

theorem server_sendsOnce (hs : scfg.protocolVersion = .goBackN) :
    SendsOnce (f := Server.ClientConnection.react scfg) (transfer content first offset)
      (serverRefines content first offset hs) (fun c g ↦ c.point = .sendFileGbn g)
      PastServerSendFile where
  past_step h ev := h.step scfg ev
  not_sends h hg := by cases h <;> (rename_i hp; cases hp.symm.trans hg)
  sends_or_past h hsane := by
    cases (h.resolve_right hsane).at_point with
    | sending hp ht => exact .inl ⟨_, ht⟩
    | waiting _ hp => exact .inr (.waiting hp)
    | ended hp => exact .inr (.ended hp)
  tracks h hsane hg := (h.resolve_right hsane).tracks hg

/-- The same systems with a record of what the sending end puts on the wire. -/
def recordedUpload (D : Discipline) (ccfg : Client.Config) (scfg : Server.Config) :
    Lts (World (Client × List Bytes) Server.ClientConnection Bytes Bytes) (Label Bytes Bytes) :=
  system D (.ofFun (logging (Client.react ccfg scfg.address)) (arrivals scfg.address))
    (Server.ClientConnection.node scfg)

def recordedDownload (D : Discipline) (ccfg : Client.Config) (scfg : Server.Config) :
    Lts (World (Server.ClientConnection × List Bytes) Client Bytes Bytes) (Label Bytes Bytes) :=
  system D
    (.ofFun (logging (Server.ClientConnection.react scfg)) (arrivals scfg.clientAddress))
    (Client.node ccfg scfg.address)

theorem UploadStarts.closes {w : World Client Server.ClientConnection Bytes Bytes}
    (h : UploadStarts ccfg scfg content σ w) (hcontent : content ≠ [])
    {w' : World (Client × List Bytes) Server.ClientConnection Bytes Bytes}
    (hrun : (recordedUpload D ccfg scfg).Reaches w.logged w') {g g' : GoBackNSender}
    (hg : w'.left.1.point = .sendFileGbn g) {j : Option Bytes}
    (hj : ∀ raw, j = some raw → raw ∈ w'.toLeft) {ev : Event} (hev : ev ∈ arrivals scfg.address j)
    (hret : clientSendFile ccfg g ev = some (.returned g')) :
    ∃ s t, Closes (uploadTransfer content σ) false w'.left.2 g g' j s t :=
  (client_sendsOnce h.client.proto h.client.task scfg.portBound).closes
    (totalChunks_pos hcontent) (Nat.succ_pos σ) (Nat.succ_le_succ h.agree.2) (h.follows hcontent)
    (stale_windowWorld (Nat.lt_succ_self σ) h.toRight h.toLeft) hrun hg hj
    fun ht ↦ ht.clientSendFile hev hret

theorem DownloadStarts.closes {w : World Server.ClientConnection Client Bytes Bytes}
    (h : DownloadStarts ccfg scfg content σ w) (hcontent : 1 < totalChunks content)
    {w' : World (Server.ClientConnection × List Bytes) Client Bytes Bytes}
    (hrun : (recordedDownload D ccfg scfg).Reaches w.logged w') {g g' : GoBackNSender}
    (hg : w'.left.1.point = .sendFileGbn g) {j : Option Bytes}
    (hj : ∀ raw, j = some raw → raw ∈ w'.toLeft) {ev : Event}
    (hev : ev ∈ arrivals scfg.clientAddress j)
    (hret : serverSendFile scfg g ev = some (.returned g')) :
    ∃ s t, Closes (downloadTransfer content σ) true w'.left.2 g g' j s t :=
  (server_sendsOnce h.server.proto).closes hcontent h.agree.1 (Nat.succ_le_succ h.agree.2)
    (h.follows hcontent) (stale_windowWorld (Nat.lt_succ_self σ) h.toRight h.toLeft) hrun hg hj
    fun ht ↦ ht.serverSendFile hev hret

/-- Whenever `send_file` returns it has sent the whole file; on the server's side, exactly if it
does not return on an ACK of a last chunk that it has not sent. -/
theorem returns_with_whole_file_iff (content : Bytes) (σ : Nat) (D : Discipline)
    (ccfg : Client.Config) (scfg : Server.Config) :
    (∀ w w' g g' j ev, UploadStarts ccfg scfg content σ w → content ≠ [] →
      (recordedUpload D ccfg scfg).Reaches w.logged w' → w'.left.1.point = .sendFileGbn g →
      (∀ raw, j = some raw → raw ∈ w'.toLeft) → ev ∈ arrivals scfg.address j →
      clientSendFile ccfg g ev = some (.returned g') →
      SentWhole (uploadTransfer content σ) w'.left.2 g'.returnedSequenceNumber) ∧
    (∀ w w' g g' j ev, DownloadStarts ccfg scfg content σ w → 1 < totalChunks content →
      (recordedDownload D ccfg scfg).Reaches w.logged w' → w'.left.1.point = .sendFileGbn g →
      (∀ raw, j = some raw → raw ∈ w'.toLeft) → ev ∈ arrivals scfg.clientAddress j →
      serverSendFile scfg g ev = some (.returned g') →
      (SentWhole (downloadTransfer content σ) w'.left.2 g'.returnedSequenceNumber ↔
        ¬AcksUnsent g j)) := by
  refine ⟨fun w w' g g' j ev h hcontent hrun hg hj hev hret ↦ ?_,
    fun w w' g g' j ev h hcontent hrun hg hj hev hret ↦ ?_⟩
  · obtain ⟨s, t, hclose⟩ := h.closes hcontent hrun hg hj hev hret
    exact hclose.sentWhole_iff.1.mpr (hclose.sentWhole_iff.2 rfl)
  · obtain ⟨s, t, hclose⟩ := h.closes hcontent hrun hg hj hev hret
    exact hclose.sentWhole_iff.1

/-! ### Runs to the moment -/

theorem Local.exists_recordedUpload (content : Bytes) (moves : List Move)
    {p : World (Client × List Bytes) Server.ClientConnection Bytes Bytes → Prop} [DecidablePred p]
    (h : (moves.foldlM (play (logging (Client.react Local.uploader Local.connectionAddress))
      (Server.ClientConnection.react (Local.connection uploadOperation)) Local.connectionAddress
      Local.clientAddress fun _ _ ↦ True) (Local.upload content).logged).any (p ·)) :
    ∃ w', (recordedUpload .fifo Local.uploader (Local.connection uploadOperation)).Reaches
      (Local.upload content).logged w' ∧ p w' := exists_run h

theorem Local.exists_recordedDownload (content : Bytes) (moves : List Move)
    {p : World (Server.ClientConnection × List Bytes) Client Bytes Bytes → Prop} [DecidablePred p]
    (h : (moves.foldlM (play (logging (Server.ClientConnection.react
      (Local.connection downloadOperation))) (Client.react Local.downloader Local.connectionAddress)
      Local.clientAddress Local.connectionAddress fun _ _ ↦ True)
      (Local.download content).logged).any (p ·)) :
    ∃ w', (recordedDownload .fifo Local.downloader (Local.connection downloadOperation)).Reaches
      (Local.download content).logged w' ∧ p w' := exists_run h

def Local.resultOf : GoBackNSender.Result → Option GoBackNSender
  | .returned g => some g
  | _ => none

def Local.clientAtSender (c : Client) : Option GoBackNSender :=
  match c.point with
  | .sendFileGbn g => some g
  | _ => none

def Local.connectionAtSender (c : Server.ClientConnection) : Option GoBackNSender :=
  match c.point with
  | .sendFileGbn g => some g
  | _ => none

theorem Local.of_resultOf {o : Option GoBackNSender.Result} {g : GoBackNSender}
    (h : o.bind Local.resultOf = some g) : o = some (.returned g) := by
  obtain ⟨r, rfl, hr⟩ := Option.bind_eq_some_iff.mp h
  cases r with
  | returned g' => rw [Option.some.inj hr]
  | running => cases hr
  | raised => cases hr

theorem Local.of_clientAtSender {c : Client} {g : GoBackNSender}
    (h : Local.clientAtSender c = some g) : c.point = .sendFileGbn g := by
  unfold Local.clientAtSender at h
  split at h
  · rename_i hp
    rw [hp, Option.some.inj h]
  · cases h

theorem Local.of_connectionAtSender {c : Server.ClientConnection} {g : GoBackNSender}
    (h : Local.connectionAtSender c = some g) : c.point = .sendFileGbn g := by
  unfold Local.connectionAtSender at h
  split at h
  · rename_i hp
    rw [hp, Option.some.inj h]
  · cases h

theorem returns_with_whole_file_short :
    (∃ (w' : World (Client × List Bytes) Server.ClientConnection Bytes Bytes) (g' : GoBackNSender),
      SentWhole (uploadTransfer [7] 3) w'.left.2 g'.returnedSequenceNumber) ∧
    ∃ (w' : World (Server.ClientConnection × List Bytes) Client Bytes Bytes)
      (g g' : GoBackNSender),
      SentWhole (downloadTransfer (List.replicate 1417 7) 2) w'.left.2 g'.returnedSequenceNumber ↔
        ¬AcksUnsent g none := by
  constructor
  · obtain ⟨w', hrun, hp⟩ := Local.exists_recordedUpload [7] [.leftProceeds, .leftProceeds]
      (p := fun w' ↦ (Local.clientAtSender w'.left.1).any fun g ↦
        ((clientSendFile Local.uploader g (.proceed 0)).bind Local.resultOf).isSome)
      (by decide +kernel)
    obtain ⟨g, hg, hret⟩ := (Option.any_eq_true _ _).mp hp
    obtain ⟨g', hret⟩ := Option.isSome_iff_exists.mp hret
    exact ⟨w', g', (returns_with_whole_file_iff [7] 3 .fifo Local.uploader
      (Local.connection uploadOperation)).1 _ w' g g' none (.proceed 0)
      (Local.upload_starts (by decide)) (by decide) hrun (Local.of_clientAtSender hg) nofun
      ⟨0, .inr rfl⟩ (Local.of_resultOf hret)⟩
  · obtain ⟨w', hrun, hp⟩ := Local.exists_recordedDownload (List.replicate 1417 7)
      [.leftProceeds, .leftProceeds]
      (p := fun w' ↦ (Local.connectionAtSender w'.left.1).any fun g ↦
        ((serverSendFile (Local.connection downloadOperation) g (.proceed 0)).bind
          Local.resultOf).isSome)
      (by decide +kernel)
    obtain ⟨g, hg, hret⟩ := (Option.any_eq_true _ _).mp hp
    obtain ⟨g', hret⟩ := Option.isSome_iff_exists.mp hret
    exact ⟨w', g, g', (returns_with_whole_file_iff (List.replicate 1417 7) 2 .fifo Local.downloader
      (Local.connection downloadOperation)).2 _ w' g g' none (.proceed 0)
      (Local.download_starts (by decide +kernel)) (by decide +kernel) hrun
      (Local.of_connectionAtSender hg) nofun ⟨0, .inr rfl⟩ (Local.of_resultOf hret)⟩

/-- Eleven chunks are left to send and the window holds ten.  In a first round only its first
packet gets through, in a second one all of them, but of the answers only the last; so the
receiver, which gets the first packet once more, says that it waits for the last chunk. -/
def staleAckSchedule : List Move :=
  let window : List Move := .replicate 12 .leftProceeds
  window ++ .rightTakes :: .replicate 9 .loseToRight ++ .leftTimeout :: window ++
    .replicate 10 .rightTakes ++ .replicate 10 .loseToLeft ++ .leftTimeout :: window ++
    [.rightTakes]

theorem not_returns_with_whole_file :
    let content : Bytes := .replicate 15577 7
    let scfg := Local.connection downloadOperation
    DownloadStarts Local.downloader scfg content 2 (Local.download content) ∧
      1 < totalChunks content ∧
      ∃ w' g g' raw, (recordedDownload .fifo Local.downloader scfg).Reaches
          (Local.download content).logged w' ∧
        w'.left.1.point = .sendFileGbn g ∧ raw ∈ w'.toLeft ∧
        serverSendFile scfg g (.datagram raw (some scfg.clientAddress) 0) = some (.returned g') ∧
        ¬SentWhole (downloadTransfer content 2) w'.left.2 g'.returnedSequenceNumber := by
  have hcontent : 1 < totalChunks (.replicate 15577 7) := by
    rw [totalChunks, chunksOf, FileHandler.length_successiveReads]
    decide +kernel
  refine ⟨Local.download_starts hcontent, hcontent, ?_⟩
  obtain ⟨w', hrun, hp⟩ := Local.exists_recordedDownload (.replicate 15577 7) staleAckSchedule
    (p := fun w' ↦ (Local.connectionAtSender w'.left.1).any fun g ↦ w'.toLeft.head?.any fun raw ↦
      ((serverSendFile (Local.connection downloadOperation) g
        (.datagram raw (some Local.clientAddress) 0)).bind Local.resultOf).any fun g' ↦
          g'.returnedSequenceNumber.value ≠
            ((downloadTransfer (.replicate 15577 7) 2).chunk
              ((downloadTransfer (.replicate 15577 7) 2).total - 1)).number)
    (by decide +kernel)
  obtain ⟨g, hg, hp⟩ := (Option.any_eq_true _ _).mp hp
  obtain ⟨raw, hraw, hp⟩ := (Option.any_eq_true _ _).mp hp
  obtain ⟨g', hret, hp⟩ := (Option.any_eq_true _ _).mp hp
  exact ⟨w', g, g', raw, hrun, Local.of_connectionAtSender hg, List.mem_of_mem_head? hraw,
    Local.of_resultOf hret,
    fun h ↦ absurd (congrArg SequenceNumber.value h.number) (of_decide_eq_true hp)⟩

end Rdt.Gbn
