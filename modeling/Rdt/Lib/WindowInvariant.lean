import Mathlib.Data.List.TakeDrop
import Rdt.Lib.SlidingWindow

/-!
# Safety of the sliding window

The invariant of sender and receiver and what it lets be in flight, as a contract.  `exact`
stands for runs in which the receiver answers nothing unexpected while only the last chunk
is missing; without it the sender may take such an answer for the end.
-/

namespace Rdt.SlidingWindow

open Duplex

variable {β : Type} (P : Transfer β) (exact : Prop)

/-- Neither counter wraps around before the last chunk. -/
structure Transfer.Counted : Prop where
  first_lt : P.first < P.total
  window_pos : 0 < P.window
  nonempty : ∀ c ∈ P.chunks, c ≠ []
  offset_pos : 0 < P.offset + P.first
  next : ∀ v < P.total, P.bump v = v + 1
  number : ∀ v, v + 1 < P.offset + P.total → P.bump v = v + 1

/-- Nor behind it, or not to a number of the transfer. -/
def Transfer.After : Prop :=
  P.bump (P.offset + P.total - 1) = P.offset + P.total ∨
    (exact ∧ P.bump (P.offset + P.total - 1) < P.offset + P.first)

/-- Neither counter wraps around before the transfer is over. -/
structure Transfer.Numbered : Prop extends Transfer.Counted P where
  after : P.After exact

/-! ## Pieces -/

@[simp] theorem push_nil (pieces : List (List β)) : push pieces [] = pieces := rfl

theorem push_of_ne_nil {pieces : List (List β)} {payload : List β} (h : payload ≠ []) :
    push pieces payload = pieces ++ [payload] := by
  cases payload with
  | nil => exact absurd rfl h
  | cons => rfl

/-- Pushing the next chunk makes a prefix one longer. -/
theorem push_chunk {chunks : List (List β)} (hne : ∀ c ∈ chunks, c ≠ []) {k : Nat}
    (hk : k < chunks.length) :
    push (chunks.take k) (chunks.getD k []) = chunks.take (k + 1) := by
  have hget : chunks.getD k [] = chunks[k] := by simp [List.getD, hk]
  rw [hget, push_of_ne_nil (hne _ (List.getElem_mem hk)), List.take_succ_eq_append_getElem hk]

/-! ## The invariant -/

structure Good (s : Sender) (t : Receiver β) : Prop where
  pieces : t.pieces = P.chunks.take t.pieces.length
  first_le : P.first ≤ s.base
  base_le : s.base ≤ t.pieces.length
  base_lt : s.base < P.total
  ahead : t.pieces.length ≤ s.base + P.window
  base_le_next : s.base ≤ s.next
  next_le : s.next ≤ P.total
  next_le_window : s.next ≤ s.base + P.window
  full : s.phase = .await ∨ s.phase = .blocked → s.windowFull P
  blocked : s.phase = .blocked → s.base + 1 ≠ P.total
  closing : ∀ early, s.phase = .closing early →
    P.total ≤ s.next + 1 ∧ (early = false ∨ exact → s.next = P.total)
  sane : s.phase ≠ .chaos ∧ t.phase ≠ .chaos
  first : t.phase = .first → t.number + 1 = P.offset + P.first ∧ t.pieces.length = P.first
  loop : t.phase = .loop →
    (t.number = P.offset + t.pieces.length ∧ t.pieces.length < P.total) ∨
      (¬exact ∧ s.Closed ∧ s.next + 1 = P.total ∧ t.pieces.length + 1 = P.total ∧
        t.number = P.offset + P.total)
  finished : t.phase = .finished → t.pieces.length = P.total ∧ t.number + 1 = P.offset + P.total
  told : exact → s.reported → t.pieces.length = P.total

/-- What may be on its way to the receiver: what was sent before the transfer, a chunk of
the window or an earlier one, or the last words of a sender that is through. -/
inductive DataOk (s : Sender) : Option (Data β) → Prop
  | stale {d : Data β} (hd : d.number < P.offset + P.first) : DataOk s (some d)
  | chunk {i : Nat} (hb : i < s.base + P.window) (hn : i < P.total) : DataOk s (some (P.chunk i))
  | control {d : Data β} (hs : s.Closed) (hp : d.payload = []) (hd : d.number = P.offset + s.next)
      (hn : P.total ≤ s.next + 1) (hl : d.last ∨ exact → s.next = P.total) : DataOk s (some d)

/-- What may be on its way to the sender: what was sent before the transfer, or an answer
that names a chunk taken or the one waited for. -/
inductive ReplyOk (s : Sender) (t : Receiver β) : Option Reply → Prop
  | stale {r : Reply} (hr : r.number < P.offset + P.first) (ha : r.ack < P.offset + P.first)
      (hb : r.bare = false) : ReplyOk s t (some r)
  | named {r : Reply} {j : Nat} (hj : P.first ≤ j) (hr : r.number = P.offset + j)
      (ha : r.ack = P.offset + j)
      (hR : (j ≤ t.pieces.length ∧ j < P.total) ∨ (¬exact ∧ s.Closed ∧ j = P.total))
      (hb : r.bare → t.pieces.length = P.total ∧ j + 1 = P.total)
      (he : exact → j + 1 = P.total → t.pieces.length = P.total) : ReplyOk s t (some r)

variable {P exact} {s s' : Sender} {t t' : Receiver β}

theorem Good.length_le (h : Good P exact s t) : t.pieces.length ≤ P.total := by
  have := congrArg List.length h.pieces
  rw [List.length_take] at this
  exact this ▸ Nat.min_le_right _ _

theorem not_closed {s : Sender} (h : s.phase = .window ∨ s.phase = .await ∨ s.phase = .blocked) :
    ¬s.Closed := by
  rintro (hd | ⟨early, hd⟩) <;> rcases h with h | h | h <;> rw [h] at hd <;> cases hd

/-- A full window reaches as far as it can. -/
theorem Good.next_eq (h : Good P exact s t) (hf : s.windowFull P) :
    s.next = min (s.base + P.window) P.total := by
  have := h.next_le
  have := h.next_le_window
  unfold Sender.windowFull at hf
  omega

/-! ## What is in flight stays allowed -/

theorem DataOk.mono {m : Option (Data β)} (h : DataOk P exact s m) (hb : s.base ≤ s'.base)
    (hc : s.Closed → s'.Closed ∧ s'.next = s.next) : DataOk P exact s' m := by
  cases h with
  | stale hd => exact .stale hd
  | chunk hi hn => exact .chunk (by omega) hn
  | control hs hp hd hn hl =>
      obtain ⟨hs', hnext⟩ := hc hs
      exact .control hs' hp (hnext ▸ hd) (hnext ▸ hn) (hnext ▸ hl)

theorem ReplyOk.mono {m : Option Reply} (h : ReplyOk P exact s t m)
    (hR : t.pieces.length ≤ t'.pieces.length) (hR' : t'.pieces.length ≤ P.total)
    (hc : s.Closed → s'.Closed) : ReplyOk P exact s' t' m := by
  cases h with
  | stale hr ha hb => exact .stale hr ha hb
  | named hj hr ha hR'' hb he =>
      refine .named hj hr ha ?_ (fun hbare ↦ ?_) fun hex hjN ↦ ?_
      · exact hR''.imp (fun h ↦ ⟨le_trans h.1 hR, h.2⟩) fun h ↦ ⟨h.1, hc h.2.1, h.2.2⟩
      · have := hb hbare
        exact ⟨by omega, this.2⟩
      · have := he hex hjN
        omega

/-! ## The sender's steps -/

/-- How far an answer may move the window. -/
theorem ReplyOk.advance {r : Reply} (h : Good P exact s t) (hp : s.phase = .blocked)
    (hr : ReplyOk P exact s t (some r)) :
    s.base ≤ s.advance P r ∧ s.advance P r ≤ t.pieces.length ∧ s.advance P r < P.total ∧
      (exact ∨ r.bare → s.advance P r + 1 = P.total → t.pieces.length = P.total) := by
  have hbase := h.base_le
  have hlt := h.base_lt
  have hb := h.blocked hp
  have hf := h.first_le
  cases hr with
  | stale hn ha hbare =>
      have hadv : s.advance P r = s.base := if_neg (by omega)
      rw [hadv]
      exact ⟨le_refl _, hbase, hlt, fun _ hN ↦ absurd hN hb⟩
  | @named _ j hj hn ha hR hbare he =>
      have hR : j ≤ t.pieces.length ∧ j < P.total :=
        hR.resolve_right fun hc ↦ not_closed (.inr (.inr hp)) hc.2.1
      unfold Sender.advance
      split
      · have hadv : r.ack - P.offset = j := by omega
        rw [hadv]
        exact ⟨by omega, hR.1, hR.2,
          fun hor hN ↦ hor.elim (fun hex ↦ he hex hN) fun hb ↦ (hbare hb).1⟩
      · exact ⟨le_refl _, hbase, hlt, fun _ hN ↦ absurd hN hb⟩

/-- An answer that tells that all is done names the last chunk. -/
theorem ReplyOk.not_lies {r : Reply} (hr : ReplyOk P exact s t (some r)) : ¬Sender.Lies P r := by
  rintro ⟨hbare, hack⟩
  cases hr with
  | stale hn ha hb => rw [hb] at hbare; cases hbare
  | named hj hn ha hR hb he =>
      have := hb hbare
      omega

/-- What a closing sender says is allowed. -/
theorem Good.tells (hP : P.Counted) (hafter : P.After exact) (h : Good P exact s t) {early : Bool}
    (hp : s.phase = .closing early) {o : Option (Data β)} (ho : Sender.Says P s o) :
    DataOk P exact s o := by
  obtain ⟨hnext, hfull⟩ := h.closing early hp
  have hfirst := hP.first_lt
  have hpos := hP.offset_pos
  have hle := h.next_le
  cases ho with
  | chunk hb hn => exact .chunk hb hn
  | @control d hd hpay hl =>
      by_cases hN : s.next = P.total
      · rcases hafter with ha | ⟨_, ha⟩
        · exact .control (.inr ⟨early, hp⟩) hpay (by rw [hd, hN, ha]) hnext fun _ ↦ hN
        · exact .stale (by rw [hd, hN]; exact ha)
      · have hbump : P.bump (P.offset + s.next - 1) = P.offset + s.next - 1 + 1 :=
          hP.number _ (by omega)
        by_cases hz : P.offset + s.next = 0
        · omega
        · refine .control (.inr ⟨early, hp⟩) hpay (by omega) hnext fun hor ↦ ?_
          refine hfull (hor.imp (fun hlast ↦ ?_) id)
          cases early with
          | false => rfl
          | true => exact absurd hp (hl hlast)

/-- A sender that is not through may move anywhere within these bounds. -/
theorem Good.moved (h : Good P exact s t) (hs : ¬s.Closed) (hb : s.base ≤ s'.base)
    (hR : s'.base ≤ t.pieces.length) (hlt : s'.base < P.total) (hn : s'.base ≤ s'.next)
    (hn' : s'.next ≤ P.total) (hw : s'.next ≤ s'.base + P.window)
    (hfull : s'.phase = .await ∨ s'.phase = .blocked → s'.windowFull P)
    (hblocked : s'.phase = .blocked → s'.base + 1 ≠ P.total)
    (hclosing : ∀ early, s'.phase = .closing early →
      P.total ≤ s'.next + 1 ∧ (early = false ∨ exact → s'.next = P.total))
    (hsane : s'.phase ≠ .chaos) (htold : exact → s'.reported → t.pieces.length = P.total) :
    Good P exact s' t :=
  { pieces := h.pieces
    first_le := le_trans h.first_le hb
    base_le := hR
    base_lt := hlt
    ahead := le_trans h.ahead (Nat.add_le_add_right hb _)
    base_le_next := hn
    next_le := hn'
    next_le_window := hw
    full := hfull
    blocked := hblocked
    closing := hclosing
    sane := ⟨hsane, h.sane.2⟩
    first := h.first
    loop := fun hl ↦ .inl ((h.loop hl).resolve_right fun hc ↦ hs hc.2.1)
    finished := h.finished
    told := htold }

/-- What a step of the sender keeps. -/
theorem Good.sender_step (hP : P.Counted) (hafter : s'.Closed → P.After exact)
    {i : Option (Option Reply)} {outs : List (Option (Data β))} (h : Good P exact s t)
    (hi : ∀ m, i = some m → ReplyOk P exact s t m) (hs : Sender.Step P s i s' outs) :
    Good P exact s' t ∧ (∀ o ∈ outs, DataOk P exact s' o) ∧ s.base ≤ s'.base ∧
      (s.Closed → s'.Closed ∧ s'.next = s.next) := by
  have hfull : ∀ {b : Nat}, s.phase = .blocked → s.base ≤ b → b ≤ t.pieces.length →
      s.next ≤ b + P.window ∧ b ≤ s.next ∧ (t.pieces.length = P.total → s.next = P.total) ∧
        t.pieces.length ≤ s.next := by
    intro b hp hb hR
    have hnext := h.next_eq (h.full (.inr hp))
    have := h.ahead
    have := h.length_le
    have := h.next_le_window
    omega
  cases hs with
  | stutter => exact ⟨h, by simp, le_refl _, fun hc ↦ ⟨hc, rfl⟩⟩
  | die =>
      refine ⟨{ h with
        full := by rintro (hp | hp) <;> cases hp
        blocked := nofun
        closing := nofun
        sane := ⟨nofun, h.sane.2⟩
        loop := fun hl ↦ (h.loop hl).imp_right fun hc ↦ ⟨hc.1, .inl rfl, hc.2.2⟩ },
        by simp, le_refl _, fun _ ↦ ⟨.inl rfl, rfl⟩⟩
  | send hp hw hn =>
      have hopen := not_closed (.inl hp)
      have hbump := hP.next _ hn
      have hge := h.base_le_next
      refine ⟨h.moved hopen (le_refl _) h.base_le h.base_lt ?_ ?_ ?_ ?_ ?_ ?_ ?_ h.told, ?_,
        le_refl _, fun hc ↦ absurd hc hopen⟩
      · dsimp only
        omega
      · dsimp only
        omega
      · dsimp only
        omega
      · rw [hp]
        rintro (hp | hp) <;> cases hp
      · rw [hp]
        nofun
      · rw [hp]
        nofun
      · rw [hp]
        nofun
      · rintro o ho
        rw [List.mem_singleton.mp ho]
        exact .chunk hw hn
  | await hp hw =>
      have hopen := not_closed (.inl hp)
      exact ⟨h.moved hopen (le_refl _) h.base_le h.base_lt h.base_le_next h.next_le
        h.next_le_window (fun _ ↦ hw) nofun nofun nofun h.told, by simp, le_refl _,
        fun hc ↦ absurd hc hopen⟩
  | block hp hb =>
      have hopen := not_closed (.inr (.inl hp))
      exact ⟨h.moved hopen (le_refl _) h.base_le h.base_lt h.base_le_next h.next_le
        h.next_le_window (fun _ ↦ h.full (.inl hp)) (fun _ ↦ hb) nofun nofun h.told, by simp,
        le_refl _, fun hc ↦ absurd hc hopen⟩
  | complete hp hb =>
      have hopen := not_closed (.inr (.inl hp))
      have hnext := h.next_eq (h.full (.inl hp))
      have hwin := hP.window_pos
      refine ⟨h.moved hopen (le_refl _) h.base_le h.base_lt h.base_le_next h.next_le
        h.next_le_window ?_ nofun ?_ nofun h.told, by simp, le_refl _,
        fun hc ↦ absurd hc hopen⟩
      · rintro (hp | hp) <;> cases hp
      · intro early _
        have hN : s.next = P.total := by omega
        exact ⟨by dsimp only; omega, fun _ ↦ hN⟩
  | timeout hp =>
      have hopen := not_closed (.inr (.inr hp))
      refine ⟨h.moved hopen (le_refl _) h.base_le h.base_lt (le_refl _) (le_of_lt h.base_lt)
        (Nat.le_add_right _ _) ?_ nofun nofun nofun h.told, by simp, le_refl _,
        fun hc ↦ absurd hc hopen⟩
      rintro (hp | hp) <;> cases hp
  | answer r hp =>
      have hopen := not_closed (.inr (.inr hp))
      obtain ⟨hb, hR, hlt, -⟩ := (hi _ rfl).advance h hp
      obtain ⟨hw, hn, -⟩ := hfull hp hb hR
      refine ⟨h.moved hopen hb hR hlt hn h.next_le hw ?_ nofun nofun nofun h.told, by simp, hb,
        fun hc ↦ absurd hc hopen⟩
      rintro (hp | hp) <;> cases hp
  | again r hp =>
      have hopen := not_closed (.inr (.inr hp))
      obtain ⟨hb, hR, hlt, -⟩ := (hi _ rfl).advance h hp
      refine ⟨h.moved hopen hb hR hlt (le_refl _) (le_of_lt hlt) (Nat.le_add_right _ _) ?_ nofun
        nofun nofun h.told, by simp, hb, fun hc ↦ absurd hc hopen⟩
      rintro (hp | hp) <;> cases hp
  | stop r hp hN =>
      have hopen := not_closed (.inr (.inr hp))
      obtain ⟨hb, hR, hlt, hall⟩ := (hi _ rfl).advance h hp
      obtain ⟨hw, hn, hdone, hRn⟩ := hfull hp hb hR
      refine ⟨h.moved hopen hb hR hlt hn h.next_le hw ?_ nofun ?_ nofun h.told, by simp, hb,
        fun hc ↦ absurd hc hopen⟩
      · rintro (hp | hp) <;> cases hp
      · rintro _ ⟨⟩
        exact ⟨by dsimp only; omega, fun hor ↦ hdone (hall (.inl (hor.resolve_left nofun)) hN)⟩
  | told r reported hp hbare houts =>
      have hopen := not_closed (.inr (.inr hp))
      obtain ⟨hb, hR, hlt, hall⟩ := (hi _ rfl).advance h hp
      obtain ⟨hw, hn, hdone, hRn⟩ := hfull hp hb hR
      have hRN : t.pieces.length = P.total := by
        cases hi _ rfl with
        | stale _ _ hb => rw [hb] at hbare; cases hbare
        | named _ _ _ _ hb _ => exact (hb hbare).1
      have hgood : Good P exact
          { s with base := s.advance P r, phase := .closing false, reported } t := by
        refine h.moved hopen hb hR hlt hn h.next_le hw ?_ nofun ?_ nofun fun _ _ ↦ hRN
        · rintro (hp | hp) <;> cases hp
        · rintro _ ⟨⟩
          exact ⟨by have := hdone hRN; dsimp only; omega, fun _ ↦ hdone hRN⟩
      exact ⟨hgood, fun o ho ↦ hgood.tells hP (hafter (.inr ⟨false, rfl⟩)) rfl (houts o ho), hb,
        fun hc ↦ absurd hc hopen⟩
  | @report r early _ hp hr houts =>
      have ha := hafter (.inr ⟨early, hp⟩)
      refine ⟨{ h with told := fun hex _ ↦ ?_ },
        fun o ho ↦ (h.tells hP ha hp (houts o ho)).mono (le_refl _) fun hc ↦ ⟨hc, rfl⟩,
        le_refl _, fun hc ↦ ⟨hc, rfl⟩⟩
      have hN := (h.closing _ hp).2 (.inr hex)
      have hlt := hP.first_lt
      cases hi _ rfl with
      | stale hn _ _ => omega
      | named hj hn _ _ _ he => exact he hex (by omega)
  | @say _ early _ hp houts =>
      have ha := hafter (.inr ⟨early, hp⟩)
      exact ⟨h, fun o ho ↦ h.tells hP ha hp (houts o ho), le_refl _, fun hc ↦ ⟨hc, rfl⟩⟩
  | garbage => exact absurd (hi none rfl) nofun
  | lie r hr => exact absurd hr (hi _ rfl).not_lies
  | overshoot _ hp hb =>
      refine absurd hb ?_
      rintro (hb | ⟨r, rfl, hb⟩)
      · exact absurd h.base_lt (by omega)
      · exact absurd ((hi _ rfl).advance h hp).2.2.1 (by omega)
  | chaos _ hp => exact absurd hp h.sane.1

/-! ## The receiver's steps -/

variable (P) in
/-- While only the last chunk is missing, nothing but it arrives. -/
def Expected (t : Receiver β) (i : Option (Option (Data β))) : Prop :=
  ∀ d, i = some (some d) → t.phase = .loop → t.pieces.length + 1 = P.total → d.number = t.number

theorem Transfer.chunk_last {i : Nat} : (P.chunk i).last = true ↔ i = P.total - 1 := by
  simp [Transfer.chunk]

theorem Good.push_chunk (hP : P.Counted) (h : Good P exact s t)
    (hlt : t.pieces.length < P.total) :
    push t.pieces (P.chunk t.pieces.length).payload = P.chunks.take (t.pieces.length + 1) := by
  have hpush := SlidingWindow.push_chunk hP.nonempty hlt
  rwa [← h.pieces] at hpush

theorem length_take_succ {k : Nat} (hk : k < P.total) : (P.chunks.take (k + 1)).length = k + 1 := by
  rw [List.length_take]
  exact min_eq_left hk

/-- The receiver takes the next chunk and goes on, or is done with it. -/
theorem Good.took (hP : P.Counted) (h : Good P exact s t)
    (hlt : t.pieces.length < P.total) (ha : t.pieces.length < s.base + P.window)
    {phase : ReceiverPhase} (number : Nat)
    (hphase : (phase = .loop ∧ t.pieces.length + 1 < P.total ∧
        number = P.offset + (t.pieces.length + 1)) ∨
      (phase = .finished ∧ t.pieces.length + 1 = P.total ∧ number + 1 = P.offset + P.total)) :
    Good P exact s ⟨phase, number, push t.pieces (P.chunk t.pieces.length).payload⟩ ∧
      (push t.pieces (P.chunk t.pieces.length).payload).length = t.pieces.length + 1 := by
  have hpush := h.push_chunk hP hlt
  have hlen := length_take_succ hlt
  have hbase := h.base_le
  rw [hpush]
  refine ⟨⟨?_, h.first_le, ?_, h.base_lt, ?_, h.base_le_next, h.next_le, h.next_le_window, h.full,
    h.blocked, h.closing, ⟨h.sane.1, ?_⟩, ?_, ?_, ?_, ?_⟩, hlen⟩
  · dsimp only
    rw [hlen]
  · dsimp only
    omega
  · dsimp only
    omega
  · rcases hphase with ⟨rfl, -⟩ | ⟨rfl, -⟩ <;> nofun
  · rcases hphase with ⟨rfl, -⟩ | ⟨rfl, -⟩ <;> nofun
  · rintro rfl
    obtain ⟨-, hN, hnum⟩ := hphase.resolve_right nofun
    exact .inl ⟨by rw [hnum, hlen], by dsimp only; omega⟩
  · rintro rfl
    obtain ⟨-, hN, hnum⟩ := hphase.resolve_left nofun
    exact ⟨by dsimp only; omega, hnum⟩
  · intro hex hrep
    have := h.told hex hrep
    omega

/-- What the loop takes is the next chunk, or the last word of a sender that stopped with
only the last chunk left. -/
theorem Good.accepted (h : Good P exact s t) (hp : t.phase = .loop) {d : Data β}
    (hi : DataOk P exact s (some d)) (hd : d.number = t.number) :
    (t.pieces.length < P.total ∧ t.pieces.length < s.base + P.window ∧
        d = P.chunk t.pieces.length ∧ t.number = P.offset + t.pieces.length) ∨
      (¬exact ∧ s.Closed ∧ s.next + 1 = P.total ∧ t.pieces.length + 1 = P.total ∧
        t.number + 1 = P.offset + P.total ∧ d.payload = [] ∧ d.last = false) := by
  have hle := h.first_le.trans h.base_le
  cases hi with
  | stale hst => rcases h.loop hp with ⟨hn, hR⟩ | ⟨-, -, -, hR, hn⟩ <;> omega
  | @chunk k hb hk =>
      have hnum : P.offset + k = t.number := hd
      rcases h.loop hp with ⟨hn, hR⟩ | ⟨-, -, -, hR, hn⟩
      · have hkR : k = t.pieces.length := by omega
        subst hkR
        exact .inl ⟨hk, hb, rfl, hn⟩
      · omega
  | control hs hpay hnum hnext hl =>
      rcases h.loop hp with ⟨hn, hR⟩ | ⟨-, -, hlt, hR, hn⟩
      · have hne : s.next ≠ P.total := by omega
        refine .inr ⟨fun hex ↦ hne (hl (.inr hex)), hs, by omega, by omega, by omega, hpay, ?_⟩
        exact Bool.eq_false_iff.mpr fun hlast ↦ hne (hl (.inl hlast))
      · omega

/-- What a step of the receiver keeps. -/
theorem Good.receiver_step (hP : P.Counted) (hafter : s.Closed → P.After exact)
    {i : Option (Option (Data β))} {outs : List (Option Reply)} (h : Good P exact s t)
    (hi : ∀ m, i = some m → DataOk P exact s m) (hok : exact → Expected P t i)
    (hs : Receiver.Step P t i t' outs) :
    Good P exact s t' ∧ (∀ o ∈ outs, ReplyOk P exact s t' o) ∧
      t.pieces.length ≤ t'.pieces.length := by
  have hfirst := hP.first_lt
  have hpos := hP.offset_pos
  have hle := h.first_le.trans h.base_le
  cases hs with
  | stutter => exact ⟨h, by simp, le_refl _⟩
  | die =>
      refine ⟨{ h with
        sane := ⟨h.sane.1, nofun⟩
        first := nofun
        loop := nofun
        finished := nofun }, by simp, le_refl _⟩
  | wait d hp hd houts =>
      obtain ⟨hn, -⟩ := h.first hp
      refine ⟨h, fun o ho ↦ ?_, le_refl _⟩
      rw [houts o ho]
      exact .stale (by dsimp only; omega) (by dsimp only; omega) rfl
  | drop d hp hd hl =>
      obtain ⟨hn, hR⟩ := h.first hp
      have hbump : P.bump t.number = t.number + 1 := hP.number _ (by omega)
      refine ⟨{ h with
        sane := ⟨h.sane.1, nofun⟩
        first := nofun
        loop := fun _ ↦ .inl ⟨by dsimp only; omega, by dsimp only; omega⟩
        finished := nofun }, by simp, le_refl _⟩
  | only d hp hd hl houts =>
      obtain ⟨hn, hR⟩ := h.first hp
      have hbump : P.bump t.number = t.number + 1 := hP.number _ (by omega)
      cases hi _ rfl with
      | stale hst => omega
      | control _ _ hnum _ hlast =>
          have := hlast (.inl hl)
          omega
      | @chunk k hb hk =>
          have hk' := Transfer.chunk_last.mp hl
          have hkR : k = t.pieces.length := by
            have : P.offset + k = t.number + 1 := hd
            omega
          subst hkR
          obtain ⟨hgood, hlen⟩ := h.took hP hk hb (P.bump t.number)
            (.inr ⟨rfl, by omega, by omega⟩)
          refine ⟨hgood, fun o ho ↦ ?_, by dsimp only; omega⟩
          obtain ⟨bare, rfl⟩ := houts o ho
          exact .named hle (by dsimp only; omega) (by dsimp only; omega)
            (.inl ⟨by dsimp only; omega, hk⟩) (fun _ ↦ ⟨by dsimp only; omega, by omega⟩)
            fun _ _ ↦ by dsimp only; omega
  | take d hp hd hl houts =>
      rcases h.accepted hp (hi _ rfl) hd with ⟨hR, hb, rfl, hn⟩ | ⟨hex, hs, hnext, hR, hn, hpay, -⟩
      · have hlast : t.pieces.length ≠ P.total - 1 := fun hk ↦ by
          rw [Transfer.chunk_last.mpr hk] at hl
          cases hl
        have hbump : P.bump t.number = t.number + 1 := hP.number _ (by omega)
        obtain ⟨hgood, hlen⟩ := h.took hP hR hb (P.bump t.number)
          (.inl ⟨rfl, by omega, by omega⟩)
        refine ⟨hgood, fun o ho ↦ ?_, by dsimp only; omega⟩
        rw [houts o ho]
        exact .named hle hn hn (.inl ⟨by dsimp only; omega, hR⟩) nofun fun _ hN ↦ by omega
      · -- the transfer runs on past the last number
        have hbump : P.bump t.number = P.offset + P.total := by
          have ht : t.number = P.offset + P.total - 1 := by omega
          rw [ht]
          exact (hafter hs).resolve_right fun hc ↦ hex hc.1
        rw [hpay, push_nil]
        refine ⟨{ h with
          sane := ⟨h.sane.1, nofun⟩
          first := nofun
          loop := fun _ ↦ .inr ⟨hex, hs, hnext, hR, hbump⟩
          finished := nofun }, fun o ho ↦ ?_, le_refl _⟩
        rw [houts o ho]
        have hj : t.number = P.offset + t.pieces.length := by omega
        exact .named hle hj hj (.inl ⟨le_refl _, by omega⟩) nofun fun hc ↦ absurd hc hex
  | finish d hp hd hl houts =>
      rcases h.accepted hp (hi _ rfl) hd with ⟨hR, hb, rfl, hn⟩ | ⟨-, -, -, -, -, -, hl'⟩
      · have hk := Transfer.chunk_last.mp hl
        obtain ⟨hgood, hlen⟩ := h.took hP hR hb t.number
          (.inr ⟨rfl, by omega, by omega⟩)
        refine ⟨hgood, fun o ho ↦ ?_, by dsimp only; omega⟩
        obtain ⟨bare, rfl⟩ := houts o ho
        exact .named hle hn hn (.inl ⟨by dsimp only; omega, hR⟩)
          (fun _ ↦ ⟨by dsimp only; omega, by omega⟩) fun _ _ ↦ by dsimp only; omega
      · rw [hl'] at hl
        cases hl
  | refuse d hp hd houts =>
      refine ⟨h, fun o ho ↦ ?_, le_refl _⟩
      rw [houts o ho]
      rcases h.loop hp with ⟨hn, hR⟩ | ⟨hex, hs, -, hR, hn⟩
      · exact .named hle hn hn (.inl ⟨le_refl _, hR⟩) nofun
          fun hex hN ↦ absurd (hok hex d rfl hp hN) hd
      · exact .named (j := P.total) (by omega) hn hn (.inr ⟨hex, hs, rfl⟩) nofun
          fun hc ↦ absurd hc hex
  | say _ hp houts =>
      obtain ⟨hR, hn⟩ := h.finished hp
      refine ⟨h, fun o ho ↦ ?_, le_refl _⟩
      obtain ⟨bare, rfl⟩ := houts o ho
      have hj : t.number = P.offset + (P.total - 1) := by omega
      exact .named (j := P.total - 1) (by omega) hj hj (.inl ⟨by omega, by omega⟩)
        (fun _ ↦ ⟨hR, by omega⟩) fun _ _ ↦ hR
  | garbage => exact absurd (hi none rfl) nofun
  | chaos _ hp => exact absurd hp h.sane.2

/-! ## The contract, and where a run leads -/

/-- The invariant as a contract; in an exact one the receiver gets only what is expected. -/
def contract (hP : P.Numbered exact) :
    Contract (Sender.node P) (Receiver.node P) fun _ t i ↦ exact → Expected P t i where
  inv := Good P exact
  onRight s _ m := DataOk P exact s m
  onLeft s t m := ReplyOk P exact s t m
  left_step := by
    intro s t i s' outs h hi hs
    obtain ⟨hgood, houts, hb, hc⟩ := h.sender_step hP.toCounted (fun _ ↦ hP.after) hi hs
    exact ⟨hgood, houts, fun m hm ↦ hm.mono hb hc,
      fun m hm ↦ hm.mono (le_refl _) h.length_le fun hcl ↦ (hc hcl).1⟩
  right_step := by
    intro s t i t' outs h hi hok hs
    obtain ⟨hgood, houts, hR⟩ := h.receiver_step hP.toCounted (fun _ ↦ hP.after) hi hok hs
    exact ⟨hgood, houts, fun m hm ↦ hm, fun m hm ↦ hm.mono hR hgood.length_le id⟩

variable (P) in
/-- What may be in flight when the transfer starts. -/
structure Stale (w : World Sender (Receiver β) (Option (Data β)) (Option Reply)) : Prop where
  toRight : ∀ m ∈ w.toRight, ∃ d, m = some d ∧ d.number < P.offset + P.first ∧ d.last = false
  toLeft : ∀ m ∈ w.toLeft, ∃ r, m = some r ∧ r.number < P.offset + P.first ∧
    r.ack < P.offset + P.first ∧ r.bare = false

theorem good_start (hP : P.Counted) : Good P exact (Sender.start P) (Receiver.start P) := by
  have hlt := hP.first_lt
  have hpos := hP.offset_pos
  have hlen : (P.chunks.take P.first).length = P.first := by
    rw [List.length_take]
    exact min_eq_left (le_of_lt hlt)
  have hR : (Receiver.start P).pieces.length = P.first := hlen
  refine ⟨?_, le_refl _, ?_, hlt, ?_, le_refl _, le_of_lt hlt, Nat.le_add_right _ _, ?_, nofun, nofun,
    ⟨nofun, nofun⟩, fun _ ↦ ⟨?_, hR⟩, nofun, nofun, nofun⟩
  · rw [hR]
    rfl
  · rw [hR]
    exact le_refl _
  · rw [hR]
    exact Nat.le_add_right _ _
  · rintro (hp | hp) <;> cases hp
  · dsimp only [Receiver.start]
    omega

theorem contract_start (hP : P.Numbered exact)
    {w : World Sender (Receiver β) (Option (Data β)) (Option Reply)} (hs : w.left = Sender.start P)
    (ht : w.right = Receiver.start P) (hw : Stale P w) : (contract hP).Holds w where
  inv := by rw [hs, ht]; exact good_start hP.toCounted
  onRight m hm := by
    obtain ⟨d, rfl, hd, -⟩ := hw.toRight m hm
    exact .stale hd
  onLeft m hm := by
    obtain ⟨r, rfl, hr, ha, hb⟩ := hw.toLeft m hm
    exact .stale hr ha hb

/-! ## Up to the moment the sender stops -/

/-- The sender has not stopped. -/
def Sender.Open (s : Sender) : Prop := s.phase = .window ∨ s.phase = .await ∨ s.phase = .blocked

theorem Sender.Open.phase_ne {s : Sender} (h : s.Open) :
    s.phase ≠ .dead ∧ s.phase ≠ .chaos ∧ ∀ early, s.phase ≠ .closing early := by
  rcases h with h | h | h <;> rw [h] <;> exact ⟨nofun, nofun, nofun⟩

theorem Sender.Step.open_of_open {i : Option (Option Reply)} {outs : List (Option (Data β))}
    (hs : Sender.Step P s i s' outs) (h : s'.Open) : s.Open := by
  cases hs with
  | stutter => exact h
  | die => rcases h with h | h | h <;> cases h
  | send hp => exact .inl hp
  | await hp => exact .inl hp
  | block hp => exact .inr (.inl hp)
  | complete hp => exact .inr (.inl hp)
  | timeout hp => exact .inr (.inr hp)
  | answer _ hp => exact .inr (.inr hp)
  | again _ hp => exact .inr (.inr hp)
  | stop _ hp => exact .inr (.inr hp)
  | told _ _ hp => exact .inr (.inr hp)
  | report => exact h
  | say => exact h
  | garbage => rcases h with h | h | h <;> cases h
  | lie => rcases h with h | h | h <;> cases h
  | overshoot _ hp => exact .inr (.inr hp)
  | chaos _ hp => exact h

variable (P) in
/-- What an open sender has sent: chunks its window has reached, and all up to where it stands. -/
structure Sent (s : Sender) (log : List (Option (Data β))) : Prop where
  chunk : ∀ o ∈ log, ∃ k, P.first ≤ k ∧ k < s.base + P.window ∧ k < P.total ∧ o = some (P.chunk k)
  all : ∀ k, P.first ≤ k → k < s.next → some (P.chunk k) ∈ log

/-- A full window reaches to what the receiver lacks. -/
theorem Good.length_le_next (h : Good P exact s t) (hf : s.windowFull P) :
    t.pieces.length ≤ s.next := by
  have := h.next_eq hf
  have := h.ahead
  have := h.length_le
  omega

theorem Sent.step (hP : P.Counted) (hgood : Good P exact s t) {i : Option (Option Reply)}
    (hi : ∀ m, i = some m → ReplyOk P exact s t m) {log outs : List (Option (Data β))}
    (h : Sent P s log) (hs : Sender.Step P s i s' outs) (hopen : s'.Open) :
    Sent P s' (log ++ outs) := by
  have hfirst := hgood.first_le
  have hnext := hgood.base_le_next
  have quiet : ∀ {s'' : Sender}, s.base ≤ s''.base → s''.next ≤ s.next →
      Sent P s'' (log ++ []) := by
    intro s'' hbase hle
    rw [List.append_nil]
    refine ⟨fun o ho ↦ ?_, fun k hk hlt ↦ h.all k hk (lt_of_lt_of_le hlt hle)⟩
    obtain ⟨k, hk, hlt, hn, heq⟩ := h.chunk o ho
    exact ⟨k, hk, lt_of_lt_of_le hlt (Nat.add_le_add_right hbase _), hn, heq⟩
  obtain ⟨hdead, hchaos, hclosing⟩ := hopen.phase_ne
  cases hs with
  | stutter => exact quiet (le_refl _) (le_refl _)
  | die => exact absurd rfl hdead
  | send hp hw hn =>
      have hbump := hP.next _ hn
      refine ⟨fun o ho ↦ ?_, fun k hk hlt ↦ ?_⟩
      · rcases List.mem_append.mp ho with ho | ho
        · exact h.chunk o ho
        · exact ⟨s.next, le_trans hfirst hnext, hw, hn, List.mem_singleton.mp ho⟩
      · dsimp only at hlt
        by_cases hks : k < s.next
        · exact List.mem_append_left _ (h.all k hk hks)
        · obtain rfl : k = s.next := by omega
          exact List.mem_append_right _ (List.mem_singleton.mpr rfl)
  | await => exact quiet (le_refl _) (le_refl _)
  | block => exact quiet (le_refl _) (le_refl _)
  | complete => exact absurd rfl (hclosing _)
  | timeout => exact quiet (le_refl _) hnext
  | answer r => exact quiet (s.le_advance r) (le_refl _)
  | again r hp =>
      refine quiet (s.le_advance r) (le_trans ((hi _ rfl).advance hgood hp).2.1 ?_)
      exact hgood.length_le_next (hgood.full (.inr hp))
  | stop => exact absurd rfl (hclosing _)
  | told => exact absurd rfl (hclosing _)
  | report _ hp => exact absurd hp (hclosing _)
  | say _ hp => exact absurd hp (hclosing _)
  | garbage => exact absurd rfl hchaos
  | lie => exact absurd rfl hchaos
  | overshoot => exact absurd rfl hchaos
  | chaos _ hp => exact absurd hp hchaos

/-- The invariant as long as the sender is open, for a sender with a record. -/
def openContract (hP : P.Counted) :
    Contract (Sender.node P).logged (Receiver.node P) fun _ _ _ ↦ True where
  inv s t := s.1.Open → Good P False s.1 t ∧ Sent P s.1 s.2
  onRight s _ m := s.1.Open → DataOk P False s.1 m
  onLeft s t m := s.1.Open → ReplyOk P False s.1 t m
  left_step := by
    rintro ⟨s, log⟩ t i ⟨s', log'⟩ outs h hi ⟨hs, hlog⟩
    dsimp only at hs hlog
    subst hlog
    by_cases hopen : s'.Open
    · have hwas := hs.open_of_open hopen
      obtain ⟨hgood, hsent⟩ := h hwas
      have hi' := fun m hm ↦ hi m hm hwas
      obtain ⟨hgood', houts, hb, hc⟩ := hgood.sender_step hP
        (fun hcl ↦ absurd hcl (not_closed hopen)) hi' hs
      refine ⟨fun _ ↦ ⟨hgood', hsent.step hP hgood hi' hs hopen⟩, fun o ho _ ↦ houts o ho,
        fun m hm _ ↦ (hm hwas).mono hb hc, fun m hm _ ↦ ?_⟩
      exact (hm hwas).mono (le_refl _) hgood.length_le fun hcl ↦ (hc hcl).1
    · exact ⟨fun h ↦ absurd h hopen, fun _ _ h ↦ absurd h hopen, fun _ _ h ↦ absurd h hopen,
        fun _ _ h ↦ absurd h hopen⟩
  right_step := by
    rintro ⟨s, log⟩ t i t' outs h hi - hs
    by_cases hopen : s.Open
    · obtain ⟨hgood, hsent⟩ := h hopen
      obtain ⟨hgood', houts, hR⟩ := hgood.receiver_step hP
        (fun hcl ↦ absurd hcl (not_closed hopen)) (fun m hm ↦ hi m hm hopen) False.elim hs
      exact ⟨fun _ ↦ ⟨hgood', hsent⟩, fun o ho _ ↦ houts o ho, fun m hm _ ↦ hm hopen,
        fun m hm _ ↦ (hm hopen).mono hR hgood'.length_le id⟩
    · exact ⟨fun h ↦ absurd h hopen, fun _ _ h ↦ absurd h hopen, fun _ _ h ↦ absurd h hopen,
        fun _ _ h ↦ absurd h hopen⟩

theorem openContract_start (hP : P.Counted)
    {w : World (Sender × List (Option (Data β))) (Receiver β) (Option (Data β)) (Option Reply)}
    (hs : w.left = (Sender.start P, [])) (ht : w.right = Receiver.start P)
    (hright : ∀ m ∈ w.toRight, ∃ d, m = some d ∧ d.number < P.offset + P.first)
    (hleft : ∀ m ∈ w.toLeft, ∃ r, m = some r ∧ r.number < P.offset + P.first ∧
      r.ack < P.offset + P.first ∧ r.bare = false) : (openContract hP).Holds w where
  inv _ := by
    rw [hs, ht]
    exact ⟨good_start hP, fun _ h ↦ (by cases h), fun k hk hlt ↦ absurd hlt (Nat.not_lt_of_le hk)⟩
  onRight m hm _ := by
    obtain ⟨d, rfl, hd⟩ := hright m hm
    exact .stale hd
  onLeft m hm _ := by
    obtain ⟨r, rfl, hr, ha, hb⟩ := hleft m hm
    exact .stale hr ha hb

/-- No answer of the receiver confuses an open sender. -/
theorem sane_of_open {hP : P.Counted} {D : Discipline}
    {v v' : World (Sender × List (Option (Data β))) (Receiver β) (Option (Data β)) (Option Reply)}
    {ℓ : Label (Option (Data β)) (Option Reply)} (hv : (openContract hP).Holds v)
    (hopen : v.left.1.Open) (hs : Duplex.Step D (Sender.node P).logged (Receiver.node P) v ℓ v') :
    v'.left.1.phase ≠ .chaos := by
  intro hchaos
  have hgood := (hv.inv hopen).1
  have hafter : ∀ {s' : Sender}, s'.phase = .chaos → s'.Closed → P.After False := by
    rintro s' h (hd | ⟨early, hc⟩)
    · exact absurd (h.symm.trans hd) nofun
    · exact absurd (h.symm.trans hc) nofun
  cases hs with
  | @leftTakes m q s outs ht hs =>
      exact (hgood.sender_step hP (hafter hchaos)
        (fun m' hm ↦ Option.some.inj hm ▸ hv.onLeft m ht.mem hopen) hs.1).1.sane.1 hchaos
  | @leftMoves s outs hs =>
      exact (hgood.sender_step hP (hafter hchaos) (by rintro _ ⟨⟩) hs.1).1.sane.1 hchaos
  | rightTakes | rightMoves | lose => exact hopen.phase_ne.2.1 hchaos

/-- Where an open sender stops: it has sent its whole window, which reaches the last chunk
unless it stopped on an answer. -/
theorem Good.next_of_stop (h : Good P exact s t) {i : Option (Option Reply)}
    (hi : ∀ m, i = some m → ReplyOk P exact s t m) {outs : List (Option (Data β))} {early : Bool}
    (hwindow : 0 < P.window) (hopen : s.Open) (hs : Sender.Step P s i s' outs)
    (hp : s'.phase = .closing early) :
    s'.next = s.next ∧ s.next = min (s.base + P.window) P.total ∧
      (s.next = P.total ∨ early = true ∧ ∃ r, i = some (some r) ∧ s.advance P r + 1 = P.total) := by
  have hclosing := hopen.phase_ne.2.2
  cases hs with
  | stutter => exact absurd hp (hclosing _)
  | send hp' => rw [hp'] at hp; cases hp
  | complete hp' hb =>
      have hnext := h.next_eq (h.full (.inl hp'))
      exact ⟨rfl, hnext, .inl (by omega)⟩
  | stop r hp' hb =>
      cases hp
      exact ⟨rfl, h.next_eq (h.full (.inr hp')), .inr ⟨rfl, r, rfl, hb⟩⟩
  | told r _ hp' hbare =>
      have hnext := h.next_eq (h.full (.inr hp'))
      have hlen := h.length_le_next (h.full (.inr hp'))
      have hle := h.next_le
      refine ⟨rfl, hnext, .inl ?_⟩
      cases hi _ rfl with
      | stale _ _ hb => rw [hb] at hbare; cases hbare
      | named _ _ _ _ hb =>
          have := (hb hbare).1
          omega
  | report _ hp' => exact absurd hp' (hclosing _)
  | say _ hp' => exact absurd hp' (hclosing _)
  | chaos _ hp' => rw [hp'] at hp; cases hp
  | die | await | block | timeout | answer | again | garbage | lie | overshoot => cases hp

/-! ## Transfers too long for their numbers -/

/-- The last chunk lies past all numbers a counter takes. -/
structure Transfer.Overflows (P : Transfer β) (limit : Nat) : Prop where
  bump_le : ∀ v, P.bump v ≤ limit
  last : limit + 1 < P.offset + P.total
  first : P.offset + P.first ≤ limit

/-- Such a transfer never ends, for either side. -/
structure Endless (P : Transfer β) (limit : Nat) (s : Sender) (t : Receiver β) : Prop where
  base_le : P.offset + s.base ≤ limit
  sender_sane : s.phase ≠ .chaos ∧ ∀ early, s.phase ≠ .closing early
  not_told : s.reported = false
  receiver_sane : t.phase ≠ .chaos ∧ t.phase ≠ .finished
  number_le : t.number ≤ limit
  first : t.phase = .first → t.number < limit

theorem Endless.advance_le {limit : Nat} (h : Endless P limit s t) {r : Reply}
    (hr : r.ack ≤ limit) : P.offset + s.advance P r ≤ limit := by
  have := h.base_le
  unfold Sender.advance
  split <;> omega

theorem Endless.sender_step {limit : Nat} (hP : P.Overflows limit) (h : Endless P limit s t)
    {i : Option (Option Reply)} {outs : List (Option (Data β))}
    (hi : ∀ m, i = some m → ∃ r, m = some r ∧ r.ack ≤ limit ∧ r.bare = false)
    (hs : Sender.Step P s i s' outs) :
    Endless P limit s' t ∧ ∀ o ∈ outs, ∃ d, o = some d ∧ (d.last → limit < d.number) := by
  have hlast := hP.last
  have hbase := h.base_le
  have hanswer : ∀ r, i = some (some r) → P.offset + s.advance P r ≤ limit ∧ r.bare = false := by
    intro r hr
    obtain ⟨_, ⟨⟩, hack, hbare⟩ := hi _ hr
    exact ⟨h.advance_le hack, hbare⟩
  cases hs with
  | stutter => exact ⟨h, by simp⟩
  | die => exact ⟨{ h with sender_sane := ⟨nofun, nofun⟩ }, by simp⟩
  | send hp hw hn =>
      refine ⟨{ h with }, fun o ho ↦ ⟨_, List.mem_singleton.mp ho, fun hl ↦ ?_⟩⟩
      have hk := Transfer.chunk_last.mp hl
      show limit < P.offset + s.next
      omega
  | await => exact ⟨{ h with sender_sane := ⟨nofun, nofun⟩ }, by simp⟩
  | block => exact ⟨{ h with sender_sane := ⟨nofun, nofun⟩ }, by simp⟩
  | complete hp hb => omega
  | timeout => exact ⟨{ h with sender_sane := ⟨nofun, nofun⟩ }, by simp⟩
  | answer r => exact ⟨{ h with base_le := (hanswer r rfl).1, sender_sane := ⟨nofun, nofun⟩ }, by simp⟩
  | again r => exact ⟨{ h with base_le := (hanswer r rfl).1, sender_sane := ⟨nofun, nofun⟩ }, by simp⟩
  | stop r hp hb =>
      have := (hanswer r rfl).1
      omega
  | told r _ hp hbare =>
      rw [(hanswer r rfl).2] at hbare
      cases hbare
  | report _ hp => exact absurd hp (h.sender_sane.2 _)
  | say _ hp => exact absurd hp (h.sender_sane.2 _)
  | garbage =>
      obtain ⟨_, ⟨⟩, -⟩ := hi none rfl
  | lie r hr =>
      have hbare := hr.1
      rw [(hanswer r rfl).2] at hbare
      cases hbare
  | overshoot _ hp hb =>
      rcases hb with hb | ⟨r, rfl, hb⟩
      · omega
      · have := (hanswer r rfl).1
        omega
  | chaos _ hp => exact absurd hp h.sender_sane.1

theorem Endless.receiver_step {limit : Nat} (hP : P.Overflows limit) (h : Endless P limit s t)
    {i : Option (Option (Data β))} {outs : List (Option Reply)}
    (hi : ∀ m, i = some m → ∃ d, m = some d ∧ (d.last → limit < d.number))
    (hs : Receiver.Step P t i t' outs) :
    Endless P limit s t' ∧ ∀ o ∈ outs, ∃ r, o = some r ∧ r.ack ≤ limit ∧ r.bare = false := by
  have hnum := h.number_le
  have hlast : ∀ d, i = some (some d) → d.last → limit < d.number := by
    intro d hd
    obtain ⟨_, ⟨⟩, hl⟩ := hi _ hd
    exact hl
  cases hs with
  | stutter => exact ⟨h, by simp⟩
  | die => exact ⟨{ h with receiver_sane := ⟨nofun, nofun⟩, first := nofun }, by simp⟩
  | wait d hp hd houts => exact ⟨h, fun o ho ↦ ⟨_, houts o ho, hnum, rfl⟩⟩
  | drop d hp hd hl =>
      exact ⟨{ h with
        receiver_sane := ⟨nofun, nofun⟩
        number_le := hP.bump_le _
        first := nofun }, by simp⟩
  | only d hp hd hl =>
      have := h.first hp
      have := hlast d rfl hl
      omega
  | take d hp hd hl houts =>
      exact ⟨{ h with
        receiver_sane := ⟨nofun, nofun⟩
        number_le := hP.bump_le _
        first := nofun }, fun o ho ↦ ⟨_, houts o ho, hnum, rfl⟩⟩
  | finish d hp hd hl =>
      have := hlast d rfl hl
      omega
  | refuse d hp hd houts => exact ⟨h, fun o ho ↦ ⟨_, houts o ho, hnum, rfl⟩⟩
  | say _ hp => exact absurd hp h.receiver_sane.2
  | garbage =>
      obtain ⟨_, ⟨⟩, -⟩ := hi none rfl
  | chaos _ hp => exact absurd hp h.receiver_sane.1

def endlessContract {limit : Nat} (hP : P.Overflows limit) :
    Contract (Sender.node P) (Receiver.node P) fun _ _ _ ↦ True where
  inv := Endless P limit
  onRight _ _ m := ∃ d, m = some d ∧ (d.last → limit < d.number)
  onLeft _ _ m := ∃ r, m = some r ∧ r.ack ≤ limit ∧ r.bare = false
  left_step h hi hs :=
    have hstep := h.sender_step hP hi hs
    ⟨hstep.1, hstep.2, fun _ hm ↦ hm, fun _ hm ↦ hm⟩
  right_step h hi _ hs :=
    have hstep := h.receiver_step hP hi hs
    ⟨hstep.1, hstep.2, fun _ hm ↦ hm, fun _ hm ↦ hm⟩

theorem endlessContract_start {limit : Nat} (hP : P.Overflows limit)
    {w : World Sender (Receiver β) (Option (Data β)) (Option Reply)} (hs : w.left = Sender.start P)
    (ht : w.right = Receiver.start P) (hpos : 0 < P.offset + P.first) (hw : Stale P w) :
    (endlessContract hP).Holds w where
  inv := by
    have hfirst := hP.first
    have hnumber : (Receiver.start P).number = P.offset + P.first - 1 := rfl
    rw [hs, ht]
    exact ⟨hfirst, ⟨nofun, nofun⟩, rfl, ⟨nofun, nofun⟩, by omega, fun _ ↦ by omega⟩
  onRight m hm := by
    obtain ⟨d, rfl, -, hl⟩ := hw.toRight m hm
    exact ⟨d, rfl, fun h ↦ by rw [hl] at h; cases h⟩
  onLeft m hm := by
    obtain ⟨r, rfl, -, ha, hb⟩ := hw.toLeft m hm
    have hfirst := hP.first
    exact ⟨r, rfl, by omega, hb⟩

end Rdt.SlidingWindow
