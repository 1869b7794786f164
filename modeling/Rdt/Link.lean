import Rdt.Lib.Journal
import Rdt.Server.Connection
import Rdt.Client.Client

/-! # A client and its connection as the nodes of a link -/

namespace Rdt

open Duplex

/-- What an arrival from `peer`, or the passing of time, may be to the code of an end. -/
def arrivals (peer : Address) : Option Bytes → Set Event
  | some raw => {ev | ∃ now, ev = .datagram raw (some peer) now}
  | none => {ev | ∃ now, ev = .timeout now ∨ ev = .proceed now}

/-- A client that has learned the address of its connection, with what it sends there. -/
def Client.react (cfg : Client.Config) (connectionAddress : Address) (c : Client) (ev : Event) :
    Client × List Bytes :=
  (c.step cfg ev, (c.step cfg ev).outbox.to connectionAddress)

def Client.node (cfg : Client.Config) (connectionAddress : Address) : Node Client Bytes Bytes :=
  .ofFun (Client.react cfg connectionAddress) (arrivals connectionAddress)

/-- A connection, with what it sends to its client. -/
def Server.ClientConnection.react (cfg : Server.Config) (c : Server.ClientConnection) (ev : Event) :
    Server.ClientConnection × List Bytes :=
  (c.step cfg ev, (c.step cfg ev).outbox.to cfg.clientAddress)

def Server.ClientConnection.node (cfg : Server.Config) :
    Node Server.ClientConnection Bytes Bytes :=
  .ofFun (ClientConnection.react cfg) (arrivals cfg.clientAddress)

/-- The two ends as long as neither exhausts its retries.  The client may still get what the
welcoming socket sent it. -/
def Client.patientNode (cfg : Client.Config) (connectionAddress : Address) :
    Node Client Bytes Bytes :=
  .ofFunWhile (Client.react cfg connectionAddress)
    (fun i ↦ arrivals connectionAddress i ∪ arrivals cfg.serverAddress i)
    fun c ev ↦ (c.listened cfg ev).gaveUp = false

def Server.ClientConnection.patientNode (cfg : Server.Config) :
    Node Server.ClientConnection Bytes Bytes :=
  .ofFunWhile (ClientConnection.react cfg) (arrivals cfg.clientAddress)
    fun c ev ↦ (c.listened cfg ev).gaveUp = false

/-! ## Schedules -/

/-- A step over channels that keep their order: a receive times out, code proceeds, the next
datagram is taken or lost. -/
inductive Move where
  | leftTimeout
  | leftProceeds
  | leftTakes
  | rightTimeout
  | rightProceeds
  | rightTakes
  | loseToRight
  | loseToLeft
deriving DecidableEq, Repr

section Play

variable {σ τ : Type} (f : σ → Event → σ × List Bytes) (g : τ → Event → τ × List Bytes)
  (a b : Address) (ok : World σ τ Bytes Bytes → Label Bytes Bytes → Prop)
  [∀ w ℓ, Decidable (ok w ℓ)]

def World.onLeft {σ τ : Type} (w : World σ τ Bytes Bytes) (q : List Bytes) (r : σ × List Bytes) :
    World σ τ Bytes Bytes := ⟨r.1, w.right, w.toRight ++ r.2, q⟩

def World.onRight {σ τ : Type} (w : World σ τ Bytes Bytes) (q : List Bytes) (r : τ × List Bytes) :
    World σ τ Bytes Bytes := ⟨w.left, r.1, q, w.toLeft ++ r.2⟩

/-- One move; the clock stands still. -/
def play (w : World σ τ Bytes Bytes) (m : Move) : Option (World σ τ Bytes Bytes) :=
  match m with
  | .leftTimeout =>
      if ok w (.left none) then some (World.onLeft w w.toLeft (f w.left (.timeout 0))) else none
  | .leftProceeds =>
      if ok w (.left none) then some (World.onLeft w w.toLeft (f w.left (.proceed 0))) else none
  | .leftTakes =>
      match w.toLeft with
      | [] => none
      | raw :: q =>
          if ok w (.left (some raw)) then
            some (World.onLeft w q (f w.left (.datagram raw (some a) 0)))
          else none
  | .rightTimeout =>
      if ok w (.right none) then some (World.onRight w w.toRight (g w.right (.timeout 0))) else none
  | .rightProceeds =>
      if ok w (.right none) then some (World.onRight w w.toRight (g w.right (.proceed 0))) else none
  | .rightTakes =>
      match w.toRight with
      | [] => none
      | raw :: q =>
          if ok w (.right (some raw)) then
            some (World.onRight w q (g w.right (.datagram raw (some b) 0)))
          else none
  | .loseToRight => if ok w .lose then some { w with toRight := w.toRight.tail } else none
  | .loseToLeft => if ok w .lose then some { w with toLeft := w.toLeft.tail } else none

variable {f g a b ok}

theorem play_sound {w w' : World σ τ Bytes Bytes} {m : Move} (h : play f g a b ok w m = some w') :
    ∃ ℓ, ok w ℓ ∧ Step .fifo (.ofFun f (arrivals a)) (.ofFun g (arrivals b)) w ℓ w' := by
  cases m with
  | leftTimeout | leftProceeds =>
      obtain ⟨hok, ⟨⟩⟩ := Option.ite_none_right_eq_some.mp h
      exact ⟨_, hok, .leftMoves ⟨_, ⟨0, by simp⟩, rfl⟩⟩
  | rightTimeout | rightProceeds =>
      obtain ⟨hok, ⟨⟩⟩ := Option.ite_none_right_eq_some.mp h
      exact ⟨_, hok, .rightMoves ⟨_, ⟨0, by simp⟩, rfl⟩⟩
  | leftTakes =>
      simp only [play] at h
      split at h
      · cases h
      · rename_i raw q hq
        obtain ⟨hok, ⟨⟩⟩ := Option.ite_none_right_eq_some.mp h
        exact ⟨_, hok, .leftTakes (by rw [hq]; exact .head raw q) ⟨_, ⟨0, rfl⟩, rfl⟩⟩
  | rightTakes =>
      simp only [play] at h
      split at h
      · cases h
      · rename_i raw q hq
        obtain ⟨hok, ⟨⟩⟩ := Option.ite_none_right_eq_some.mp h
        exact ⟨_, hok, .rightTakes (by rw [hq]; exact .head raw q) ⟨_, ⟨0, rfl⟩, rfl⟩⟩
  | loseToRight =>
      obtain ⟨hok, ⟨⟩⟩ := Option.ite_none_right_eq_some.mp h
      exact ⟨_, hok, .lose (List.tail_sublist _) (List.Sublist.refl _)⟩
  | loseToLeft =>
      obtain ⟨hok, ⟨⟩⟩ := Option.ite_none_right_eq_some.mp h
      exact ⟨_, hok, .lose (List.Sublist.refl _) (List.tail_sublist _)⟩

/-- What a schedule can be played through to is reached by a run. -/
theorem run_of_play {w w' : World σ τ Bytes Bytes} {moves : List Move}
    (h : moves.foldlM (play f g a b ok) w = some w') :
    (system .fifo (.ofFun f (arrivals a)) (.ofFun g (arrivals b))).Run ok w w' := by
  induction moves generalizing w with
  | nil =>
      obtain rfl := Option.some.inj h
      exact Lts.Run.refl _
  | cons m moves ih =>
      obtain ⟨v, hv, h⟩ := Option.bind_eq_some_iff.mp h
      obtain ⟨ℓ, hok, hs⟩ := play_sound hv
      exact (Lts.Run.single hok hs).trans (ih h)

/-- A schedule that leads where `p` holds shows a run that does. -/
theorem exists_run {w : World σ τ Bytes Bytes} {moves : List Move}
    {p : World σ τ Bytes Bytes → Prop} [DecidablePred p]
    (h : (moves.foldlM (play f g a b ok) w).any (p ·)) :
    ∃ w', (system .fifo (.ofFun f (arrivals a)) (.ofFun g (arrivals b))).Run ok w w' ∧ p w' := by
  obtain ⟨w', hw, hp⟩ := (Option.any_eq_true _ _).mp h
  exact ⟨w', run_of_play hw, of_decide_eq_true hp⟩

end Play

/-! ## Schedules of patient ends -/

section Turns

open Server

/-- A step of a network that loses nothing. -/
inductive Turn where
  | clientTakes (now : Time)
  | connectionTakes (now : Time)
  | connectionTimeout (now : Time)

variable (ccfg : Client.Config) (scfg : Server.Config)

def clientReacts (w : Journaled Client ClientConnection Bytes Bytes) (raw : Bytes) (now : Time) :
    Journaled Client ClientConnection Bytes Bytes :=
  let r := w.left.1.react ccfg scfg.address (.datagram raw (some scfg.address) now)
  ⟨(r.1, w.left.2 ++ [⟨w.left.1, some raw, r.1, r.2⟩]), w.right, w.toRight ++ r.2, w.toLeft.tail⟩

def connectionReacts (w : Journaled Client ClientConnection Bytes Bytes) (i : Option Bytes)
    (ev : Event) (q : List Bytes) : Journaled Client ClientConnection Bytes Bytes :=
  let r := w.right.1.react scfg ev
  ⟨w.left, (r.1, w.right.2 ++ [⟨w.right.1, i, r.1, r.2⟩]), q, w.toLeft ++ r.2⟩

def turn (w : Journaled Client ClientConnection Bytes Bytes) :
    Turn → Option (Journaled Client ClientConnection Bytes Bytes)
  | .clientTakes now =>
      match w.toLeft with
      | [] => none
      | raw :: _ =>
          if (w.left.1.listened ccfg (.datagram raw (some scfg.address) now)).gaveUp then none
          else some (clientReacts ccfg scfg w raw now)
  | .connectionTakes now =>
      match w.toRight with
      | [] => none
      | raw :: q =>
          if (w.right.1.listened scfg (.datagram raw (some scfg.clientAddress) now)).gaveUp then none
          else some (connectionReacts scfg w (some raw)
            (.datagram raw (some scfg.clientAddress) now) q)
  | .connectionTimeout now =>
      if (w.right.1.listened scfg (.timeout now)).gaveUp then none
      else some (connectionReacts scfg w none (.timeout now) w.toRight)

variable {ccfg scfg} {w w' : Journaled Client ClientConnection Bytes Bytes}

theorem turn_sound {t : Turn} (h : turn ccfg scfg w t = some w') :
    ∃ ℓ, ℓ ≠ .lose ∧ Step .fifo (Client.patientNode ccfg scfg.address).journaled
      (ClientConnection.patientNode scfg).journaled w ℓ w' := by
  cases t with
  | clientTakes now =>
      simp only [turn] at h
      split at h
      · cases h
      · rename_i raw q hq
        obtain ⟨hg, ⟨⟩⟩ := Option.ite_none_left_eq_some.mp h
        refine ⟨.left (some raw), (by simp), ?_⟩
        unfold clientReacts
        rw [hq]
        exact .leftTakes (by rw [hq]; exact .head raw q)
          (Node.step_journaled ⟨_, .inl ⟨now, rfl⟩, Bool.eq_false_of_not_eq_true hg, rfl⟩)
  | connectionTakes now =>
      simp only [turn] at h
      split at h
      · cases h
      · rename_i raw q hq
        obtain ⟨hg, ⟨⟩⟩ := Option.ite_none_left_eq_some.mp h
        exact ⟨.right (some raw), (by simp), .rightTakes (by rw [hq]; exact .head raw q)
          (Node.step_journaled ⟨_, ⟨now, rfl⟩, Bool.eq_false_of_not_eq_true hg, rfl⟩)⟩
  | connectionTimeout now =>
      obtain ⟨hg, ⟨⟩⟩ := Option.ite_none_left_eq_some.mp h
      exact ⟨.right none, (by simp), .rightMoves
        (Node.step_journaled ⟨_, ⟨now, .inl rfl⟩, Bool.eq_false_of_not_eq_true hg, rfl⟩)⟩

theorem run_of_turns {turns : List Turn} (h : turns.foldlM (turn ccfg scfg) w = some w') :
    (system .fifo (Client.patientNode ccfg scfg.address).journaled
      (ClientConnection.patientNode scfg).journaled).Run (fun _ ℓ ↦ ℓ ≠ .lose) w w' := by
  induction turns generalizing w with
  | nil =>
      obtain rfl := Option.some.inj h
      exact Lts.Run.refl _
  | cons t turns ih =>
      obtain ⟨v, hv, h⟩ := Option.bind_eq_some_iff.mp h
      obtain ⟨ℓ, hok, hs⟩ := turn_sound hv
      have hfirst : (system .fifo (Client.patientNode ccfg scfg.address).journaled
          (ClientConnection.patientNode scfg).journaled).Run (fun _ ℓ ↦ ℓ ≠ .lose) w v :=
        .single hok hs
      exact hfirst.trans (ih h)

end Turns

end Rdt
