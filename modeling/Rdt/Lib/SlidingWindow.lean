import Mathlib.Data.List.Basic
import Mathlib.Tactic.Cases
import Rdt.Lib.Duplex

/-!
# A sliding window sender and an in-order receiver

Chunk `i` travels under the number `offset + i`.  The receiver answers with the number it
last took or, to anything unexpected, with the one it waits for; the sender moves its window
up to the number of any answer.  Both count with `bump`, which may wrap around.
-/

namespace Rdt.SlidingWindow

open Duplex

variable {β : Type}

/-- A message of the sender. -/
structure Data (β : Type) where
  number : Nat
  last : Bool
  payload : List β

/-- A message of the receiver; `bare` marks the one that tells it is done. -/
structure Reply where
  number : Nat
  ack : Nat
  bare : Bool

/-- The transfer: its chunks, of which the first `first` are delivered beforehand. -/
structure Transfer (β : Type) where
  chunks : List (List β)
  first : Nat
  offset : Nat
  window : Nat
  bump : Nat → Nat

variable (P : Transfer β)

def Transfer.total : Nat := P.chunks.length

def Transfer.chunk (i : Nat) : Data β where
  number := P.offset + i
  last := i = P.total - 1
  payload := P.chunks.getD i []

/-! ## The sender -/

/-- `early` tells that the sender stopped on an answer, with chunks it may not have sent.
Nothing is known of a sender in `chaos`: it got an answer no receiver gives. -/
inductive SenderPhase where
  | window
  | await
  | blocked
  | closing (early : Bool)
  | dead
  | chaos
deriving DecidableEq

structure Sender where
  base : Nat
  next : Nat
  phase : SenderPhase
  reported : Bool

namespace Sender

def start : Sender := ⟨P.first, P.first, .window, false⟩

def advance (s : Sender) (r : Reply) : Nat :=
  if P.offset + s.base ≤ r.ack then r.ack - P.offset else s.base

def windowFull (s : Sender) : Prop := ¬(s.next < s.base + P.window ∧ s.next < P.total)

def Closed (s : Sender) : Prop := s.phase = .dead ∨ ∃ early, s.phase = .closing early

/-- An answer that tells that all is done, but does not name the last chunk. -/
def Lies (r : Reply) : Prop := r.bare ∧ r.ack + 1 ≠ P.offset + P.total

/-- What a closing sender may say: a chunk of its window again, or one number past the last
it used without data; an early one does not claim that this ends the transfer. -/
inductive Says (s : Sender) : Option (Data β) → Prop
  | chunk {i : Nat} (hb : i < s.base + P.window) (hn : i < P.total) : Says s (some (P.chunk i))
  | control {d : Data β} (hd : d.number = P.bump (P.offset + s.next - 1)) (hp : d.payload = [])
      (hl : d.last → s.phase ≠ .closing true) : Says s (some d)

/-- Inputs are answers, or `none` for what is not even a message. -/
inductive Step : Sender → Option (Option Reply) → Sender → List (Option (Data β)) → Prop
  | stutter (s : Sender) (i : Option (Option Reply)) : Step s i s []
  | die (s : Sender) (i : Option (Option Reply)) : Step s i { s with phase := .dead } []
  | send {s : Sender} (hp : s.phase = .window) (hw : s.next < s.base + P.window)
      (hn : s.next < P.total) :
      Step s none { s with next := P.bump s.next } [some (P.chunk s.next)]
  | await {s : Sender} (hp : s.phase = .window) (hw : s.windowFull P) :
      Step s none { s with phase := .await } []
  | block {s : Sender} (hp : s.phase = .await) (hb : s.base + 1 ≠ P.total) :
      Step s none { s with phase := .blocked } []
  | complete {s : Sender} (hp : s.phase = .await) (hb : s.base + 1 = P.total) :
      Step s none { s with phase := .closing false } []
  | timeout {s : Sender} (hp : s.phase = .blocked) :
      Step s none { s with next := s.base, phase := .window } []
  | answer {s : Sender} (r : Reply) (hp : s.phase = .blocked) :
      Step s (some (some r)) { s with base := s.advance P r, phase := .window } []
  | again {s : Sender} (r : Reply) (hp : s.phase = .blocked) :
      Step s (some (some r))
        { s with base := s.advance P r, next := s.advance P r, phase := .window } []
  | stop {s : Sender} (r : Reply) (hp : s.phase = .blocked)
      (hb : s.advance P r + 1 = P.total) :
      Step s (some (some r)) { s with base := s.advance P r, phase := .closing true } []
  | told {s : Sender} (r : Reply) (reported : Bool) {outs : List (Option (Data β))}
      (hp : s.phase = .blocked) (hr : r.bare)
      (houts : ∀ o ∈ outs,
        Says P { s with base := s.advance P r, phase := .closing false, reported } o) :
      Step s (some (some r))
        { s with base := s.advance P r, phase := .closing false, reported } outs
  | report {s : Sender} (r : Reply) {early : Bool} {outs : List (Option (Data β))}
      (hp : s.phase = .closing early) (hr : r.number = P.offset + s.next - 1)
      (houts : ∀ o ∈ outs, Says P s o) :
      Step s (some (some r)) { s with reported := true } outs
  | say {s : Sender} (i : Option (Option Reply)) {early : Bool} {outs : List (Option (Data β))}
      (hp : s.phase = .closing early) (houts : ∀ o ∈ outs, Says P s o) :
      Step s i s outs
  | garbage (s : Sender) (outs : List (Option (Data β))) :
      Step s (some none) { s with phase := .chaos } outs
  | lie (s : Sender) (r : Reply) (hr : Lies P r) (outs : List (Option (Data β))) :
      Step s (some (some r)) { s with phase := .chaos } outs
  | overshoot {s : Sender} (i : Option (Option Reply)) (hp : s.phase = .blocked)
      (hb : P.total ≤ s.base ∨ ∃ r, i = some (some r) ∧ P.total ≤ s.advance P r)
      (outs : List (Option (Data β))) : Step s i { s with phase := .chaos } outs
  | chaos {s : Sender} (i : Option (Option Reply)) (hp : s.phase = .chaos)
      (outs : List (Option (Data β))) : Step s i s outs

def node : Node Sender (Option Reply) (Option (Data β)) := ⟨Step P⟩

variable {P}

theorem le_advance (s : Sender) (r : Reply) : s.base ≤ s.advance P r := by
  unfold advance
  split <;> omega

theorem Step.base_le {s s' : Sender} {i : Option (Option Reply)} {outs : List (Option (Data β))}
    (h : Step P s i s' outs) : s.base ≤ s'.base := by
  cases h with
  | answer r | again r | stop r | told r => exact s.le_advance r
  | _ => exact le_refl _

end Sender

/-! ## The receiver -/

inductive ReceiverPhase where
  | first
  | loop
  | finished
  | dead
  | chaos
deriving DecidableEq

/-- `pieces` is all that was taken so far, without empty payloads. -/
structure Receiver (β : Type) where
  phase : ReceiverPhase
  number : Nat
  pieces : List (List β)

/-- One more piece, unless it is empty. -/
def push (pieces : List (List β)) (payload : List β) : List (List β) :=
  match payload with
  | [] => pieces
  | b :: bs => pieces ++ [b :: bs]

namespace Receiver

def start : Receiver β := ⟨.first, P.offset + P.first - 1, P.chunks.take P.first⟩

/-- An answer that names `n` and does not tell that all is done. -/
def Names (n : Nat) (o : Option Reply) : Prop := o = some ⟨n, n, false⟩

/-- The answers of a receiver that is done. -/
def Closes (n : Nat) (o : Option Reply) : Prop := ∃ bare, o = some ⟨n, n, bare⟩

inductive Step : Receiver β → Option (Option (Data β)) → Receiver β → List (Option Reply) → Prop
  | stutter (t : Receiver β) (i : Option (Option (Data β))) : Step t i t []
  | die (t : Receiver β) (i : Option (Option (Data β))) : Step t i { t with phase := .dead } []
  | wait {t : Receiver β} (d : Data β) {outs : List (Option Reply)} (hp : t.phase = .first)
      (hd : d.number ≠ t.number + 1) (houts : ∀ o ∈ outs, Names t.number o) :
      Step t (some (some d)) t outs
  | drop {t : Receiver β} (d : Data β) (hp : t.phase = .first) (hd : d.number = t.number + 1)
      (hl : d.last = false) :
      Step t (some (some d)) { t with phase := .loop, number := P.bump t.number } []
  | only {t : Receiver β} (d : Data β) {outs : List (Option Reply)} (hp : t.phase = .first)
      (hd : d.number = t.number + 1) (hl : d.last)
      (houts : ∀ o ∈ outs, Closes (P.bump t.number) o) :
      Step t (some (some d)) ⟨.finished, P.bump t.number, push t.pieces d.payload⟩ outs
  | take {t : Receiver β} (d : Data β) {outs : List (Option Reply)} (hp : t.phase = .loop)
      (hd : d.number = t.number) (hl : d.last = false) (houts : ∀ o ∈ outs, Names t.number o) :
      Step t (some (some d)) ⟨.loop, P.bump t.number, push t.pieces d.payload⟩ outs
  | finish {t : Receiver β} (d : Data β) {outs : List (Option Reply)} (hp : t.phase = .loop)
      (hd : d.number = t.number) (hl : d.last) (houts : ∀ o ∈ outs, Closes t.number o) :
      Step t (some (some d)) ⟨.finished, t.number, push t.pieces d.payload⟩ outs
  | refuse {t : Receiver β} (d : Data β) {outs : List (Option Reply)} (hp : t.phase = .loop)
      (hd : d.number ≠ t.number) (houts : ∀ o ∈ outs, Names t.number o) :
      Step t (some (some d)) t outs
  | say {t : Receiver β} (i : Option (Option (Data β))) {outs : List (Option Reply)}
      (hp : t.phase = .finished) (houts : ∀ o ∈ outs, Closes t.number o) :
      Step t i t outs
  | garbage (t : Receiver β) (outs : List (Option Reply)) :
      Step t (some none) { t with phase := .chaos } outs
  | chaos {t : Receiver β} (i : Option (Option (Data β))) (hp : t.phase = .chaos)
      (outs : List (Option Reply)) : Step t i t outs

def node : Node (Receiver β) (Option (Data β)) (Option Reply) := ⟨Step P⟩

end Receiver

variable {P}

/-- The window never moves back. -/
theorem base_le_of_run {D : Discipline}
    {ok : World Sender (Receiver β) (Option (Data β)) (Option Reply) →
      Label (Option (Data β)) (Option Reply) → Prop}
    {v v' : World Sender (Receiver β) (Option (Data β)) (Option Reply)}
    (h : (system D (Sender.node P) (Receiver.node P)).Run ok v v') : v.left.base ≤ v'.left.base := by
  refine Lts.Run.le_of_step (I := fun _ ↦ True) (fun w ↦ w.left.base) h (fun _ _ _ ↦ trivial) ?_ trivial
  intro w ℓ w' _ _ hs
  cases hs with
  | leftTakes _ hs => exact Sender.Step.base_le hs
  | leftMoves hs => exact Sender.Step.base_le hs
  | rightTakes | rightMoves | lose => exact le_refl _

end Rdt.SlidingWindow
