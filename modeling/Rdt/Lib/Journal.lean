import Rdt.Lib.Duplex

/-!
# Nodes with a journal of their steps

The journal tells how many messages of a kind a node has sent, and which of its steps it took
without anything coming in.
-/

namespace Rdt.Duplex

universe u

variable {σ τ μ ν α ω : Type u}

/-- A step of a node: its state before and after, what came in, what was sent. -/
structure Entry (σ α ω : Type u) where
  before : σ
  input : Option α
  after : σ
  outs : List ω

/-- The node together with all the steps it took. -/
def Node.journaled (N : Node σ α ω) : Node (σ × List (Entry σ α ω)) α ω :=
  ⟨fun s i s' outs ↦ N.step s.1 i s'.1 outs ∧ s'.2 = s.2 ++ [⟨s.1, i, s'.1, outs⟩]⟩

theorem Node.step_journaled {N : Node σ α ω} {s : σ × List (Entry σ α ω)} {i : Option α} {s' : σ}
    {outs : List ω} (h : N.step s.1 i s' outs) :
    N.journaled.step s i (s', s.2 ++ [⟨s.1, i, s', outs⟩]) outs := ⟨h, rfl⟩

theorem Node.journaled_cases {N : Node σ α ω} {s s' : σ × List (Entry σ α ω)} {i : Option α}
    {outs : List ω} (h : N.journaled.step s i s' outs) :
    ∃ t, N.step s.1 i t outs ∧ s' = (t, s.2 ++ [⟨s.1, i, t, outs⟩]) :=
  ⟨s'.1, h.1, Prod.ext rfl h.2⟩

/-- Two nodes with their journals -/
abbrev Journaled (σ τ μ ν : Type u) :=
  World (σ × List (Entry σ ν μ)) (τ × List (Entry τ μ ν)) μ ν

/-- The journals start here. -/
def World.journaled (w : World σ τ μ ν) : Journaled σ τ μ ν :=
  ⟨(w.left, []), (w.right, []), w.toRight, w.toLeft⟩

def World.forget (w : Journaled σ τ μ ν) : World σ τ μ ν :=
  ⟨w.left.1, w.right.1, w.toRight, w.toLeft⟩

/-! ## Runs -/

section Runs

variable {D : Discipline} {L : Node σ ν μ} {R : Node τ μ ν}

/-- A step with journals, of which the nodes only see their own states. -/
theorem Step.journaled {w : Journaled σ τ μ ν} {ℓ : Label μ ν} {v : World σ τ μ ν}
    (h : Step D L R w.forget ℓ v) :
    ∃ w', Step D L.journaled R.journaled w ℓ w' ∧ w'.forget = v := by
  cases h with
  | leftTakes ht hs => exact ⟨_, .leftTakes ht (Node.step_journaled hs), rfl⟩
  | leftMoves hs => exact ⟨_, .leftMoves (Node.step_journaled hs), rfl⟩
  | rightTakes ht hs => exact ⟨_, .rightTakes ht (Node.step_journaled hs), rfl⟩
  | rightMoves hs => exact ⟨_, .rightMoves (Node.step_journaled hs), rfl⟩
  | lose hp hq => exact ⟨_, .lose hp hq, rfl⟩

/-- Every run can be journaled. -/
theorem Reaches.journaled {w v : World σ τ μ ν} (h : (system D L R).Reaches w v) :
    ∃ w', (system D L.journaled R.journaled).Reaches w.journaled w' ∧ w'.forget = v := by
  refine Lts.Run.simulate h (fun v (w : Journaled σ τ μ ν) ↦ w.forget = v) rfl ?_
  rintro _ ℓ v' w rfl _ hs
  obtain ⟨w', hs', rfl⟩ := Step.journaled hs
  exact ⟨w', .single trivial hs', rfl⟩

/-- The worlds of a run without the journals -/
theorem Step.forget {w w' : Journaled σ τ μ ν} {ℓ : Label μ ν}
    (h : Step D L.journaled R.journaled w ℓ w') : Step D L R w.forget ℓ w'.forget := by
  cases h with
  | leftTakes ht hs => exact .leftTakes ht hs.1
  | leftMoves hs => exact .leftMoves hs.1
  | rightTakes ht hs => exact .rightTakes ht hs.1
  | rightMoves hs => exact .rightMoves hs.1
  | lose hp hq => exact .lose hp hq

theorem Run.forget {w w' : Journaled σ τ μ ν} {ok : Label μ ν → Prop}
    (h : (system D L.journaled R.journaled).Run (fun _ ℓ ↦ ok ℓ) w w') :
    (system D L R).Run (fun _ ℓ ↦ ok ℓ) w.forget w'.forget :=
  h.lift World.forget fun _ _ ⟨ℓ, hok, hs⟩ ↦ ⟨ℓ, hok, hs.forget⟩

end Runs

/-! ## Sums over a journal -/

/-- How many messages of a kind were sent; what counts may depend on the state reached. -/
def sent (p : σ → ω → Bool) : List (Entry σ α ω) → Nat
  | [] => 0
  | e :: j => e.outs.countP (p e.after) + sent p j

/-- The node has sent something on its own. -/
def Entry.expired (e : Entry σ α ω) : Bool := e.input.isNone && !e.outs.isEmpty

/-- What is allowed for all that was sent so. -/
def allowance (a : σ → Nat) : List (Entry σ α ω) → Nat
  | [] => 0
  | e :: j => (if e.expired then a e.before else 0) + allowance a j

@[simp] theorem sent_nil (p : σ → ω → Bool) : sent p ([] : List (Entry σ α ω)) = 0 := rfl

@[simp] theorem allowance_nil (a : σ → Nat) : allowance a ([] : List (Entry σ α ω)) = 0 := rfl

section Sums

variable {a : σ → Nat} {p : σ → ω → Bool} {j : List (Entry σ α ω)} {s s' : σ} {outs : List ω} {n : Nat}

theorem sent_append (i : Option α) :
    sent p (j ++ [⟨s, i, s', outs⟩]) = sent p j + outs.countP (p s') := by
  induction j with
  | nil => exact Nat.add_comm _ _
  | cons e j ih => rw [List.cons_append, sent, ih, sent, Nat.add_assoc]

theorem allowance_append (e : Entry σ α ω) :
    allowance a (j ++ [e]) = allowance a j + if e.expired then a e.before else 0 := by
  induction j with
  | nil => exact Nat.add_comm _ _
  | cons e' j ih => rw [List.cons_append, allowance, ih, allowance, Nat.add_assoc]

/-- What is sent in answer to something is not allowed for. -/
theorem allowance_append_some (m : α) :
    allowance a (j ++ [⟨s, some m, s', outs⟩]) = allowance a j := by
  simp [allowance_append, Entry.expired]

theorem allowance_append_none (h : outs ≠ [] → n ≤ a s) (hnil : outs = [] → n = 0) :
    allowance a j + n ≤ allowance a (j ++ [⟨s, none, s', outs⟩]) := by
  rw [allowance_append]
  cases outs with
  | nil => simp [Entry.expired, hnil rfl]
  | cons o outs => simpa [Entry.expired] using h (List.cons_ne_nil o outs)

end Sums

end Rdt.Duplex
