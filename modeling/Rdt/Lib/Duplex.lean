import Mathlib.Data.List.Sublists
import Rdt.Lib.Transition

/-!
# Two nodes joined by a pair of channels

A node reacts to a message or moves on its own, and emits messages.  The two
channels are lists of what is in flight; a discipline says which message may
be taken next.  Losing messages is always possible.
-/

namespace Rdt.Duplex

universe u v

/-- `fifo` keeps the order of what is not lost.  `unordered` keeps every message ever put
in, so that it may be delivered late, repeatedly, out of order or never. -/
inductive Discipline where
  | fifo
  | unordered
deriving DecidableEq, Repr

/-- `Take D q m q'`: under `D` the message `m` may come out of `q`, leaving `q'`. -/
inductive Take {μ : Type u} : Discipline → List μ → μ → List μ → Prop
  | head (m : μ) (q : List μ) : Take .fifo (m :: q) m q
  | any {m : μ} {q : List μ} (h : m ∈ q) : Take .unordered q m q

theorem Take.mem {μ : Type u} {D : Discipline} {q q' : List μ} {m : μ} (h : Take D q m q') :
    m ∈ q := by
  cases h with
  | head => exact List.mem_cons_self
  | any h => exact h

theorem Take.subset {μ : Type u} {D : Discipline} {q q' : List μ} {m : μ}
    (h : Take D q m q') : q' ⊆ q := by
  cases h with
  | head => exact List.subset_cons_self m q'
  | any => exact List.Subset.refl _

theorem Take.fifo_eq {μ : Type u} {q q' : List μ} {m : μ} (h : Take .fifo q m q') : q = m :: q' := by
  cases h
  rfl

theorem Take.map {μ μ' : Type u} {D : Discipline} {q q' : List μ} {m : μ} (p : μ → μ')
    (h : Take D q m q') : Take D (q.map p) (p m) (q'.map p) := by
  cases h with
  | head => exact .head _ _
  | any h => exact .any (List.mem_map_of_mem h)

/-- `step s (some m) s' outs` takes in `m`; `step s none s' outs` is a move of the node itself. -/
structure Node (σ ι ω : Type u) where
  step : σ → Option ι → σ → List ω → Prop

/-- The node of a deterministic machine; `events` lists the inputs an arrival or a local
move may stand for. -/
def Node.ofFun {σ ε ι ω : Type u} (f : σ → ε → σ × List ω) (events : Option ι → Set ε) :
    Node σ ι ω :=
  ⟨fun s i s' outs ↦ ∃ e ∈ events i, f s e = (s', outs)⟩

/-- The same, as long as the machine is only given inputs that `ok` allows in its state. -/
def Node.ofFunWhile {σ ε ι ω : Type u} (f : σ → ε → σ × List ω) (events : Option ι → Set ε)
    (ok : σ → ε → Prop) : Node σ ι ω :=
  ⟨fun s i s' outs ↦ ∃ e ∈ events i, ok s e ∧ f s e = (s', outs)⟩

/-- Both nodes and what is in flight between them. -/
structure World (σ τ μ ν : Type u) where
  left : σ
  right : τ
  toRight : List μ
  toLeft : List ν

/-- Which node moves, and on what. -/
inductive Label (μ ν : Type u) where
  | left (i : Option ν)
  | right (i : Option μ)
  | lose

variable {σ τ μ ν σ' τ' μ' ν' : Type u}

inductive Step (D : Discipline) (L : Node σ ν μ) (R : Node τ μ ν) :
    World σ τ μ ν → Label μ ν → World σ τ μ ν → Prop
  | leftTakes {w : World σ τ μ ν} {m : ν} {q : List ν} {s : σ} {outs : List μ}
      (ht : Take D w.toLeft m q) (hs : L.step w.left (some m) s outs) :
      Step D L R w (.left (some m)) ⟨s, w.right, w.toRight ++ outs, q⟩
  | leftMoves {w : World σ τ μ ν} {s : σ} {outs : List μ} (hs : L.step w.left none s outs) :
      Step D L R w (.left none) ⟨s, w.right, w.toRight ++ outs, w.toLeft⟩
  | rightTakes {w : World σ τ μ ν} {m : μ} {q : List μ} {t : τ} {outs : List ν}
      (ht : Take D w.toRight m q) (hs : R.step w.right (some m) t outs) :
      Step D L R w (.right (some m)) ⟨w.left, t, q, w.toLeft ++ outs⟩
  | rightMoves {w : World σ τ μ ν} {t : τ} {outs : List ν} (hs : R.step w.right none t outs) :
      Step D L R w (.right none) ⟨w.left, t, w.toRight, w.toLeft ++ outs⟩
  | lose {w : World σ τ μ ν} {p : List μ} {q : List ν} (hp : p.Sublist w.toRight)
      (hq : q.Sublist w.toLeft) : Step D L R w .lose ⟨w.left, w.right, p, q⟩

/-- The two nodes over channels of discipline `D`. -/
def system (D : Discipline) (L : Node σ ν μ) (R : Node τ μ ν) :
    Lts (World σ τ μ ν) (Label μ ν) := ⟨Step D L R⟩

/-! ## Invariants by contract -/

/-- A rely-guarantee argument for two nodes: a joint invariant, and what may be in flight in
each direction.  `ok` guards the steps of the right node. -/
structure Contract (L : Node σ ν μ) (R : Node τ μ ν) (ok : σ → τ → Option μ → Prop) where
  inv : σ → τ → Prop
  onRight : σ → τ → μ → Prop
  onLeft : σ → τ → ν → Prop
  left_step : ∀ {s t i s' outs}, inv s t → (∀ m, i = some m → onLeft s t m) →
    L.step s i s' outs → inv s' t ∧ (∀ o ∈ outs, onRight s' t o) ∧
      (∀ m, onRight s t m → onRight s' t m) ∧ (∀ m, onLeft s t m → onLeft s' t m)
  right_step : ∀ {s t i t' outs}, inv s t → (∀ m, i = some m → onRight s t m) → ok s t i →
    R.step t i t' outs → inv s t' ∧ (∀ o ∈ outs, onLeft s t' o) ∧
      (∀ m, onRight s t m → onRight s t' m) ∧ (∀ m, onLeft s t m → onLeft s t' m)

/-- The guard a contract puts on the labels of a world. -/
def guard (ok : σ → τ → Option μ → Prop) (w : World σ τ μ ν) : Label μ ν → Prop
  | .right i => ok w.left w.right i
  | _ => True

instance {ok : σ → τ → Option μ → Prop} [∀ s t i, Decidable (ok s t i)] (w : World σ τ μ ν)
    (ℓ : Label μ ν) : Decidable (guard ok w ℓ) :=
  match ℓ with
  | .right i => inferInstanceAs (Decidable (ok w.left w.right i))
  | .left _ | .lose => isTrue trivial

theorem guard_trivial (w : World σ τ μ ν) (ℓ : Label μ ν) : guard (fun _ _ _ ↦ True) w ℓ := by
  cases ℓ <;> trivial

namespace Contract

variable {L : Node σ ν μ} {R : Node τ μ ν} {ok : σ → τ → Option μ → Prop}

/-- The nodes satisfy the invariant and all that is in flight keeps its direction's promise. -/
structure Holds (C : Contract L R ok) (w : World σ τ μ ν) : Prop where
  inv : C.inv w.left w.right
  onRight : ∀ m ∈ w.toRight, C.onRight w.left w.right m
  onLeft : ∀ m ∈ w.toLeft, C.onLeft w.left w.right m

theorem Holds.step {C : Contract L R ok} {D : Discipline} {w w' : World σ τ μ ν} {ℓ : Label μ ν}
    (h : C.Holds w) (hok : guard ok w ℓ) (hs : Step D L R w ℓ w') : C.Holds w' := by
  cases hs with
  | @leftTakes m q s outs ht hs =>
      obtain ⟨hinv, hout, hr, hl⟩ := C.left_step h.inv
        (fun m' hm ↦ Option.some.inj hm ▸ h.onLeft m ht.mem) hs
      refine ⟨hinv, fun x hx ↦ ?_, fun x hx ↦ hl x (h.onLeft x (ht.subset hx))⟩
      exact (List.mem_append.mp hx).elim (fun hx ↦ hr x (h.onRight x hx)) (hout x)
  | @leftMoves s outs hs =>
      obtain ⟨hinv, hout, hr, hl⟩ := C.left_step h.inv (by rintro _ ⟨⟩) hs
      refine ⟨hinv, fun x hx ↦ ?_, fun x hx ↦ hl x (h.onLeft x hx)⟩
      exact (List.mem_append.mp hx).elim (fun hx ↦ hr x (h.onRight x hx)) (hout x)
  | @rightTakes m q t outs ht hs =>
      obtain ⟨hinv, hout, hr, hl⟩ := C.right_step h.inv
        (fun m' hm ↦ Option.some.inj hm ▸ h.onRight m ht.mem) hok hs
      refine ⟨hinv, fun x hx ↦ hr x (h.onRight x (ht.subset hx)), fun x hx ↦ ?_⟩
      exact (List.mem_append.mp hx).elim (fun hx ↦ hl x (h.onLeft x hx)) (hout x)
  | @rightMoves t outs hs =>
      obtain ⟨hinv, hout, hr, hl⟩ := C.right_step h.inv (by rintro _ ⟨⟩) hok hs
      refine ⟨hinv, fun x hx ↦ hr x (h.onRight x hx), fun x hx ↦ ?_⟩
      exact (List.mem_append.mp hx).elim (fun hx ↦ hl x (h.onLeft x hx)) (hout x)
  | lose hp hq =>
      exact ⟨h.inv, fun x hx ↦ h.onRight x (hp.subset hx), fun x hx ↦ h.onLeft x (hq.subset hx)⟩

end Contract

/-! ## Refinement of nodes, and with it of worlds -/

/-- Every move of `L` is a move of `L'` on the abstracted messages. -/
structure Refines {ι ω ι' ω' : Type u} (L : Node σ ι ω) (L' : Node σ' ι' ω') (p : ι → ι')
    (q : ω → ω') where
  rel : σ → σ' → Prop
  step : ∀ {s a i s' outs}, rel s a → L.step s i s' outs →
    ∃ a', L'.step a (i.map p) a' (outs.map q) ∧ rel s' a'

/-! ## Nodes with a record of what they emitted -/

/-- The node together with all it has emitted. -/
def Node.logged {ι ω : Type u} (N : Node σ ι ω) : Node (σ × List ω) ι ω :=
  ⟨fun s i s' outs ↦ N.step s.1 i s'.1 outs ∧ s'.2 = s.2 ++ outs⟩

/-- A machine that keeps such a record. -/
def logging {ε ω : Type u} (f : σ → ε → σ × List ω) (s : σ × List ω) (e : ε) :
    (σ × List ω) × List ω :=
  (((f s.1 e).1, s.2 ++ (f s.1 e).2), (f s.1 e).2)

/-- The machine and its record once it has been given some inputs. -/
def record {ε ω : Type u} (f : σ → ε → σ × List ω) (s : σ × List ω) (es : List ε) : σ × List ω :=
  es.foldl (fun s e ↦ (logging f s e).1) s

/-- What every step keeps of the machine and its record holds of them at the end. -/
theorem record_invariant {ε ω : Type u} {f : σ → ε → σ × List ω} {I : σ → List ω → Prop}
    (keep : ∀ {s log} e, I s log → I (f s e).1 (log ++ (f s e).2)) {s : σ × List ω}
    (h : I s.1 s.2) (es : List ε) : I (record f s es).1 (record f s es).2 := by
  induction es generalizing s with
  | nil => exact h
  | cons e es ih => exact ih (keep e h)

/-- A refinement takes the record along. -/
def Refines.logging {ε ι ω ι' ω' : Type u} {f : σ → ε → σ × List ω} {events : Option ι → Set ε}
    {L' : Node σ' ι' ω'} {p : ι → ι'} {q : ω → ω'} (r : Refines (.ofFun f events) L' p q) :
    Refines (.ofFun (Duplex.logging f) events) L'.logged p q where
  rel s a := r.rel s.1 a.1 ∧ a.2 = s.2.map q
  step := by
    rintro s a i s' outs ⟨hrel, hlog⟩ ⟨e, he, hstep⟩
    obtain ⟨rfl, rfl⟩ := Prod.mk.inj hstep
    have hmoves : (Node.ofFun f events).step s.1 i (f s.1 e).1 (f s.1 e).2 := ⟨e, he, rfl⟩
    obtain ⟨a', ha, hrel'⟩ := r.step hrel hmoves
    exact ⟨(a', a.2 ++ (f s.1 e).2.map q), ⟨ha, rfl⟩, hrel', by simp [hlog]⟩

section Logged

variable {ε : Type u} {f : σ → ε → σ × List μ} {events : Option ν → Set ε} {R : Node τ μ ν}
  {D : Discipline} {w w' : World (σ × List μ) τ μ ν}

/-- The record starts here. -/
def World.logged (w : World σ τ μ ν) : World (σ × List μ) τ μ ν :=
  ⟨(w.left, []), w.right, w.toRight, w.toLeft⟩

def World.unlogged (w : World (σ × List μ) τ μ ν) : World σ τ μ ν :=
  ⟨w.left.1, w.right, w.toRight, w.toLeft⟩

theorem Step.unlogged {ℓ : Label μ ν} (h : Step D (.ofFun (logging f) events) R w ℓ w') :
    Step D (.ofFun f events) R w.unlogged ℓ w'.unlogged := by
  cases h with
  | leftTakes ht hs =>
      obtain ⟨e, he, hs⟩ := hs
      obtain ⟨rfl, rfl⟩ := Prod.mk.inj hs
      exact .leftTakes ht ⟨e, he, rfl⟩
  | leftMoves hs =>
      obtain ⟨e, he, hs⟩ := hs
      obtain ⟨rfl, rfl⟩ := Prod.mk.inj hs
      exact .leftMoves ⟨e, he, rfl⟩
  | rightTakes ht hs => exact .rightTakes ht hs
  | rightMoves hs => exact .rightMoves hs
  | lose hp hq => exact .lose hp hq

theorem Reaches.unlogged (h : (system D (.ofFun (logging f) events) R).Reaches w w') :
    (system D (.ofFun f events) R).Reaches w.unlogged w'.unlogged :=
  h.lift World.unlogged fun _ _ ⟨ℓ, hok, hs⟩ ↦ ⟨ℓ, hok, Step.unlogged hs⟩

/-- A run with a record has the same worlds. -/
theorem Step.logged {v : World σ τ μ ν} {ℓ : Label μ ν}
    (h : Step D (.ofFun f events) R w.unlogged ℓ v) :
    ∃ w', Step D (.ofFun (logging f) events) R w ℓ w' ∧ w'.unlogged = v := by
  cases h with
  | leftTakes ht hs =>
      obtain ⟨e, he, hs⟩ := hs
      obtain ⟨rfl, rfl⟩ := Prod.mk.inj hs
      exact ⟨_, .leftTakes ht ⟨e, he, rfl⟩, rfl⟩
  | leftMoves hs =>
      obtain ⟨e, he, hs⟩ := hs
      obtain ⟨rfl, rfl⟩ := Prod.mk.inj hs
      exact ⟨_, .leftMoves ⟨e, he, rfl⟩, rfl⟩
  | rightTakes ht hs => exact ⟨_, .rightTakes ht hs, rfl⟩
  | rightMoves hs => exact ⟨_, .rightMoves hs, rfl⟩
  | lose hp hq => exact ⟨_, .lose hp hq, rfl⟩

theorem Reaches.logged {u v : World σ τ μ ν} (h : (system D (.ofFun f events) R).Reaches u v) :
    ∃ w, (system D (.ofFun (logging f) events) R).Reaches u.logged w ∧ w.unlogged = v := by
  refine Lts.Run.simulate h (fun v (w : World (σ × List μ) τ μ ν) ↦ w.unlogged = v) rfl ?_
  rintro _ ℓ v' w rfl _ hs
  obtain ⟨w', hs', rfl⟩ := Step.logged hs
  exact ⟨w', .single trivial hs', rfl⟩

end Logged

def Label.map (p : μ → μ') (q : ν → ν') : Label μ ν → Label μ' ν'
  | .left i => .left (i.map q)
  | .right i => .right (i.map p)
  | .lose => .lose

variable {L : Node σ ν μ} {R : Node τ μ ν} {L' : Node σ' ν' μ'} {R' : Node τ' μ' ν'}
  {p : μ → μ'} {q : ν → ν'}

/-- Related nodes, and the abstraction of what is in flight. -/
structure Related (rl : Refines L L' q p) (rr : Refines R R' p q) (w : World σ τ μ ν)
    (v : World σ' τ' μ' ν') : Prop where
  left : rl.rel w.left v.left
  right : rr.rel w.right v.right
  toRight : v.toRight = w.toRight.map p
  toLeft : v.toLeft = w.toLeft.map q

theorem Related.step {rl : Refines L L' q p} {rr : Refines R R' p q} {D : Discipline}
    {w w' : World σ τ μ ν} {v : World σ' τ' μ' ν'} {ℓ : Label μ ν} (h : Related rl rr w v)
    (hs : Step D L R w ℓ w') :
    ∃ v', Step D L' R' v (ℓ.map p q) v' ∧ Related rl rr w' v' := by
  obtain ⟨vl, vr, vtr, vtl⟩ := v
  obtain ⟨hl, hr, htr, htl⟩ := h
  dsimp only at hl hr htr htl
  subst htr htl
  cases hs with
  | @leftTakes m q' s outs ht hs =>
      obtain ⟨a, ha, hrel⟩ := rl.step hl hs
      exact ⟨_, .leftTakes (ht.map q) ha, hrel, hr, by simp, rfl⟩
  | @leftMoves s outs hs =>
      obtain ⟨a, ha, hrel⟩ := rl.step hl hs
      exact ⟨_, .leftMoves ha, hrel, hr, by simp, rfl⟩
  | @rightTakes m q' t outs ht hs =>
      obtain ⟨a, ha, hrel⟩ := rr.step hr hs
      exact ⟨_, .rightTakes (ht.map p) ha, hl, hrel, rfl, by simp⟩
  | @rightMoves t outs hs =>
      obtain ⟨a, ha, hrel⟩ := rr.step hr hs
      exact ⟨_, .rightMoves ha, hl, hrel, rfl, by simp⟩
  | lose hp hq =>
      exact ⟨_, .lose (hp.map p) (hq.map q), hl, hr, rfl, rfl⟩

/-- A run of the refined world is one of the abstract world, where a contract keeps holding. -/
theorem Related.run {rl : Refines L L' q p} {rr : Refines R R' p q} {D : Discipline}
    {w w' : World σ τ μ ν} {v : World σ' τ' μ' ν'} {ok : World σ τ μ ν → Label μ ν → Prop}
    {ok' : σ' → τ' → Option μ' → Prop} {C : Contract L' R' ok'}
    (hok : ∀ {w v ℓ}, Related rl rr w v → C.Holds v → ok w ℓ → guard ok' v (ℓ.map p q))
    (h : Related rl rr w v) (hv : C.Holds v) (hr : (system D L R).Run ok w w') :
    ∃ v', (system D L' R').Run (guard ok') v v' ∧ Related rl rr w' v' ∧ C.Holds v' := by
  refine hr.simulate (fun w v ↦ Related rl rr w v ∧ C.Holds v) ⟨h, hv⟩ ?_
  intro s ℓ s' a ⟨hrel, hholds⟩ hadm hstep
  obtain ⟨a', ha, hrel'⟩ := Related.step hrel hstep
  have hguard := hok hrel hholds hadm
  exact ⟨a', Lts.Run.single hguard ha, hrel', hholds.step hguard ha⟩

end Rdt.Duplex
