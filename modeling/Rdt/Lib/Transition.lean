import Mathlib.Data.List.Induction
import Mathlib.Logic.Relation
import Mathlib.Order.Defs.PartialOrder

/-! # Labelled transition systems and guarded runs -/

namespace Rdt

universe u v

/-- A transition system whose steps carry labels. -/
structure Lts (S : Type u) (Λ : Type v) where
  step : S → Λ → S → Prop

namespace Lts

variable {S T : Type u} {Λ Λ' : Type v}

/-- Finitely many steps, each admitted by `ok` in the state it leaves. -/
def Run (M : Lts S Λ) (ok : S → Λ → Prop) : S → S → Prop :=
  Relation.ReflTransGen fun s t ↦ ∃ ℓ, ok s ℓ ∧ M.step s ℓ t

/-- Unguarded reachability. -/
abbrev Reaches (M : Lts S Λ) : S → S → Prop := M.Run fun _ _ ↦ True

variable {M : Lts S Λ} {ok : S → Λ → Prop} {s t : S}

theorem Run.refl (s : S) : M.Run ok s s := Relation.ReflTransGen.refl

theorem Run.trans {r : S} (h : M.Run ok r s) (h' : M.Run ok s t) : M.Run ok r t :=
  Relation.ReflTransGen.trans h h'

theorem Run.tail {r : S} {ℓ : Λ} (h : M.Run ok r s) (hok : ok s ℓ) (hs : M.step s ℓ t) :
    M.Run ok r t :=
  Relation.ReflTransGen.tail h ⟨ℓ, hok, hs⟩

theorem Run.single {ℓ : Λ} (hok : ok s ℓ) (hs : M.step s ℓ t) : M.Run ok s t :=
  Run.tail (Run.refl s) hok hs

theorem Run.mono {ok' : S → Λ → Prop} (h : M.Run ok s t) (hok : ∀ s ℓ, ok s ℓ → ok' s ℓ) :
    M.Run ok' s t := by
  induction h with
  | refl => exact Run.refl s
  | tail _ hstep ih =>
      obtain ⟨ℓ, hℓ, hstep⟩ := hstep
      exact ih.tail (hok _ ℓ hℓ) hstep

theorem Run.reaches (h : M.Run ok s t) : M.Reaches s t := h.mono fun _ _ _ ↦ trivial

/-- What the admitted steps keep holds wherever an admitted run leads. -/
theorem Run.invariant {I : S → Prop} (h : M.Run ok s t)
    (keep : ∀ {s ℓ t}, I s → ok s ℓ → M.step s ℓ t → I t) (hs : I s) : I t := by
  induction h with
  | refl => exact hs
  | tail _ hstep ih =>
      obtain ⟨ℓ, hok, hstep⟩ := hstep
      exact keep ih hok hstep

/-- A quantity no step decreases where an invariant holds never falls along a run. -/
theorem Run.le_of_step {α : Type*} [Preorder α] {I : S → Prop} (f : S → α)
    (h : M.Run ok s t) (keep : ∀ {s ℓ t}, I s → ok s ℓ → M.step s ℓ t → I t)
    (grow : ∀ {s ℓ t}, I s → ok s ℓ → M.step s ℓ t → f s ≤ f t) (hs : I s) : f s ≤ f t := by
  have key : I t ∧ f s ≤ f t := by
    refine h.invariant (I := fun r ↦ I r ∧ f s ≤ f r) ?_ ⟨hs, le_refl _⟩
    intro r ℓ r' hr hok hstep
    exact ⟨keep hr.1 hok hstep, le_trans hr.2 (grow hr.1 hok hstep)⟩
  exact key.2

/-- Forward simulation of one admitted step at a time carries over to runs. -/
theorem Run.simulate {N : Lts T Λ'} {ok' : T → Λ' → Prop} {a : T}
    (h : M.Run ok s t) (rel : S → T → Prop) (ha : rel s a)
    (sim : ∀ {s ℓ s' a}, rel s a → ok s ℓ → M.step s ℓ s' → ∃ a', N.Run ok' a a' ∧ rel s' a') :
    ∃ b, N.Run ok' a b ∧ rel t b := by
  induction h with
  | refl => exact ⟨a, Run.refl a, ha⟩
  | tail _ hstep ih =>
      obtain ⟨b, hrun, hrel⟩ := ih
      obtain ⟨ℓ, hok, hstep⟩ := hstep
      obtain ⟨b', hrun', hrel'⟩ := sim hrel hok hstep
      exact ⟨b', hrun.trans hrun', hrel'⟩

/-! ## Deterministic machines and their inputs -/

section Inputs

variable {σ ε : Type*} (f : σ → ε → σ)

/-- Every input is admitted by `ok` in the state that gets it. -/
def Admits (ok : σ → ε → Prop) : σ → List ε → Prop
  | _, [] => True
  | s, e :: es => ok s e ∧ Admits ok (f s e) es

instance Admits.decidable {ok : σ → ε → Prop} [∀ s e, Decidable (ok s e)] :
    ∀ (s : σ) (es : List ε), Decidable (Admits f ok s es)
  | _, [] => isTrue trivial
  | s, e :: es =>
      have : Decidable (Admits f ok (f s e) es) := Admits.decidable (f s e) es
      inferInstanceAs (Decidable (ok s e ∧ Admits f ok (f s e) es))

/-- `P` holds in every state the inputs lead through. -/
def Always (P : σ → Prop) (s : σ) (es : List ε) : Prop :=
  ∀ before, before <+: es → P (before.foldl f s)

variable {f} {ok : σ → ε → Prop} {P : σ → Prop} {s : σ}

theorem always_nil : Always f P s [] ↔ P s := by
  simp [Always]

theorem always_cons {e : ε} {es : List ε} :
    Always f P s (e :: es) ↔ P s ∧ Always f P (f s e) es := by
  refine ⟨fun h ↦ ⟨h [] (List.nil_prefix), fun before hb ↦ h (e :: before) ?_⟩, ?_⟩
  · exact (List.prefix_cons_inj e).mpr hb
  · rintro ⟨hs, h⟩ before hb
    cases before with
    | nil => exact hs
    | cons e' before =>
        obtain ⟨rfl, hb'⟩ := List.cons_prefix_cons.mp hb
        exact h before hb'

theorem admits_append {es es' : List ε} :
    Admits f ok s (es ++ es') ↔ Admits f ok s es ∧ Admits f ok (es.foldl f s) es' := by
  induction es generalizing s with
  | nil => simp [Admits]
  | cons e es ih => simp [Admits, ih, and_assoc]

/-- What admitted inputs keep holds after all of them; `I` may look at the inputs so far. -/
theorem Admits.invariant {I : List ε → σ → Prop} {es : List ε} (h : Admits f ok s es)
    (hs : I [] s) (keep : ∀ {es t e}, t = es.foldl f s → I es t → ok t e → I (es ++ [e]) (f t e)) :
    I es (es.foldl f s) := by
  induction es using List.reverseRecOn with
  | nil => exact hs
  | append_singleton es e ih =>
      obtain ⟨hes, hok, -⟩ := admits_append.mp h
      rw [List.foldl_append]
      exact keep rfl (ih hes) hok

end Inputs

end Lts

end Rdt
