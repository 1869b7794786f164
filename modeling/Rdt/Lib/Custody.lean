import Mathlib.Logic.Function.Basic
import Mathlib.Logic.Relation

/-!
# Stores whose keys are held

Agents that share a store, each holding at most one of its keys: they write and remove only what they
hold, and take only what is free.  What nobody holds stays, whatever they do.
-/

namespace Rdt.Custody

universe u v w

variable {ι : Type u} {κ : Type v} {υ : Type w} [DecidableEq κ]

/-- What one agent does to the store `s` and to the key it holds. -/
inductive Acts (s : κ → Option υ) (held : Option κ) (s' : κ → Option υ) (held' : Option κ) : Prop
  | rests (hs : s' = s) (hheld : held' = held)
  | takes {k : κ} {x : υ} (hfree : s k = none) (hnone : held = none)
      (hs : s' = Function.update s k (some x)) (hheld : held' = some k)
  | writes {k : κ} {x : υ} (hold : held = some k) (hs : s' = Function.update s k (some x))
      (hheld : held' = some k)
  | leaves (hs : s' = s) (hheld : held' = none)
  | removes {k : κ} (hold : held = some k) (hs : s' = Function.update s k none) (hheld : held' = none)

variable {s s' : κ → Option υ} {held held' : Option κ} {k : κ} {x : υ}

/-- An agent leaves what is stored alone, but for what it holds. -/
theorem Acts.stays (h : Acts s held s' held') (hk : held ≠ some k) (hx : s k = some x) :
    s' k = some x := by
  have aside : ∀ {k' : κ} (y : Option υ), k ≠ k' → Function.update s k' y k = some x := by
    intro k' y hne
    rw [Function.update_of_ne hne, hx]
  cases h with
  | rests hs | leaves hs => rw [hs, hx]
  | takes hfree _ hs =>
      rw [hs]
      refine aside _ ?_
      rintro rfl
      cases hfree.symm.trans hx
  | writes hold hs | removes hold hs =>
      rw [hs]
      refine aside _ ?_
      rintro rfl
      exact hk hold

/-- What an agent newly holds was free. -/
theorem Acts.free (h : Acts s held s' held') (hk' : held' = some k) : held = some k ∨ s k = none := by
  cases h with
  | rests _ hheld => exact .inl (hheld.symm.trans hk')
  | takes hfree _ _ hheld =>
      obtain rfl := Option.some.inj (hheld.symm.trans hk')
      exact .inr hfree
  | writes hold _ hheld => exact .inl (hold.trans (hheld.symm.trans hk'))
  | leaves _ hheld | removes _ _ hheld => cases hheld.symm.trans hk'

/-- What an agent holds is stored. -/
theorem Acts.stored (h : Acts s held s' held') (hstored : ∀ k, held = some k → s k ≠ none)
    (hk' : held' = some k) : s' k ≠ none := by
  cases h with
  | rests hs hheld =>
      rw [hs]
      exact hstored k (hheld.symm.trans hk')
  | takes _ _ hs hheld | writes _ hs hheld =>
      obtain rfl := Option.some.inj (hheld.symm.trans hk')
      rw [hs, Function.update_self]
      exact Option.some_ne_none _
  | leaves _ hheld | removes _ _ hheld => cases hheld.symm.trans hk'

/-! ## Many agents -/

/-- The store, and the key each agent holds -/
structure State (ι : Type u) (κ : Type v) (υ : Type w) where
  store : κ → Option υ
  held : ι → Option κ

variable {σ σ' : State ι κ υ} {i j : ι}

/-- One agent acts, the others hold what they hold; or some agents are gone. -/
inductive Step (σ σ' : State ι κ υ) : Prop
  | acts (i : ι) (h : Acts σ.store (σ.held i) σ'.store (σ'.held i))
      (hothers : ∀ j, j ≠ i → σ'.held j = σ.held j)
  | forgets (hs : σ'.store = σ.store) (h : ∀ i, σ'.held i = σ.held i ∨ σ'.held i = none)

/-- Stored under the key, which nobody holds -/
structure Settled (σ : State ι κ υ) (k : κ) (x : υ) : Prop where
  stored : σ.store k = some x
  unheld : ∀ i, σ.held i ≠ some k

/-- What is settled stays so. -/
theorem Settled.step (h : Settled σ k x) (hstep : Step σ σ') : Settled σ' k x := by
  cases hstep with
  | acts i hacts hothers =>
      refine ⟨hacts.stays (h.unheld i) h.stored, fun j hj ↦ ?_⟩
      by_cases hji : j = i
      · subst hji
        rcases hacts.free hj with hold | hfree
        · exact h.unheld j hold
        · cases hfree.symm.trans h.stored
      · exact h.unheld j ((hothers j hji).symm.trans hj)
  | forgets hs hheld =>
      refine ⟨hs ▸ h.stored, fun j hj ↦ ?_⟩
      rcases hheld j with heq | hnone
      · exact h.unheld j (heq.symm.trans hj)
      · cases hnone.symm.trans hj

theorem Settled.reaches (h : Settled σ k x) (hrun : Relation.ReflTransGen Step σ σ') :
    Settled σ' k x := by
  induction hrun with
  | refl => exact h
  | tail _ hstep ih => exact ih.step hstep

/-- No key has two holders, and what is held is stored. -/
structure Exclusive (σ : State ι κ υ) : Prop where
  unique : ∀ i j k, σ.held i = some k → σ.held j = some k → i = j
  stored : ∀ i k, σ.held i = some k → σ.store k ≠ none

omit [DecidableEq κ] in
theorem Exclusive.of_idle (h : ∀ i, σ.held i = none) : Exclusive σ :=
  ⟨fun i _ _ hi _ ↦ (by cases (h i).symm.trans hi), fun i _ hi ↦ (by cases (h i).symm.trans hi)⟩

omit [DecidableEq κ] in
/-- What another agent holds is out of reach. -/
theorem Exclusive.apart (h : Exclusive σ) (hj : σ.held j = some k) (hji : j ≠ i) :
    σ.held i ≠ some k := fun hi ↦ hji (h.unique j i k hj hi)

/-- What an agent has taken nobody else holds. -/
theorem Exclusive.unheld (h : Exclusive σ) (hacts : Acts σ.store (σ.held i) σ'.store (σ'.held i))
    (hi : σ'.held i = some k) (hji : j ≠ i) : σ.held j ≠ some k := by
  intro hj
  rcases hacts.free hi with hold | hfree
  · exact h.apart hj hji hold
  · exact h.stored j k hj hfree

theorem Exclusive.step (h : Exclusive σ) (hstep : Step σ σ') : Exclusive σ' := by
  cases hstep with
  | acts i hacts hothers =>
      refine ⟨fun j j' k hj hj' ↦ ?_, fun j k hj ↦ ?_⟩
      · by_cases hji : j = i
        · subst hji
          by_contra hne
          have hold := (hothers j' (Ne.symm hne)).symm.trans hj'
          exact h.unheld hacts hj (Ne.symm hne) hold
        · have hold := (hothers j hji).symm.trans hj
          by_cases hj'i : j' = i
          · subst hj'i
            exact absurd hold (h.unheld hacts hj' hji)
          · exact h.unique j j' k hold ((hothers j' hj'i).symm.trans hj')
      · by_cases hji : j = i
        · subst hji
          exact hacts.stored (h.stored j) hj
        · have hold := (hothers j hji).symm.trans hj
          obtain ⟨x, hx⟩ := Option.ne_none_iff_exists'.mp (h.stored j k hold)
          rw [hacts.stays (h.apart hold hji) hx]
          exact Option.some_ne_none x
  | forgets hs hheld =>
      have kept : ∀ {i k}, σ'.held i = some k → σ.held i = some k := by
        intro i k hi
        rcases hheld i with heq | hnone
        · exact heq.symm.trans hi
        · cases hnone.symm.trans hi
      exact ⟨fun i j k hi hj ↦ h.unique i j k (kept hi) (kept hj), fun i k hi ↦ hs ▸ h.stored i k (kept hi)⟩

omit [DecidableEq κ] in
/-- What an agent leaves stored is settled. -/
theorem Exclusive.settled (h : Exclusive σ) (hold : σ.held i = some k) (hi : σ'.held i ≠ some k)
    (hothers : ∀ j, j ≠ i → σ'.held j = σ.held j) (hx : σ'.store k = some x) : Settled σ' k x := by
  refine ⟨hx, fun j hj ↦ ?_⟩
  by_cases hji : j = i
  · subst hji
    exact hi hj
  · exact hji (h.unique j i k ((hothers j hji).symm.trans hj) hold)

end Rdt.Custody
