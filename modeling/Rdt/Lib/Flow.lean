import Rdt.Lib.Lockstep

/-!
# Lockstep without a loss

Where every request and every answer that is due is sent, and none is lost, one of them is in
flight until the rounds are over.
-/

namespace Rdt

universe u v

/-! ## The message that is due -/

section Due

variable {α : Type u} {P Q : α → Prop} {ended : Prop} {l l' : List α} {m : α}

/-- First messages that satisfy `P`, then some that satisfy `Q`: at least one, unless all is over. -/
def Due (ended : Prop) (P Q : α → Prop) (l : List α) : Prop :=
  ∃ old new, l = old ++ new ∧ (∀ x ∈ old, P x) ∧ (∀ x ∈ new, Q x) ∧ (new ≠ [] ∨ ended)

theorem Due.of_sent (h : ∀ x ∈ l, P x) (h' : ∀ x ∈ l', Q x) (hne : l' ≠ [] ∨ ended) :
    Due ended P Q (l ++ l') := ⟨l, l', rfl, h, h', hne⟩

theorem Due.append (h : Due ended P Q l) (h' : ∀ x ∈ l', Q x) : Due ended P Q (l ++ l') := by
  obtain ⟨old, new, rfl, hold, hnew, hne⟩ := h
  refine ⟨old, new ++ l', List.append_assoc .., hold, forall_append hnew h', ?_⟩
  exact hne.imp_left fun hne hnil ↦ hne (List.append_eq_nil_iff.mp hnil).1

/-- A loss may take all that is due. -/
theorem Due.sublist (h : Due ended P Q l) (hended : ended) (hl : l'.Sublist l) : Due ended P Q l' := by
  obtain ⟨old, new, rfl, hold, hnew, -⟩ := h
  obtain ⟨old', new', rfl, ho, hn⟩ := List.sublist_append_iff.mp hl
  exact ⟨old', new', rfl, forall_sublist hold ho, forall_sublist hnew hn, .inr hended⟩

/-- The first message is an old one, or all are new. -/
theorem Due.cons (h : Due ended P Q (m :: l)) : (P m ∧ Due ended P Q l) ∨ (Q m ∧ ∀ x ∈ l, Q x) := by
  obtain ⟨old, new, heq, hold, hnew, hne⟩ := h
  cases old with
  | nil =>
      obtain rfl : new = m :: l := heq.symm
      exact .inr (List.forall_mem_cons.mp hnew)
  | cons x old =>
      obtain ⟨rfl, rfl⟩ := List.cons.inj heq
      obtain ⟨hm, hold⟩ := List.forall_mem_cons.mp hold
      exact .inl ⟨hm, old, new, rfl, hold, hnew, hne⟩

theorem Due.ended_of_nil (h : Due ended P Q []) : ended := by
  obtain ⟨old, new, heq, -, -, hne⟩ := h
  exact hne.resolve_left fun hne ↦ hne (List.append_eq_nil_iff.mp heq.symm).2

end Due

namespace Duplex

variable {σ τ μ ν : Type u} {ι : Type v}

namespace Lockstep

variable {L : Node σ ν μ} {R : Node τ μ ν}

/-- Each end sends what is due to the other; `asked` and `answered` say after which rounds nothing
is. -/
structure Lively (P : Lockstep ι L R) where
  asked : ι → Prop
  answered : ι → Prop
  left_next : ∀ {r s m s' outs}, P.left r s → P.answer r m → L.step s (some m) s' outs →
    (P.left (P.next r) s' ∧ (∀ o ∈ outs, P.request (P.next r) o) ∧ (outs ≠ [] ∨ asked (P.next r))) ∨
      (P.silent r s' ∧ outs = [])
  right_next : ∀ {r t m t' outs}, P.right r t → P.request (P.next r) m → R.step t (some m) t' outs →
    (P.right (P.next r) t' ∧ (∀ o ∈ outs, P.answer (P.next r) o) ∧ (outs ≠ [] ∨ answered (P.next r))) ∨
      (P.refusing (P.next r) t' ∧ (∀ o ∈ outs, P.refusal (P.next r) o) ∧ outs ≠ []) ∨
      (P.mute (P.next r) t' ∧ outs = [])

variable {P : Lockstep ι L R}

/-- Where the two ends can be relative to each other, and what is in flight then. -/
inductive Flows (H : P.Lively) (w : World σ τ μ ν) : Prop
  | answered (r : ι) (hl : P.left (P.next r) w.left) (hr : P.right (P.next r) w.right)
      (htr : ∀ m ∈ w.toRight, P.request (P.next r) m)
      (htl : Due (H.answered (P.next r)) (P.answer r) (P.answer (P.next r)) w.toLeft)
  | asked (r : ι) (hl : P.left (P.next r) w.left) (hr : P.right r w.right)
      (htr : Due (H.asked (P.next r)) (P.request r) (P.request (P.next r)) w.toRight)
      (htl : ∀ m ∈ w.toLeft, P.answer r m)
  | refused (r : ι) (hl : P.left (P.next r) w.left) (hr : P.refusing (P.next r) w.right)
      (htr : ∀ m ∈ w.toRight, P.request (P.next r) m)
      (htl : Due False (P.answer r) (P.refusal (P.next r)) w.toLeft)
  | silenced (r : ι) (hl : P.silent r w.left) (hr : P.right r w.right)
      (htr : ∀ m ∈ w.toRight, P.request r m)
  | muted (r : ι) (hl : P.left (P.next r) w.left) (hr : P.mute (P.next r) w.right)
      (htl : ∀ m ∈ w.toLeft, P.answer r m)
  | halted (r : ι) (hl : P.leftOver r w.left) (hr : P.rightOver r w.right)

/-- The ends have nothing more to say to each other. -/
inductive Over (H : P.Lively) (w : World σ τ μ ν) : Prop
  | answered (r : ι) (hl : P.left (P.next r) w.left) (hr : P.right (P.next r) w.right)
      (h : H.answered (P.next r))
  | asked (r : ι) (hl : P.left (P.next r) w.left) (hr : P.right r w.right) (h : H.asked (P.next r))
  | silenced (r : ι) (hl : P.silent r w.left) (hr : P.right r w.right)
  | muted (r : ι) (hl : P.left (P.next r) w.left) (hr : P.mute (P.next r) w.right)
  | halted (r : ι) (hl : P.leftOver r w.left) (hr : P.rightOver r w.right)

variable {H : P.Lively} {w w' : World σ τ μ ν} {ℓ : Label μ ν} {s : σ} {t : τ} {outs : List μ}
  {outs' : List ν}

theorem Flows.leftTakes (h : Flows H w) {m : ν} {q : List ν} (hq : w.toLeft = m :: q)
    (hs : L.step w.left (some m) s outs) : Flows H ⟨s, w.right, w.toRight ++ outs, q⟩ := by
  cases h with
  | answered r hl hr htr htl =>
      rw [hq] at htl
      rcases htl.cons with ⟨hm, hrest⟩ | ⟨hm, hrest⟩
      · obtain ⟨hl, houts⟩ := P.left_stale hl hm hs
        exact .answered r hl hr (forall_append htr houts.all) hrest
      · rcases H.left_next hl hm hs with ⟨hl, hall, hne⟩ | ⟨hl, rfl⟩
        · exact .asked (P.next r) hl hr (.of_sent htr hall hne) hrest
        · exact .silenced (P.next r) hl hr (by simpa using htr)
  | asked r hl hr htr htl =>
      rw [hq] at htl
      obtain ⟨hl, houts⟩ := P.left_stale hl (htl m List.mem_cons_self) hs
      exact .asked r hl hr (htr.append houts.all) fun x hx ↦ htl x (List.mem_cons_of_mem m hx)
  | refused r hl hr htr htl =>
      rw [hq] at htl
      rcases htl.cons with ⟨hm, hrest⟩ | ⟨hm, -⟩
      · obtain ⟨hl, houts⟩ := P.left_stale hl hm hs
        exact .refused r hl hr (forall_append htr houts.all) hrest
      · exact .halted (P.next r) (P.left_refused hl hm hs).1 (P.over_of_refusing hr)
  | silenced r hl hr htr =>
      obtain ⟨hl, rfl⟩ := P.silent_step hl hs
      exact .silenced r hl hr (by simpa using htr)
  | muted r hl hr htl =>
      rw [hq] at htl
      obtain ⟨hl, -⟩ := P.left_stale hl (htl m List.mem_cons_self) hs
      exact .muted r hl hr fun x hx ↦ htl x (List.mem_cons_of_mem m hx)
  | halted r hl hr => exact .halted r (P.left_over hl hs).1 hr

theorem Flows.leftMoves (h : Flows H w) (hs : L.step w.left none s outs) :
    Flows H ⟨s, w.right, w.toRight ++ outs, w.toLeft⟩ := by
  cases h with
  | answered r hl hr htr htl =>
      obtain ⟨hl, houts⟩ := P.left_idle hl hs
      exact .answered r hl hr (forall_append htr (Emits.all_of_idle houts)) htl
  | asked r hl hr htr htl =>
      obtain ⟨hl, houts⟩ := P.left_idle hl hs
      exact .asked r hl hr (htr.append (Emits.all_of_idle houts)) htl
  | refused r hl hr htr htl =>
      obtain ⟨hl, houts⟩ := P.left_idle hl hs
      exact .refused r hl hr (forall_append htr (Emits.all_of_idle houts)) htl
  | silenced r hl hr htr =>
      obtain ⟨hl, rfl⟩ := P.silent_step hl hs
      exact .silenced r hl hr (by simpa using htr)
  | muted r hl hr htl => exact .muted r (P.left_idle hl hs).1 hr htl
  | halted r hl hr => exact .halted r (P.left_over hl hs).1 hr

theorem Flows.rightTakes (h : Flows H w) {m : μ} {q : List μ} (hq : w.toRight = m :: q)
    (hs : R.step w.right (some m) t outs') : Flows H ⟨w.left, t, q, w.toLeft ++ outs'⟩ := by
  cases h with
  | answered r hl hr htr htl =>
      rw [hq] at htr
      obtain ⟨hr, houts⟩ := P.right_stale hr (htr m List.mem_cons_self) hs
      exact .answered r hl hr (fun x hx ↦ htr x (List.mem_cons_of_mem m hx)) (htl.append houts.all)
  | asked r hl hr htr htl =>
      rw [hq] at htr
      rcases htr.cons with ⟨hm, hrest⟩ | ⟨hm, hrest⟩
      · obtain ⟨hr, houts⟩ := P.right_stale hr hm hs
        exact .asked r hl hr hrest (forall_append htl houts.all)
      · rcases H.right_next hr hm hs with ⟨hr, hall, hne⟩ | ⟨hr, hall, hne⟩ | ⟨hr, rfl⟩
        · exact .answered r hl hr hrest (.of_sent htl hall hne)
        · exact .refused r hl hr hrest (.of_sent htl hall (.inl hne))
        · exact .muted r hl hr (by simpa using htl)
  | refused r hl hr htr htl =>
      rw [hq] at htr
      obtain ⟨hr, houts⟩ := P.refusing_stale hr (htr m List.mem_cons_self) hs
      exact .refused r hl hr (fun x hx ↦ htr x (List.mem_cons_of_mem m hx)) (htl.append houts.all)
  | silenced r hl hr htr =>
      rw [hq] at htr
      obtain ⟨hr, -⟩ := P.right_stale hr (htr m List.mem_cons_self) hs
      exact .silenced r hl hr fun x hx ↦ htr x (List.mem_cons_of_mem m hx)
  | muted r hl hr htl =>
      obtain ⟨hr, rfl⟩ := P.mute_step hr hs
      exact .muted r hl hr (by simpa using htl)
  | halted r hl hr => exact .halted r hl (P.right_over hr hs).1

theorem Flows.rightMoves (h : Flows H w) (hs : R.step w.right none t outs') :
    Flows H ⟨w.left, t, w.toRight, w.toLeft ++ outs'⟩ := by
  cases h with
  | answered r hl hr htr htl =>
      obtain ⟨hr, houts⟩ := P.right_idle hr hs
      exact .answered r hl hr htr (htl.append (Emits.all_of_idle houts))
  | asked r hl hr htr htl =>
      obtain ⟨hr, houts⟩ := P.right_idle hr hs
      exact .asked r hl hr htr (forall_append htl (Emits.all_of_idle houts))
  | refused r hl hr htr htl =>
      obtain ⟨hr, houts⟩ := P.refusing_idle hr hs
      exact .refused r hl hr htr (htl.append houts.all)
  | silenced r hl hr htr => exact .silenced r hl (P.right_idle hr hs).1 htr
  | muted r hl hr htl =>
      obtain ⟨hr, rfl⟩ := P.mute_step hr hs
      exact .muted r hl hr (by simpa using htl)
  | halted r hl hr => exact .halted r hl (P.right_over hr hs).1

theorem Flows.step (h : Flows H w) (hℓ : ℓ ≠ .lose) (hs : Step .fifo L R w ℓ w') : Flows H w' := by
  cases hs with
  | leftTakes ht hs => exact h.leftTakes ht.fifo_eq hs
  | leftMoves hs => exact h.leftMoves hs
  | rightTakes ht hs => exact h.rightTakes ht.fifo_eq hs
  | rightMoves hs => exact h.rightMoves hs
  | lose => exact absurd rfl hℓ

theorem Flows.run (h : Flows H w) (hr : (system .fifo L R).Run (fun _ ℓ ↦ ℓ ≠ .lose) w w') :
    Flows H w' := hr.invariant (fun hI hℓ hs ↦ Flows.step hI hℓ hs) h

/-- Nothing is in flight only when all is over. -/
theorem Flows.settled (h : Flows H w) (hright : w.toRight = []) (hleft : w.toLeft = []) : Over H w := by
  cases h with
  | answered r hl hr _ htl =>
      rw [hleft] at htl
      exact .answered r hl hr htl.ended_of_nil
  | asked r hl hr htr _ =>
      rw [hright] at htr
      exact .asked r hl hr htr.ended_of_nil
  | refused r _ _ _ htl =>
      rw [hleft] at htl
      exact htl.ended_of_nil.elim
  | silenced r hl hr _ => exact .silenced r hl hr
  | muted r hl hr _ => exact .muted r hl hr
  | halted r hl hr => exact .halted r hl hr

end Lockstep

end Duplex

end Rdt
