import Rdt.Lib.Journal

/-!
# Requests and answers in lockstep

A requester repeats the request of its round until the answer comes, a responder repeats
its last answer until the next request comes.  Over channels that keep their order only the
messages of two neighbouring rounds can be in flight, and only in order, so either end can
tell a stale message from the one it waits for.  The responder may refuse a request, and
either end may fall silent over the other's message.

Every copy of a message makes its receiver send copies in its turn.  A copy has a price, all
that can still come of it; so what the two ends send is paid for by what was in flight at first
and by the copies they send on their own.
-/

namespace Rdt

universe u v

/-! ## Two kinds of messages in order -/

section Order

variable {α : Type u} {P Q : α → Prop} {a b n : Nat} {l l' : List α} {m : α}

theorem forall_append {p : α → Prop} (h : ∀ x ∈ l, p x) (h' : ∀ x ∈ l', p x) :
    ∀ x ∈ l ++ l', p x :=
  fun x hx ↦ (List.mem_append.mp hx).elim (h x) (h' x)

theorem forall_sublist {p : α → Prop} (h : ∀ x ∈ l, p x) (hl : l'.Sublist l) : ∀ x ∈ l', p x :=
  fun x hx ↦ h x (hl.subset hx)

/-- First messages that satisfy `P`, then messages that satisfy `Q`; at a price for each they
weigh `n`. -/
def Weighs (P Q : α → Prop) (a b : Nat) (l : List α) (n : Nat) : Prop :=
  ∃ old new, l = old ++ new ∧ (∀ x ∈ old, P x) ∧ (∀ x ∈ new, Q x) ∧
    old.length * a + new.length * b = n

theorem Weighs.of_left (h : ∀ x ∈ l, P x) : Weighs P Q a b l (l.length * a) :=
  ⟨l, [], by simp, h, fun _ hx ↦ absurd hx List.not_mem_nil, by simp⟩

theorem Weighs.append (h : Weighs P Q a b l n) (h' : ∀ x ∈ l', Q x) :
    Weighs P Q a b (l ++ l') (n + l'.length * b) := by
  obtain ⟨old, new, rfl, hold, hnew, rfl⟩ := h
  refine ⟨old, new ++ l', by simp, hold, forall_append hnew h', ?_⟩
  rw [List.length_append, Nat.add_mul, Nat.add_assoc]

theorem Weighs.sublist (h : Weighs P Q a b l n) (hl : l'.Sublist l) :
    ∃ k ≤ n, Weighs P Q a b l' k := by
  obtain ⟨old, new, rfl, hold, hnew, rfl⟩ := h
  obtain ⟨old', new', rfl, ho, hn⟩ := List.sublist_append_iff.mp hl
  exact ⟨_, Nat.add_le_add (Nat.mul_le_mul_right a ho.length_le) (Nat.mul_le_mul_right b hn.length_le),
    old', new', rfl, forall_sublist hold ho, forall_sublist hnew hn, rfl⟩

/-- The first message is an old one, or all are new. -/
theorem Weighs.cons (h : Weighs P Q a b (m :: l) n) :
    (P m ∧ ∃ k, n = a + k ∧ Weighs P Q a b l k) ∨
      (Q m ∧ (∀ x ∈ l, Q x) ∧ n = b + l.length * b) := by
  obtain ⟨old, new, heq, hold, hnew, rfl⟩ := h
  cases old with
  | nil =>
      obtain rfl : new = m :: l := heq.symm
      refine .inr ⟨hnew m List.mem_cons_self, fun x hx ↦ hnew x (List.mem_cons_of_mem m hx), ?_⟩
      rw [List.length_nil, Nat.zero_mul, Nat.zero_add, List.length_cons, Nat.succ_mul, Nat.add_comm]
  | cons x old =>
      obtain ⟨rfl, rfl⟩ := List.cons.inj heq
      refine .inl ⟨hold m List.mem_cons_self, _, ?_, old, new, rfl,
        fun x hx ↦ hold x (List.mem_cons_of_mem m hx), hnew, rfl⟩
      rw [List.length_cons, Nat.succ_mul]
      omega

/-- First messages that satisfy `P`, then messages that satisfy `Q`. -/
def InOrder (P Q : α → Prop) (l : List α) : Prop :=
  ∃ old new, l = old ++ new ∧ (∀ x ∈ old, P x) ∧ ∀ x ∈ new, Q x

theorem Weighs.inOrder (h : Weighs P Q a b l n) : InOrder P Q l := by
  obtain ⟨old, new, heq, hold, hnew, -⟩ := h
  exact ⟨old, new, heq, hold, hnew⟩

theorem InOrder.mem (h : InOrder P Q l) (hm : m ∈ l) : P m ∨ Q m := by
  obtain ⟨old, new, rfl, hold, hnew⟩ := h
  exact (List.mem_append.mp hm).imp (hold m) (hnew m)

theorem InOrder.weighs (h : InOrder P Q l) (a b : Nat) : ∃ n, Weighs P Q a b l n := by
  obtain ⟨old, new, heq, hold, hnew⟩ := h
  exact ⟨_, old, new, heq, hold, hnew, rfl⟩

theorem InOrder.of_left (h : ∀ x ∈ l, P x) : InOrder P Q l := (Weighs.of_left (a := 0) (b := 0) h).inOrder

theorem InOrder.append (h : InOrder P Q l) (h' : ∀ x ∈ l', Q x) : InOrder P Q (l ++ l') := by
  obtain ⟨n, hn⟩ := h.weighs 0 0
  exact (hn.append h').inOrder

theorem InOrder.sublist (h : InOrder P Q l) (hl : l'.Sublist l) : InOrder P Q l' := by
  obtain ⟨n, hn⟩ := h.weighs 0 0
  obtain ⟨k, -, hk⟩ := hn.sublist hl
  exact hk.inOrder

/-- Once a message comes that is not of the first kind, none of that kind follows. -/
theorem InOrder.past (h : InOrder P Q (m :: l)) (hm : ¬P m) : ∀ x ∈ l, Q x := by
  obtain ⟨n, hn⟩ := h.weighs 0 0
  rcases hn.cons with ⟨hp, -⟩ | ⟨-, hnew, -⟩
  · exact absurd hp hm
  · exact hnew

end Order

namespace Duplex

variable {σ τ μ ν : Type u} {ι : Type v}

/-- The messages sent are of one kind, and those that count and the price of all come to `n` at
most. -/
structure Emits {ω : Type u} (Q : ω → Prop) (p : ω → Bool) (price : Nat) (outs : List ω) (n : Nat) :
    Prop where
  all : ∀ o ∈ outs, Q o
  cost : outs.countP p + outs.length * price ≤ n

theorem Emits.mono {ω : Type u} {Q : ω → Prop} {p : ω → Bool} {price n k : Nat} {outs : List ω}
    (h : Emits Q p price outs n) (hk : n ≤ k) : Emits Q p price outs k := ⟨h.all, h.cost.trans hk⟩

theorem Emits.all_of_idle {ω : Type u} {Q : ω → Prop} {p : ω → Bool} {price n : Nat} {outs : List ω}
    (h : outs = [] ∨ Emits Q p price outs n) : ∀ o ∈ outs, Q o :=
  h.elim (fun h _ ho ↦ absurd (h ▸ ho) List.not_mem_nil) Emits.all

/-- The rounds of a requester `L` and a responder `R`, with the price of a copy of a message. -/
structure Lockstep (ι : Type v) (L : Node σ ν μ) (R : Node τ μ ν) where
  next : ι → ι
  request : ι → μ → Prop
  answer : ι → ν → Prop
  refusal : ι → ν → Prop
  /-- The requester waits for the answer of a round. -/
  left : ι → σ → Prop
  /-- The requester went silent on the answer of a round. -/
  silent : ι → σ → Prop
  /-- The requester was refused in a round. -/
  leftOver : ι → σ → Prop
  /-- The responder has answered a round. -/
  right : ι → τ → Prop
  /-- The responder has refused a round. -/
  refusing : ι → τ → Prop
  /-- The requester knows of it, so the responder may have been told anything. -/
  rightOver : ι → τ → Prop
  /-- The responder went silent on the request of a round. -/
  mute : ι → τ → Prop
  /-- Which messages count, by the state they are sent in. -/
  countsLeft : σ → μ → Bool
  countsRight : τ → ν → Bool
  requestPrice : ι → Nat
  answerPrice : ι → Nat
  /-- What an end is allowed for a message that it sends on its own. -/
  leftAllowance : σ → Nat
  rightAllowance : τ → Nat
  left_idle : ∀ {r s s' outs}, left r s → L.step s none s' outs → left r s' ∧
    (outs = [] ∨ Emits (request r) (countsLeft s') (requestPrice r) outs (leftAllowance s))
  left_stale : ∀ {r s m s' outs}, left (next r) s → answer r m → L.step s (some m) s' outs →
    left (next r) s' ∧
      Emits (request (next r)) (countsLeft s') (requestPrice (next r)) outs (answerPrice r)
  left_next : ∀ {r s m s' outs}, left r s → answer r m → L.step s (some m) s' outs →
    (left (next r) s' ∧
        Emits (request (next r)) (countsLeft s') (requestPrice (next r)) outs (answerPrice r)) ∨
      (silent r s' ∧ outs = [])
  left_refused : ∀ {r s m s' outs}, left r s → refusal r m → L.step s (some m) s' outs →
    leftOver r s' ∧ outs.countP (countsLeft s') = 0
  silent_step : ∀ {r s i s' outs}, silent r s → L.step s i s' outs → silent r s' ∧ outs = []
  left_over : ∀ {r s i s' outs}, leftOver r s → L.step s i s' outs →
    leftOver r s' ∧ outs.countP (countsLeft s') = 0
  right_idle : ∀ {r t t' outs}, right r t → R.step t none t' outs → right r t' ∧
    (outs = [] ∨ Emits (answer r) (countsRight t') (answerPrice r) outs (rightAllowance t))
  right_stale : ∀ {r t m t' outs}, right r t → request r m → R.step t (some m) t' outs →
    right r t' ∧ Emits (answer r) (countsRight t') (answerPrice r) outs (requestPrice r)
  right_next : ∀ {r t m t' outs}, right r t → request (next r) m → R.step t (some m) t' outs →
    (right (next r) t' ∧ Emits (answer (next r)) (countsRight t') (answerPrice (next r)) outs
        (requestPrice (next r))) ∨
      (refusing (next r) t' ∧ Emits (refusal (next r)) (countsRight t') 0 outs 0) ∨
      (mute (next r) t' ∧ outs = [])
  refusing_idle : ∀ {r t t' outs}, refusing r t → R.step t none t' outs →
    refusing r t' ∧ Emits (refusal r) (countsRight t') 0 outs 0
  refusing_stale : ∀ {r t m t' outs}, refusing r t → request r m → R.step t (some m) t' outs →
    refusing r t' ∧ Emits (refusal r) (countsRight t') 0 outs 0
  over_of_refusing : ∀ {r t}, refusing r t → rightOver r t
  right_over : ∀ {r t i t' outs}, rightOver r t → R.step t i t' outs →
    rightOver r t' ∧ outs.countP (countsRight t') = 0
  mute_step : ∀ {r t i t' outs}, mute r t → R.step t i t' outs → mute r t' ∧ outs = []

namespace Lockstep

variable {L : Node σ ν μ} {R : Node τ μ ν} (P : Lockstep ι L R)

/-- Where the two ends can be relative to each other, and what can be in flight then. -/
inductive Agrees (w : World σ τ μ ν) : Prop
  | answered (r : ι) (hl : P.left (P.next r) w.left) (hr : P.right (P.next r) w.right)
      (htr : ∀ m ∈ w.toRight, P.request (P.next r) m)
      (htl : InOrder (P.answer r) (P.answer (P.next r)) w.toLeft)
  | asked (r : ι) (hl : P.left (P.next r) w.left) (hr : P.right r w.right)
      (htr : InOrder (P.request r) (P.request (P.next r)) w.toRight)
      (htl : ∀ m ∈ w.toLeft, P.answer r m)
  | refused (r : ι) (hl : P.left (P.next r) w.left) (hr : P.refusing (P.next r) w.right)
      (htr : ∀ m ∈ w.toRight, P.request (P.next r) m)
      (htl : InOrder (P.answer r) (P.refusal (P.next r)) w.toLeft)
  | silenced (r : ι) (hl : P.silent r w.left) (hr : P.right r w.right)
      (htr : ∀ m ∈ w.toRight, P.request r m)
  | muted (r : ι) (hl : P.left (P.next r) w.left) (hr : P.mute (P.next r) w.right)
      (htl : ∀ m ∈ w.toLeft, P.answer r m)
  | halted (r : ι) (hl : P.leftOver r w.left) (hr : P.rightOver r w.right)

/-! ## The account of a run -/

/-- What both ends have sent. -/
def total (w : Journaled σ τ μ ν) : Nat := sent P.countsLeft w.left.2 + sent P.countsRight w.right.2

/-- What both are allowed for what they sent on their own. -/
def allowed (w : Journaled σ τ μ ν) : Nat :=
  allowance P.leftAllowance w.left.2 + allowance P.rightAllowance w.right.2

/-- There is enough left to pay for `n` more. -/
def Affords (base : Nat) (w : Journaled σ τ μ ν) (n : Nat) : Prop :=
  P.total w + n ≤ base + P.allowed w

namespace Affords

variable {P} {base n k : Nat} {w : Journaled σ τ μ ν} {s : σ} {t : τ} {outs : List μ} {outs' : List ν}
  {p : List μ} {q : List ν}

theorem leftTakes (h : P.Affords base w n) (m : ν) (hk : outs.countP (P.countsLeft s) + k ≤ n) :
    P.Affords base ⟨(s, w.left.2 ++ [⟨w.left.1, some m, s, outs⟩]), w.right, p, q⟩ k := by
  unfold Affords total allowed at *
  rw [sent_append, allowance_append_some]
  dsimp only
  omega

theorem rightTakes (h : P.Affords base w n) (m : μ) (hk : outs'.countP (P.countsRight t) + k ≤ n) :
    P.Affords base ⟨w.left, (t, w.right.2 ++ [⟨w.right.1, some m, t, outs'⟩]), p, q⟩ k := by
  unfold Affords total allowed at *
  rw [sent_append, allowance_append_some]
  dsimp only
  omega

theorem leftMoves (h : P.Affords base w n) {price : Nat} {Q : μ → Prop}
    (ho : outs = [] ∨ Emits Q (P.countsLeft s) price outs (P.leftAllowance w.left.1))
    (hk : k ≤ n + outs.length * price) :
    P.Affords base ⟨(s, w.left.2 ++ [⟨w.left.1, none, s, outs⟩]), w.right, p, q⟩ k := by
  have hallow : allowance P.leftAllowance w.left.2 + _ ≤
      allowance P.leftAllowance (w.left.2 ++ [⟨w.left.1, none, s, outs⟩]) :=
    allowance_append_none (fun hne ↦ (ho.resolve_left hne).cost) (by rintro rfl; simp)
  unfold Affords total allowed at *
  rw [sent_append]
  dsimp only
  omega

theorem rightMoves (h : P.Affords base w n) {price : Nat} {Q : ν → Prop}
    (ho : outs' = [] ∨ Emits Q (P.countsRight t) price outs' (P.rightAllowance w.right.1))
    (hk : k ≤ n + outs'.length * price) :
    P.Affords base ⟨w.left, (t, w.right.2 ++ [⟨w.right.1, none, t, outs'⟩]), p, q⟩ k := by
  have hallow : allowance P.rightAllowance w.right.2 + _ ≤
      allowance P.rightAllowance (w.right.2 ++ [⟨w.right.1, none, t, outs'⟩]) :=
    allowance_append_none (fun hne ↦ (ho.resolve_left hne).cost) (by rintro rfl; simp)
  unfold Affords total allowed at *
  rw [sent_append]
  dsimp only
  omega

theorem mono (h : P.Affords base w n) (hk : k ≤ n) : P.Affords base ⟨w.left, w.right, p, q⟩ k :=
  le_trans (Nat.add_le_add_left hk _) h

end Affords

/-- The two ends agree, and what is in flight is paid for. -/
inductive Balanced (base : Nat) (w : Journaled σ τ μ ν) : Prop
  | answered (r : ι) (hl : P.left (P.next r) w.left.1) (hr : P.right (P.next r) w.right.1)
      (htr : ∀ m ∈ w.toRight, P.request (P.next r) m) {n : Nat}
      (htl : Weighs (P.answer r) (P.answer (P.next r)) (P.answerPrice r) (P.answerPrice (P.next r))
        w.toLeft n)
      (hpaid : P.Affords base w (w.toRight.length * P.requestPrice (P.next r) + n))
  | asked (r : ι) (hl : P.left (P.next r) w.left.1) (hr : P.right r w.right.1) {n : Nat}
      (htr : Weighs (P.request r) (P.request (P.next r)) (P.requestPrice r)
        (P.requestPrice (P.next r)) w.toRight n)
      (htl : ∀ m ∈ w.toLeft, P.answer r m)
      (hpaid : P.Affords base w (n + w.toLeft.length * P.answerPrice r))
  | refused (r : ι) (hl : P.left (P.next r) w.left.1) (hr : P.refusing (P.next r) w.right.1)
      (htr : ∀ m ∈ w.toRight, P.request (P.next r) m) {n : Nat}
      (htl : Weighs (P.answer r) (P.refusal (P.next r)) (P.answerPrice r) 0 w.toLeft n)
      (hpaid : P.Affords base w n)
  | silenced (r : ι) (hl : P.silent r w.left.1) (hr : P.right r w.right.1)
      (htr : ∀ m ∈ w.toRight, P.request r m)
      (hpaid : P.Affords base w (w.toRight.length * P.requestPrice r))
  | muted (r : ι) (hl : P.left (P.next r) w.left.1) (hr : P.mute (P.next r) w.right.1)
      (htl : ∀ m ∈ w.toLeft, P.answer r m)
      (hpaid : P.Affords base w (w.toLeft.length * P.answerPrice r))
  | halted (r : ι) (hl : P.leftOver r w.left.1) (hr : P.rightOver r w.right.1)
      (hpaid : P.Affords base w 0)

variable {P} {base : Nat} {w w' : Journaled σ τ μ ν} {ℓ : Label μ ν}

/-- What is sent in answer to a message is not worth more than the message. -/
theorem Balanced.leftTakes (h : P.Balanced base w) {m : ν} {q : List ν} {s : σ} {outs : List μ}
    (hq : w.toLeft = m :: q) (hs : L.step w.left.1 (some m) s outs) :
    P.Balanced base
      ⟨(s, w.left.2 ++ [⟨w.left.1, some m, s, outs⟩]), w.right, w.toRight ++ outs, q⟩ := by
  cases h with
  | answered r hl hr htr htl hpaid =>
      rw [hq] at htl
      rcases htl.cons with ⟨hm, k, rfl, hrest⟩ | ⟨hm, hrest, rfl⟩
      · obtain ⟨hl, houts⟩ := P.left_stale hl hm hs
        have hcost := houts.cost
        refine .answered r hl hr (forall_append htr houts.all) hrest (hpaid.leftTakes m ?_)
        rw [List.length_append, Nat.add_mul]
        omega
      · rcases P.left_next hl hm hs with ⟨hl, houts⟩ | ⟨hl, rfl⟩
        · have hcost := houts.cost
          refine .asked (P.next r) hl hr ((Weighs.of_left htr).append houts.all) hrest
            (hpaid.leftTakes m ?_)
          dsimp only
          omega
        · refine .silenced (P.next r) hl hr (by simpa using htr) (hpaid.leftTakes m ?_)
          simp
  | asked r hl hr htr htl hpaid =>
      rw [hq] at htl hpaid
      obtain ⟨hl, houts⟩ := P.left_stale hl (htl m List.mem_cons_self) hs
      have hcost := houts.cost
      refine .asked r hl hr (htr.append houts.all) (fun x hx ↦ htl x (List.mem_cons_of_mem m hx))
        (hpaid.leftTakes m ?_)
      rw [List.length_cons, Nat.succ_mul]
      dsimp only
      omega
  | refused r hl hr htr htl hpaid =>
      rw [hq] at htl
      rcases htl.cons with ⟨hm, k, rfl, hrest⟩ | ⟨hm, -, rfl⟩
      · obtain ⟨hl, houts⟩ := P.left_stale hl hm hs
        have hcost := houts.cost
        refine .refused r hl hr (forall_append htr houts.all) hrest (hpaid.leftTakes m ?_)
        omega
      · obtain ⟨hl, hnone⟩ := P.left_refused hl hm hs
        exact .halted (P.next r) hl (P.over_of_refusing hr) (hpaid.leftTakes m (by omega))
  | silenced r hl hr htr hpaid =>
      obtain ⟨hl, rfl⟩ := P.silent_step hl hs
      exact .silenced r hl hr (by simpa using htr) (hpaid.leftTakes m (by simp))
  | muted r hl hr htl hpaid =>
      rw [hq] at htl hpaid
      obtain ⟨hl, houts⟩ := P.left_stale hl (htl m List.mem_cons_self) hs
      have hcost := houts.cost
      refine .muted r hl hr (fun x hx ↦ htl x (List.mem_cons_of_mem m hx)) (hpaid.leftTakes m ?_)
      rw [List.length_cons, Nat.succ_mul]
      dsimp only
      omega
  | halted r hl hr hpaid =>
      obtain ⟨hl, hnone⟩ := P.left_over hl hs
      exact .halted r hl hr (hpaid.leftTakes m (by omega))

theorem Balanced.leftMoves (h : P.Balanced base w) {s : σ} {outs : List μ}
    (hs : L.step w.left.1 none s outs) :
    P.Balanced base
      ⟨(s, w.left.2 ++ [⟨w.left.1, none, s, outs⟩]), w.right, w.toRight ++ outs, w.toLeft⟩ := by
  cases h with
  | answered r hl hr htr htl hpaid =>
      obtain ⟨hl, houts⟩ := P.left_idle hl hs
      refine .answered r hl hr (forall_append htr (Emits.all_of_idle houts)) htl
        (hpaid.leftMoves houts ?_)
      rw [List.length_append, Nat.add_mul]
      omega
  | asked r hl hr htr htl hpaid =>
      obtain ⟨hl, houts⟩ := P.left_idle hl hs
      refine .asked r hl hr (htr.append (Emits.all_of_idle houts)) htl
        (hpaid.leftMoves houts ?_)
      dsimp only
      omega
  | refused r hl hr htr htl hpaid =>
      obtain ⟨hl, houts⟩ := P.left_idle hl hs
      exact .refused r hl hr (forall_append htr (Emits.all_of_idle houts)) htl
        (hpaid.leftMoves houts (Nat.le_add_right _ _))
  | silenced r hl hr htr hpaid =>
      obtain ⟨hl, rfl⟩ := P.silent_step hl hs
      have hnone : ([] : List μ) = [] ∨ Emits (P.request r) (P.countsLeft s) 0 []
          (P.leftAllowance w.left.1) := .inl rfl
      exact .silenced r hl hr (by simpa using htr) (hpaid.leftMoves hnone (by simp))
  | muted r hl hr htl hpaid =>
      obtain ⟨hl, houts⟩ := P.left_idle hl hs
      exact .muted r hl hr htl (hpaid.leftMoves houts (Nat.le_add_right _ _))
  | halted r hl hr hpaid =>
      obtain ⟨hl, hnone⟩ := P.left_over hl hs
      exact .halted r hl hr (hpaid.leftMoves (Q := fun _ ↦ True)
        (.inr ⟨fun _ _ ↦ trivial, le_of_eq_of_le (by rw [hnone, Nat.mul_zero]) (Nat.zero_le _)⟩)
        (Nat.zero_le _))

theorem Balanced.rightTakes (h : P.Balanced base w) {m : μ} {q : List μ} {t : τ} {outs : List ν}
    (hq : w.toRight = m :: q) (hs : R.step w.right.1 (some m) t outs) :
    P.Balanced base
      ⟨w.left, (t, w.right.2 ++ [⟨w.right.1, some m, t, outs⟩]), q, w.toLeft ++ outs⟩ := by
  cases h with
  | answered r hl hr htr htl hpaid =>
      rw [hq] at htr hpaid
      obtain ⟨hr, houts⟩ := P.right_stale hr (htr m List.mem_cons_self) hs
      have hcost := houts.cost
      refine .answered r hl hr (fun x hx ↦ htr x (List.mem_cons_of_mem m hx)) (htl.append houts.all)
        (hpaid.rightTakes m ?_)
      rw [List.length_cons, Nat.succ_mul]
      dsimp only
      omega
  | asked r hl hr htr htl hpaid =>
      rw [hq] at htr
      rcases htr.cons with ⟨hm, k, rfl, hrest⟩ | ⟨hm, hrest, rfl⟩
      · obtain ⟨hr, houts⟩ := P.right_stale hr hm hs
        have hcost := houts.cost
        refine .asked r hl hr hrest (forall_append htl houts.all) (hpaid.rightTakes m ?_)
        rw [List.length_append, Nat.add_mul]
        omega
      · rcases P.right_next hr hm hs with ⟨hr, houts⟩ | ⟨hr, houts⟩ | ⟨hr, rfl⟩
        · have hcost := houts.cost
          refine .answered r hl hr hrest ((Weighs.of_left htl).append houts.all)
            (hpaid.rightTakes m ?_)
          dsimp only
          omega
        · have hcost := houts.cost
          refine .refused r hl hr hrest ((Weighs.of_left htl).append houts.all)
            (hpaid.rightTakes m ?_)
          omega
        · exact .muted r hl hr (by simpa using htl) (hpaid.rightTakes m (by simp))
  | refused r hl hr htr htl hpaid =>
      rw [hq] at htr
      obtain ⟨hr, houts⟩ := P.refusing_stale hr (htr m List.mem_cons_self) hs
      have hcost := houts.cost
      refine .refused r hl hr (fun x hx ↦ htr x (List.mem_cons_of_mem m hx)) (htl.append houts.all)
        (hpaid.rightTakes m ?_)
      omega
  | silenced r hl hr htr hpaid =>
      rw [hq] at htr hpaid
      obtain ⟨hr, houts⟩ := P.right_stale hr (htr m List.mem_cons_self) hs
      have hcost := houts.cost
      refine .silenced r hl hr (fun x hx ↦ htr x (List.mem_cons_of_mem m hx)) (hpaid.rightTakes m ?_)
      rw [List.length_cons, Nat.succ_mul]
      dsimp only
      omega
  | muted r hl hr htl hpaid =>
      obtain ⟨hr, rfl⟩ := P.mute_step hr hs
      exact .muted r hl hr (by simpa using htl) (hpaid.rightTakes m (by simp))
  | halted r hl hr hpaid =>
      obtain ⟨hr, hnone⟩ := P.right_over hr hs
      exact .halted r hl hr (hpaid.rightTakes m (by omega))

theorem Balanced.rightMoves (h : P.Balanced base w) {t : τ} {outs : List ν}
    (hs : R.step w.right.1 none t outs) :
    P.Balanced base
      ⟨w.left, (t, w.right.2 ++ [⟨w.right.1, none, t, outs⟩]), w.toRight, w.toLeft ++ outs⟩ := by
  cases h with
  | answered r hl hr htr htl hpaid =>
      obtain ⟨hr, houts⟩ := P.right_idle hr hs
      refine .answered r hl hr htr (htl.append (Emits.all_of_idle houts))
        (hpaid.rightMoves houts ?_)
      dsimp only
      omega
  | asked r hl hr htr htl hpaid =>
      obtain ⟨hr, houts⟩ := P.right_idle hr hs
      refine .asked r hl hr htr (forall_append htl (Emits.all_of_idle houts))
        (hpaid.rightMoves houts ?_)
      rw [List.length_append, Nat.add_mul]
      omega
  | refused r hl hr htr htl hpaid =>
      obtain ⟨hr, houts⟩ := P.refusing_idle hr hs
      have hcost := houts.cost
      exact .refused r hl hr htr (htl.append houts.all)
        (hpaid.rightMoves (.inr ⟨houts.all, le_trans hcost (Nat.zero_le _)⟩) (by omega))
  | silenced r hl hr htr hpaid =>
      obtain ⟨hr, houts⟩ := P.right_idle hr hs
      exact .silenced r hl hr htr (hpaid.rightMoves houts (Nat.le_add_right _ _))
  | muted r hl hr htl hpaid =>
      obtain ⟨hr, rfl⟩ := P.mute_step hr hs
      have hnone : ([] : List ν) = [] ∨ Emits (P.answer r) (P.countsRight t) 0 []
          (P.rightAllowance w.right.1) := .inl rfl
      exact .muted r hl hr (by simpa using htl) (hpaid.rightMoves hnone (by simp))
  | halted r hl hr hpaid =>
      obtain ⟨hr, hnone⟩ := P.right_over hr hs
      exact .halted r hl hr (hpaid.rightMoves (Q := fun _ ↦ True)
        (.inr ⟨fun _ _ ↦ trivial, le_of_eq_of_le (by rw [hnone, Nat.mul_zero]) (Nat.zero_le _)⟩)
        (Nat.zero_le _))

/-- Losing messages keeps the order of the others, and costs nothing. -/
theorem Balanced.lose (h : P.Balanced base w) {p : List μ} {q : List ν} (hp : p.Sublist w.toRight)
    (hq : q.Sublist w.toLeft) : P.Balanced base ⟨w.left, w.right, p, q⟩ := by
  have lengths := And.intro hp.length_le hq.length_le
  cases h with
  | answered r hl hr htr htl hpaid =>
      obtain ⟨k, hk, htl⟩ := htl.sublist hq
      exact .answered r hl hr (forall_sublist htr hp) htl
        (hpaid.mono (Nat.add_le_add (Nat.mul_le_mul_right _ lengths.1) hk))
  | asked r hl hr htr htl hpaid =>
      obtain ⟨k, hk, htr⟩ := htr.sublist hp
      exact .asked r hl hr htr (forall_sublist htl hq)
        (hpaid.mono (Nat.add_le_add hk (Nat.mul_le_mul_right _ lengths.2)))
  | refused r hl hr htr htl hpaid =>
      obtain ⟨k, hk, htl⟩ := htl.sublist hq
      exact .refused r hl hr (forall_sublist htr hp) htl (hpaid.mono hk)
  | silenced r hl hr htr hpaid =>
      exact .silenced r hl hr (forall_sublist htr hp)
        (hpaid.mono (Nat.mul_le_mul_right _ lengths.1))
  | muted r hl hr htl hpaid =>
      exact .muted r hl hr (forall_sublist htl hq) (hpaid.mono (Nat.mul_le_mul_right _ lengths.2))
  | halted r hl hr hpaid => exact .halted r hl hr (hpaid.mono (le_refl 0))

theorem Balanced.step (h : P.Balanced base w) (hs : Step .fifo L.journaled R.journaled w ℓ w') :
    P.Balanced base w' := by
  cases hs with
  | leftTakes ht hs =>
      obtain ⟨s, hmove, rfl⟩ := Node.journaled_cases hs
      exact h.leftTakes ht.fifo_eq hmove
  | leftMoves hs =>
      obtain ⟨s, hmove, rfl⟩ := Node.journaled_cases hs
      exact h.leftMoves hmove
  | rightTakes ht hs =>
      obtain ⟨t, hmove, rfl⟩ := Node.journaled_cases hs
      exact h.rightTakes ht.fifo_eq hmove
  | rightMoves hs =>
      obtain ⟨t, hmove, rfl⟩ := Node.journaled_cases hs
      exact h.rightMoves hmove
  | lose hp hq => exact h.lose hp hq

theorem Balanced.run (h : P.Balanced base w)
    (hr : (system .fifo L.journaled R.journaled).Reaches w w') : P.Balanced base w' :=
  hr.invariant (fun hI _ hs ↦ Balanced.step hI hs) h

/-- What was sent is paid for by what was in flight at first and by what the ends are allowed. -/
theorem Balanced.total_le (h : P.Balanced base w) : P.total w ≤ base + P.allowed w := by
  cases h with
  | answered _ _ _ _ _ hpaid | asked _ _ _ _ _ hpaid | refused _ _ _ _ _ hpaid
    | silenced _ _ _ _ hpaid | muted _ _ _ _ hpaid | halted _ _ _ hpaid =>
      exact le_trans (Nat.le_add_right _ _) hpaid

/-! ## Without the account -/

theorem Balanced.agrees (h : P.Balanced base w) : P.Agrees w.forget := by
  cases h with
  | answered r hl hr htr htl => exact .answered r hl hr htr htl.inOrder
  | asked r hl hr htr htl => exact .asked r hl hr htr.inOrder htl
  | refused r hl hr htr htl => exact .refused r hl hr htr htl.inOrder
  | silenced r hl hr htr => exact .silenced r hl hr htr
  | muted r hl hr htl => exact .muted r hl hr htl
  | halted r hl hr => exact .halted r hl hr

/-- The account may start anywhere. -/
theorem Agrees.balanced {w : World σ τ μ ν} (h : P.Agrees w) : ∃ base, P.Balanced base w.journaled := by
  have start : ∀ n, P.Affords n w.journaled n := fun n ↦ le_of_eq (by simp [total, allowed, World.journaled])
  cases h with
  | answered r hl hr htr htl =>
      obtain ⟨n, htl⟩ := htl.weighs (P.answerPrice r) (P.answerPrice (P.next r))
      exact ⟨_, .answered r hl hr htr htl (start _)⟩
  | asked r hl hr htr htl =>
      obtain ⟨n, htr⟩ := htr.weighs (P.requestPrice r) (P.requestPrice (P.next r))
      exact ⟨_, .asked r hl hr htr htl (start _)⟩
  | refused r hl hr htr htl =>
      obtain ⟨n, htl⟩ := htl.weighs (P.answerPrice r) 0
      exact ⟨_, .refused r hl hr htr htl (start _)⟩
  | silenced r hl hr htr => exact ⟨_, .silenced r hl hr htr (start _)⟩
  | muted r hl hr htl => exact ⟨_, .muted r hl hr htl (start _)⟩
  | halted r hl hr => exact ⟨_, .halted r hl hr (start _)⟩

theorem Agrees.run {w w' : World σ τ μ ν} (h : P.Agrees w) (hr : (system .fifo L R).Reaches w w') :
    P.Agrees w' := by
  obtain ⟨base, h⟩ := h.balanced
  obtain ⟨v, hv, rfl⟩ := Reaches.journaled hr
  exact (h.run hv).agrees

end Lockstep

end Duplex

end Rdt
