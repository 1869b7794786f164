import Rdt.Common.Socket

/-!
# How long a wrapped receive lasts

The wrapper adds up the time of the receives that failed, and each of these has a limit of its own.
So a wait is over when an event finds it older than both limits together, whatever came before.
-/

namespace Rdt

/-- The two limits of a wrapped receive, and a timer that has begun before them -/
def waitingLimit : Time := 2 * socketConnectionLostTimeout + socketRetransmissionTimeout

/-- The event concerns a blocked receive. -/
def Event.Wakes (ev : Event) : Prop := ∀ now, ev ≠ .proceed now

theorem Event.ne_proceed_iff {ev : Event} : ev ≠ .proceed ev.now ↔ ev.Wakes := by
  refine ⟨fun hne now hev ↦ hne ?_, fun h ↦ h ev.now⟩
  rw [hev]
  rfl

instance (ev : Event) : Decidable ev.Wakes := decidable_of_iff (ev ≠ .proceed ev.now) Event.ne_proceed_iff

namespace ReListen

variable {α : Type} {op : Operation α} {s : SocketSaw} {r r' : ReListen} {ev : Event} {b : Bool}
  {now : Time}

/-- When the wrapper was entered -/
def entered (r : ReListen) : Time := r.timeOfAccumulation - r.accumulatedTime

/-- The times of a receive that is blocked at `now` -/
structure Timely (r : ReListen) (now : Time) : Prop where
  accumulated : r.accumulatedTime < socketConnectionLostTimeout
  le : r.accumulatedTime ≤ r.timeOfAccumulation
  le_now : r.timeOfAccumulation ≤ now
  lost : r.connectionLostDeadline = r.timeOfAccumulation + socketConnectionLostTimeout
  due : r.retransmissionNecessaryDeadline ≤ r.connectionLostDeadline + socketRetransmissionTimeout

@[simp] theorem entered_start (now : Time) : (ReListen.start now).entered = now := Nat.sub_zero now

theorem timely_receive {e : ReListen} (ha : e.accumulatedTime < socketConnectionLostTimeout)
    (hle : e.accumulatedTime ≤ now) (ht : e.timeOfAccumulation = now) : (e.receive now).Timely now where
  accumulated := ha
  le := ht ▸ hle
  le_now := ht.le
  lost := congrArg (· + socketConnectionLostTimeout) ht.symm
  due := Nat.add_le_add_right (Nat.le_add_right now socketConnectionLostTimeout) _

theorem timely_start (now : Time) : (ReListen.start now).Timely now :=
  timely_receive (show 0 < socketConnectionLostTimeout by decide) (Nat.zero_le now) rfl

theorem Timely.mono {now' : Time} (h : r.Timely now) (hle : now ≤ now') : r.Timely now' :=
  ⟨h.accumulated, h.le, h.le_now.trans hle, h.lost, h.due⟩

theorem Timely.entered_le (h : r.Timely now) : r.entered ≤ now := (Nat.sub_le _ _).trans h.le_now

/-- What a receive that goes on after an event knows of the time -/
structure GoesOn (r : ReListen) (ev : Event) (r' : ReListen) : Prop where
  timely : r'.Timely ev.now
  entered : r'.entered = r.entered
  young : ev.Wakes → ev.now < r.entered + waitingLimit

/-- One receive of the wrapper lasts no longer than its deadline and a timer. -/
theorem Timely.young (h : r.Timely now) {t : Time}
    (ht : t < r.connectionLostDeadline + socketRetransmissionTimeout) : t < r.entered + waitingLimit := by
  have hentered : r.entered + r.accumulatedTime = r.timeOfAccumulation := Nat.sub_add_cancel h.le
  have haccumulated := h.accumulated
  rw [h.lost] at ht
  unfold waitingLimit
  dsimp only [Time] at *
  omega

/-- The socket's timer fires in the inner loop. -/
theorem Timely.blocked {n : Nat} (h : r.Timely now) (hle : now ≤ ev.now)
    (hb : r.recvfrom s n ev = .blocked r' b) : r.GoesOn ev r' := by
  cases ev with
  | datagram => cases hb
  | osError now' =>
      unfold recvfrom at hb
      dsimp only at hb
      split at hb <;> cases hb
  | proceed now' =>
      obtain ⟨rfl, -⟩ := Received.blocked.inj hb
      exact ⟨h.mono hle, rfl, fun hw ↦ absurd rfl (hw now')⟩
  | timeout now' =>
      unfold recvfrom at hb
      dsimp only at hb
      split at hb
      · cases hb
      · split at hb
        · rename_i hearly
          obtain ⟨rfl, -⟩ := Received.blocked.inj hb
          exact ⟨h.mono hle, rfl, fun _ ↦ h.young (hearly.trans_le h.due)⟩
        · split at hb
          · rename_i hleft
            obtain ⟨rfl, -⟩ := Received.blocked.inj hb
            refine ⟨⟨h.accumulated, h.le, h.le_now.trans hle, h.lost, ?_⟩, rfl, fun _ ↦ h.young ?_⟩
            · exact Nat.add_le_add_right hleft.2 _
            · exact hleft.2.trans_lt (Nat.lt_add_of_pos_right (by decide))
          · cases hb

/-- The wrapper catches an exception and listens again. -/
theorem Timely.caught {e : Exn} (h : r.Timely now) (hle : now ≤ ev.now) (hx : ¬r.Exhausted ev.now)
    (hc : (r.caught e ev.now : Listened α) = .listening r' b) : r.GoesOn ev r' := by
  have htime : r.accumulatedTime + (ev.now - r.timeOfAccumulation) < socketConnectionLostTimeout :=
    not_le.mp (not_or.mp hx).2
  have hentered : r.entered + r.accumulatedTime = r.timeOfAccumulation := Nat.sub_add_cancel h.le
  have hnow : r.timeOfAccumulation ≤ ev.now := h.le_now.trans hle
  obtain ⟨rfl, -⟩ := Listened.listening.inj ((if_neg hx).symm.trans hc)
  refine ⟨timely_receive htime ?_ rfl, ?_, fun _ ↦ ?_⟩
  · show r.accumulatedTime + (ev.now - r.timeOfAccumulation) ≤ ev.now
    dsimp only [Time] at *
    omega
  · show ev.now - (r.accumulatedTime + (ev.now - r.timeOfAccumulation)) = r.entered
    dsimp only [Time] at *
    omega
  · unfold waitingLimit
    dsimp only [Time] at *
    omega

/-- A wrapped receive that an event does not end is younger than the limit. -/
theorem Timely.goesOn (h : r.Timely now) (hle : now ≤ ev.now)
    (hl : reListenIfFailed op s r ev = .listening r' b) : r.GoesOn ev r' := by
  have handled : ∀ e : Exn, (if e.cls ∈ configureWantedExceptionsToCatch op.exceptionsToLetThrough then
      r.caught e ev.now else .raised e false : Listened α) = .listening r' b → r.GoesOn ev r' := by
    intro e hc
    split at hc
    · by_cases hx : r.Exhausted ev.now
      · rw [caught_of_exhausted hx] at hc
        cases hc
      · exact h.caught hle hx hc
    · cases hc
  unfold reListenIfFailed at hl
  dsimp only at hl
  cases hr : r.recvfrom s op.bufferSize ev with
  | blocked r₁ b₁ =>
      rw [hr] at hl
      obtain ⟨rfl, rfl⟩ := Listened.listening.inj hl
      exact h.blocked hle hr
  | packet raw source =>
      rw [hr] at hl
      dsimp only at hl
      cases hc : op.check raw source with
      | ok a =>
          rw [hc] at hl
          cases hl
      | error e =>
          rw [hc] at hl
          exact handled e hl
  | failed e =>
      rw [hr] at hl
      exact handled _ hl

end ReListen

/-! ## Silence -/

section Silence

variable {α : Type} {op : Operation α} {s : SocketSaw} {r : ReListen} {ev : Event}

theorem ReListen.recvfrom_quiet (s : SocketSaw) (r : ReListen) (n : Nat) (hev : ev.Quiet) :
    (∃ r' b, r.recvfrom s n ev = .blocked r' b) ∨
      r.recvfrom s n ev = .failed ExnClass.connectionLost.exn := by
  obtain ⟨now, rfl | rfl⟩ := hev
  · unfold recvfrom
    dsimp only
    split
    · exact .inr rfl
    · split
      · exact .inl ⟨_, _, rfl⟩
      · split
        · exact .inl ⟨_, _, rfl⟩
        · exact .inr rfl
  · exact .inl ⟨r, false, rfl⟩

theorem reListen_quiet_cases (op : Operation α) (s : SocketSaw) (r : ReListen) (hev : ev.Quiet) :
    (∃ r' b, reListenIfFailed op s r ev = .listening r' b) ∨
      ∃ b, reListenIfFailed op s r ev = .raised (op.onFailure ExnClass.connectionLost.exn) b := by
  rcases ReListen.recvfrom_quiet s r op.bufferSize hev with ⟨r', b, hr⟩ | hr
  · exact .inl ⟨r', b, by simp only [reListenIfFailed, hr]⟩
  · simp only [reListenIfFailed, hr]
    split
    · by_cases hx : r.Exhausted ev.now
      · exact .inr ⟨true, ReListen.caught_of_exhausted hx⟩
      · obtain ⟨r', hr'⟩ := ReListen.caught_of_not_exhausted (α := α) hx
        exact .inl ⟨r', true, hr'⟩
    · exact .inr ⟨false, rfl⟩

/-- While nothing arrives, a wrapped receive goes on or loses the connection. -/
theorem reListen_silent (hop : op.onFailure = id) (hev : ev.Quiet) :
    (∃ r' b, reListenIfFailed op s r ev = .listening r' b) ∨
      ∃ b, reListenIfFailed op s r ev = .raised ExnClass.connectionLost.exn b := by
  have h := reListen_quiet_cases op s r hev
  rwa [hop] at h

/-- It goes on if what becomes of the lost connection is caught. -/
theorem reListen_passes (hc : (op.onFailure ExnClass.connectionLost.exn).cls ∈
      configureWantedExceptionsToCatch op.exceptionsToLetThrough) (hev : ev.Quiet)
    (hg : (reListenIfFailed op s r ev).gaveUp = false) :
    ∃ r' b, reListenIfFailed op s r ev = .listening r' b := by
  rcases reListen_quiet_cases op s r hev with h | ⟨b, h⟩
  · exact h
  · have hspec := reListens op s r ev
    rw [h] at hspec hg
    cases hspec with
    | letThrough _ he => exact absurd hc he
    | exhausted => cases hg

end Silence

/-- The times of the events do not go back. -/
def Clocked : Time → List Event → Prop
  | _, [] => True
  | now, ev :: es => now ≤ ev.now ∧ Clocked ev.now es

instance Clocked.decidable : ∀ (now : Time) (es : List Event), Decidable (Clocked now es)
  | _, [] => isTrue trivial
  | now, ev :: es =>
      have : Decidable (Clocked ev.now es) := Clocked.decidable ev.now es
      inferInstanceAs (Decidable (now ≤ ev.now ∧ Clocked ev.now es))

/-- The time of the last of the events -/
def lastTime : Time → List Event → Time
  | now, [] => now
  | _, ev :: es => lastTime ev.now es

theorem clocked_append {now : Time} {es es' : List Event} :
    Clocked now (es ++ es') ↔ Clocked now es ∧ Clocked (lastTime now es) es' := by
  induction es generalizing now with
  | nil => simp [Clocked, lastTime]
  | cons ev es ih => rw [List.cons_append, Clocked, Clocked, ih, and_assoc, lastTime]

theorem lastTime_append (now : Time) (es es' : List Event) :
    lastTime now (es ++ es') = lastTime (lastTime now es) es' := by
  induction es generalizing now with
  | nil => rfl
  | cons ev es ih => exact ih ev.now

end Rdt
