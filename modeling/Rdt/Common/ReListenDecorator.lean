import Mathlib.Order.Monotone.Basic
import Rdt.Common.Socket

/-!
# `re_listen_decorator.py` as a loop

The wrapper around a function whose outcomes are given: `attempt n` is what its `n`-th call does
and `clock n` the time that is read when `n` calls have failed.
-/

namespace Rdt.ReListenDecorator

variable {α : Type}

/-- The local variables of the wrapper, with the number of calls of the wrapped function and the
arguments of those of `retransmit_last_packet_for_re_listen`. -/
structure Variables (α : Type) where
  listeningAttempts : Nat
  result : Option α
  exceptionGot : Option Exn
  timeOfAccumulation : Time
  accumulatedTime : Time
  calls : Nat
  retransmissions : List Nat

namespace Variables

def start (clock : Nat → Time) : Variables α where
  listeningAttempts := 0
  result := none
  exceptionGot := none
  timeOfAccumulation := clock 0
  accumulatedTime := 0
  calls := 0
  retransmissions := []

/-- The condition of the loop -/
def Goes (v : Variables α) : Prop :=
  v.listeningAttempts < maxRetransmissionAttempts ∧
    v.accumulatedTime < socketConnectionLostTimeout

instance (v : Variables α) : Decidable v.Goes := inferInstanceAs (Decidable (_ ∧ _))

/-- The `except want_to_catch` branch -/
def caught (clock : Nat → Time) (v : Variables α) (e : Exn) : Variables α :=
  let currentTime := clock (v.calls + 1)
  { v with
    exceptionGot := some e
    listeningAttempts := v.listeningAttempts + 1
    calls := v.calls + 1
    retransmissions := v.retransmissions ++ [v.listeningAttempts + 1]
    accumulatedTime := v.accumulatedTime + (currentTime - v.timeOfAccumulation)
    timeOfAccumulation := currentTime }

end Variables

variable (wantToCatch : List ExnClass) (attempt : Nat → Except Exn α) (clock : Nat → Time)

/-- The loop, which an exception that is not caught leaves at once. -/
def loop (v : Variables α) : Except (Exn × Variables α) (Variables α) :=
  if v.Goes then
    match attempt v.calls with
    | .ok a => .ok { v with result := some a, calls := v.calls + 1 }
    | .error e =>
        if e.cls ∈ wantToCatch then loop (v.caught clock e)
        else .error (e, { v with calls := v.calls + 1 })
  else .ok v
termination_by maxRetransmissionAttempts - v.listeningAttempts
decreasing_by
  rename_i hgo _
  have hlt := hgo.1
  show maxRetransmissionAttempts - (v.listeningAttempts + 1) < _
  omega

/-- What the wrapper returns or raises, and the retransmissions it asked for. -/
structure Outcome (α : Type) where
  value : Except Exn (Option α)
  retransmissions : List Nat

/-- What follows the loop -/
def finish : Except (Exn × Variables α) (Variables α) → Outcome α
  | .error (e, v) => ⟨.error e, v.retransmissions⟩
  | .ok v =>
      if maxRetransmissionAttempts ≤ v.listeningAttempts ∨
          socketConnectionLostTimeout ≤ v.accumulatedTime then
        match v.exceptionGot with
        | some e => ⟨.error e, v.retransmissions⟩
        | none => ⟨.ok v.result, v.retransmissions⟩
      else ⟨.ok v.result, v.retransmissions⟩

/-- `wrapper` -/
def wrapper (exceptionsToLetThrough : List ExnClass) : Outcome α :=
  finish (loop (configureWantedExceptionsToCatch exceptionsToLetThrough) attempt clock
    (.start clock))

/-! ## The variables after some failures -/

/-- The variables when the first `n` calls have failed. -/
structure After (n : Nat) (v : Variables α) : Prop where
  listeningAttempts : v.listeningAttempts = n
  result : v.result = none
  exceptionGot : ∀ m, n = m + 1 → ∀ e, attempt m = .error e → v.exceptionGot = some e
  timeOfAccumulation : v.timeOfAccumulation = clock n
  accumulatedTime : v.accumulatedTime = clock n - clock 0
  calls : v.calls = n
  retransmissions : v.retransmissions = List.range' 1 n

theorem After.start : After attempt clock 0 (.start clock) where
  listeningAttempts := rfl
  result := rfl
  exceptionGot _ h := absurd h (Nat.succ_ne_zero _).symm
  timeOfAccumulation := rfl
  accumulatedTime := (Nat.sub_self _).symm
  calls := rfl
  retransmissions := rfl

variable {wantToCatch attempt clock} {n : Nat} {v : Variables α} {e : Exn}

/-- One more failure; the times between the readings add up to the whole time. -/
theorem After.caught (hclock : Monotone clock) (h : After attempt clock n v)
    (he : attempt n = .error e) : After attempt clock (n + 1) (v.caught clock e) where
  listeningAttempts := congrArg (· + 1) h.listeningAttempts
  result := h.result
  exceptionGot m hm e' he' := by
    obtain rfl := Nat.succ.inj hm
    obtain rfl := Except.error.inj (he.symm.trans he')
    rfl
  timeOfAccumulation := congrArg (fun k ↦ clock (k + 1)) h.calls
  accumulatedTime := by
    have hstart : clock 0 ≤ clock n := hclock (Nat.zero_le n)
    have hstep : clock n ≤ clock (n + 1) := hclock (Nat.le_succ n)
    show v.accumulatedTime + (clock (v.calls + 1) - v.timeOfAccumulation) = _
    rw [h.accumulatedTime, h.calls, h.timeOfAccumulation, Nat.add_comm]
    exact Nat.sub_add_sub_cancel hstep hstart
  calls := congrArg (· + 1) h.calls
  retransmissions := by
    show v.retransmissions ++ [v.listeningAttempts + 1] = _
    rw [h.retransmissions, h.listeningAttempts, List.range'_1_concat, Nat.add_comm]

/-! ## The meaning of the wrapper -/

/-- Neither limit is reached when `n` calls have failed. -/
def Within (clock : Nat → Time) (n : Nat) : Prop :=
  n < maxRetransmissionAttempts ∧ clock n - clock 0 < socketConnectionLostTimeout

instance (clock : Nat → Time) (n : Nat) : Decidable (Within clock n) :=
  inferInstanceAs (Decidable (_ ∧ _))

theorem After.goes_iff (h : After attempt clock n v) : v.Goes ↔ Within clock n := by
  rw [Variables.Goes, h.listeningAttempts, h.accumulatedTime, Within]

theorem Within.mono (hclock : Monotone clock) {m : Nat} (h : Within clock n) (hm : m ≤ n) :
    Within clock m :=
  ⟨hm.trans_lt h.1, (Nat.sub_le_sub_right (hclock hm) _).trans_lt h.2⟩

/-- The exception is one the wrapper knows of, and is not let through. -/
def IsCaught (exceptionsToLetThrough : List ExnClass) (e : Exn) : Prop :=
  e.cls ∈ wantToCatchAll ∧ e.cls ∉ exceptionsToLetThrough

theorem mem_configureWantedExceptionsToCatch {exceptionsToLetThrough : List ExnClass} :
    e.cls ∈ configureWantedExceptionsToCatch exceptionsToLetThrough ↔
      IsCaught exceptionsToLetThrough e := by
  simp [configureWantedExceptionsToCatch, IsCaught]

/-- The first `n` calls raise exceptions that are caught. -/
def FailsBefore (exceptionsToLetThrough : List ExnClass) (attempt : Nat → Except Exn α) (n : Nat) :
    Prop :=
  ∀ m < n, ∃ e, attempt m = .error e ∧ IsCaught exceptionsToLetThrough e

/-- The three ways a wrapped call ends, by the calls of the wrapped function. -/
inductive Ends (exceptionsToLetThrough : List ExnClass) (attempt : Nat → Except Exn α)
    (clock : Nat → Time) : Outcome α → Prop
  | returns {n : Nat} {a : α} (hf : FailsBefore exceptionsToLetThrough attempt n)
      (hw : Within clock n) (h : attempt n = .ok a) :
      Ends exceptionsToLetThrough attempt clock ⟨.ok (some a), List.range' 1 n⟩
  | propagates {n : Nat} {e : Exn} (hf : FailsBefore exceptionsToLetThrough attempt n)
      (hw : Within clock n) (h : attempt n = .error e) (he : ¬IsCaught exceptionsToLetThrough e) :
      Ends exceptionsToLetThrough attempt clock ⟨.error e, List.range' 1 n⟩
  | givesUp {n : Nat} {e : Exn} (hf : FailsBefore exceptionsToLetThrough attempt (n + 1))
      (hw : Within clock n) (hx : ¬Within clock (n + 1)) (h : attempt n = .error e) :
      Ends exceptionsToLetThrough attempt clock ⟨.error e, List.range' 1 (n + 1)⟩

variable {exceptionsToLetThrough : List ExnClass} {a : α}

/-- The loop goes on from the variables after the failures it caught. -/
theorem loop_failsBefore (hclock : Monotone clock)
    (hf : FailsBefore exceptionsToLetThrough attempt n) (hw : ∀ m < n, Within clock m) :
    ∃ v, After attempt clock n v ∧
      loop (configureWantedExceptionsToCatch exceptionsToLetThrough) attempt clock
          (.start clock) =
        loop (configureWantedExceptionsToCatch exceptionsToLetThrough) attempt clock v := by
  induction n with
  | zero => exact ⟨_, .start attempt clock, rfl⟩
  | succ n ih =>
      obtain ⟨v, hv, heq⟩ := ih (fun m hm ↦ hf m (hm.trans (Nat.lt_succ_self n)))
        fun m hm ↦ hw m (hm.trans (Nat.lt_succ_self n))
      obtain ⟨e, he, hc⟩ := hf n (Nat.lt_succ_self n)
      refine ⟨v.caught clock e, hv.caught hclock he, heq.trans ?_⟩
      rw [loop, if_pos (hv.goes_iff.mpr (hw n (Nat.lt_succ_self n))), hv.calls, he]
      exact if_pos (mem_configureWantedExceptionsToCatch.mpr hc)

theorem After.not_exhausted (h : After attempt clock n v) (hw : Within clock n) :
    ¬(maxRetransmissionAttempts ≤ v.listeningAttempts ∨
      socketConnectionLostTimeout ≤ v.accumulatedTime) := by
  rw [h.listeningAttempts, h.accumulatedTime]
  rintro (hle | hle)
  · exact absurd hw.1 (not_lt.mpr hle)
  · exact absurd hw.2 (not_lt.mpr hle)

theorem After.exhausted (h : After attempt clock n v) (hw : ¬Within clock n) :
    maxRetransmissionAttempts ≤ v.listeningAttempts ∨
      socketConnectionLostTimeout ≤ v.accumulatedTime := by
  rw [h.listeningAttempts, h.accumulatedTime]
  by_contra hlt
  obtain ⟨hattempts, htime⟩ := not_or.mp hlt
  exact hw ⟨not_le.mp hattempts, not_le.mp htime⟩

theorem Ends.wrapper_eq (hclock : Monotone clock) {o : Outcome α}
    (h : Ends exceptionsToLetThrough attempt clock o) :
    wrapper attempt clock exceptionsToLetThrough = o := by
  cases h with
  | @returns n a hf hw h =>
      obtain ⟨v, hv, heq⟩ := loop_failsBefore hclock hf fun m hm ↦ hw.mono hclock hm.le
      rw [wrapper, heq, loop, if_pos (hv.goes_iff.mpr hw), hv.calls, h]
      refine (if_neg (hv.not_exhausted hw)).trans ?_
      exact congrArg (Outcome.mk _) hv.retransmissions
  | @propagates n e hf hw h he =>
      obtain ⟨v, hv, heq⟩ := loop_failsBefore hclock hf fun m hm ↦ hw.mono hclock hm.le
      rw [wrapper, heq, loop, if_pos (hv.goes_iff.mpr hw), hv.calls, h]
      dsimp only
      rw [if_neg (mt mem_configureWantedExceptionsToCatch.mp he)]
      exact congrArg (Outcome.mk _) hv.retransmissions
  | @givesUp n e hf hw hx h =>
      obtain ⟨v, hv, heq⟩ := loop_failsBefore hclock hf fun m hm ↦ hw.mono hclock (Nat.le_of_lt_succ hm)
      rw [wrapper, heq, loop, if_neg (mt hv.goes_iff.mp hx), finish, if_pos (hv.exhausted hx),
        hv.exceptionGot n rfl e h]
      exact congrArg (Outcome.mk _) hv.retransmissions

theorem within_zero (clock : Nat → Time) : Within clock 0 :=
  ⟨by decide, by rw [Nat.sub_self]; decide⟩

/-- However the calls turn out, the wrapper ends: the failures it goes on after are at most as
many as the limit. -/
theorem exists_ends (exceptionsToLetThrough : List ExnClass) (attempt : Nat → Except Exn α)
    (clock : Nat → Time) : ∃ o, Ends exceptionsToLetThrough attempt clock o := by
  by_contra hnone
  have goesOn : ∀ n, FailsBefore exceptionsToLetThrough attempt n ∧ Within clock n := by
    intro n
    induction n with
    | zero => exact ⟨fun m hm ↦ absurd hm (Nat.not_lt_zero m), within_zero clock⟩
    | succ n ih =>
        obtain ⟨hf, hw⟩ := ih
        cases h : attempt n with
        | ok a => exact absurd ⟨_, .returns hf hw h⟩ hnone
        | error e =>
            by_cases he : IsCaught exceptionsToLetThrough e
            · have hf' : FailsBefore exceptionsToLetThrough attempt (n + 1) := by
                intro m hm
                rcases Nat.lt_succ_iff_lt_or_eq.mp hm with hm | rfl
                · exact hf m hm
                · exact ⟨e, h, he⟩
              refine ⟨hf', ?_⟩
              by_contra hx
              exact hnone ⟨_, .givesUp hf' hw hx h⟩
            · exact absurd ⟨_, .propagates hf hw h he⟩ hnone
  exact absurd (goesOn maxRetransmissionAttempts).2.1 (lt_irrefl _)

/-- A wrapped call ends in one of the three ways, which its outcome follows, and never with a
value that no call of the wrapped function returned. -/
theorem wrapper_eq_iff (exceptionsToLetThrough : List ExnClass) (attempt : Nat → Except Exn α)
    (clock : Nat → Time) (hclock : Monotone clock) :
    (∀ o, wrapper attempt clock exceptionsToLetThrough = o ↔
        Ends exceptionsToLetThrough attempt clock o) ∧
      ∀ r, (wrapper attempt clock exceptionsToLetThrough).value = .ok r →
        ∃ n a, r = some a ∧ attempt n = .ok a := by
  obtain ⟨o, ho⟩ := exists_ends exceptionsToLetThrough attempt clock
  have heq := ho.wrapper_eq hclock
  constructor
  · intro o'
    constructor
    · rintro rfl
      rw [heq]
      exact ho
    · exact Ends.wrapper_eq hclock
  · intro r hr
    rw [heq] at hr
    cases ho with
    | @returns n a _ _ h => exact ⟨n, a, (Except.ok.inj hr).symm, h⟩
    | propagates => cases hr
    | givesUp => cases hr

/-- A call that succeeds at the last attempt the limits allow -/
theorem wrapper_eq_iff_last :
    wrapper (fun n ↦ if n < 299 then .error ExnClass.connectionLost.exn else .ok ()) (fun _ ↦ 5) [] =
      ⟨.ok (some ()), List.range' 1 299⟩ :=
  ((wrapper_eq_iff [] _ _ monotone_const).1 _).mpr
    (.returns (fun _ hm ↦ ⟨_, if_pos hm, by simp [IsCaught, wantToCatchAll]⟩) ⟨by decide, by decide⟩
      (if_neg (lt_irrefl _)))

/-! ## The wrapper event by event -/

/-- The variables of the wrapper that a blocked receive keeps -/
structure Agrees (r : ReListen) (v : Variables α) : Prop where
  listeningAttempts : r.listeningAttempts = v.listeningAttempts
  accumulatedTime : r.accumulatedTime = v.accumulatedTime
  timeOfAccumulation : r.timeOfAccumulation = v.timeOfAccumulation

variable {op : Operation α} {s : SocketSaw} {r r' : ReListen} {ev : Event} {evs : List Event}

theorem agrees_start (clock : Nat → Time) :
    Agrees (.start (clock 0)) (Variables.start clock : Variables α) := ⟨rfl, rfl, rfl⟩

theorem Agrees.exhausted_iff (h : Agrees r v) (e : Exn) :
    r.Exhausted (clock (v.calls + 1)) ↔ ¬(v.caught clock e).Goes := by
  rw [ReListen.Exhausted, h.listeningAttempts, h.accumulatedTime, h.timeOfAccumulation,
    Variables.Goes, not_and_or, not_lt, not_lt]
  rfl

theorem Agrees.blocked (h : Agrees r v) {retransmit : Bool}
    (hb : r.recvfrom s op.bufferSize ev = .blocked r' retransmit) : Agrees r' v := by
  unfold ReListen.recvfrom at hb
  split at hb
  · cases hb
  · split at hb
    · cases hb
    · split at hb
      · obtain ⟨rfl, -⟩ := Received.blocked.inj hb
        exact h
      · split at hb
        · obtain ⟨rfl, -⟩ := Received.blocked.inj hb
          exact ⟨h.listeningAttempts, h.accumulatedTime, h.timeOfAccumulation⟩
        · cases hb
  · split at hb <;> cases hb
  · obtain ⟨rfl, -⟩ := Received.blocked.inj hb
    exact h

/-- What the event makes of the call of the wrapped function, unless that stays blocked. -/
def callEnds (op : Operation α) (s : SocketSaw) (r : ReListen) (ev : Event) :
    Option (Except Exn α) :=
  match r.recvfrom s op.bufferSize ev with
  | .blocked _ _ => none
  | .packet raw source => some (op.check raw source)
  | .failed e => some (.error (op.onFailure e))

/-- What a receive makes of events that come one after the other. -/
def listens (op : Operation α) (s : SocketSaw) : ReListen → List Event → Listened α
  | r, [] => .listening r false
  | r, ev :: evs =>
      match reListenIfFailed op s r ev with
      | .listening r' _ => listens op s r' evs
      | l => l

/-- The calls of the wrapped function follow the events, from the call with number `n` on. -/
inductive Follows (op : Operation α) (s : SocketSaw) (attempt : Nat → Except Exn α)
    (clock : Nat → Time) : ReListen → Nat → List Event → Prop
  | nil {r : ReListen} {n : Nat} : Follows op s attempt clock r n []
  | blocked {r r' : ReListen} {n : Nat} {ev : Event} {evs : List Event} {retransmit : Bool}
      (h : r.recvfrom s op.bufferSize ev = .blocked r' retransmit)
      (rest : Follows op s attempt clock r' n evs) : Follows op s attempt clock r n (ev :: evs)
  | call {r : ReListen} {n : Nat} {ev : Event} {evs : List Event}
      (h : callEnds op s r ev = some (attempt n)) (hnow : clock (n + 1) = ev.now)
      (rest : ∀ r' retransmit, reListenIfFailed op s r ev = .listening r' retransmit →
        Follows op s attempt clock r' (n + 1) evs) : Follows op s attempt clock r n (ev :: evs)

theorem reListenIfFailed_blocked {retransmit : Bool}
    (h : r.recvfrom s op.bufferSize ev = .blocked r' retransmit) :
    reListenIfFailed op s r ev = .listening r' retransmit := by
  simp only [reListenIfFailed, h]

theorem reListenIfFailed_returns (h : callEnds op s r ev = some (.ok a)) :
    reListenIfFailed op s r ev = .returned a := by
  unfold callEnds at h
  cases hr : r.recvfrom s op.bufferSize ev with
  | blocked => rw [hr] at h; cases h
  | packet raw source =>
      rw [hr] at h
      have hc : op.check raw source = .ok a := Option.some.inj h
      simp only [reListenIfFailed, hr, hc]
  | failed e => rw [hr] at h; cases Option.some.inj h

theorem reListenIfFailed_fails (h : callEnds op s r ev = some (.error e)) :
    reListenIfFailed op s r ev =
      if e.cls ∈ configureWantedExceptionsToCatch op.exceptionsToLetThrough then r.caught e ev.now
      else .raised e false := by
  unfold callEnds at h
  cases hr : r.recvfrom s op.bufferSize ev with
  | blocked => rw [hr] at h; cases h
  | packet raw source =>
      rw [hr] at h
      have hc : op.check raw source = .error e := Option.some.inj h
      simp only [reListenIfFailed, hr, hc]
  | failed e' =>
      rw [hr] at h
      obtain rfl := Except.error.inj (Option.some.inj h)
      simp only [reListenIfFailed, hr]

/-- What gets out of the wrapper, once something does -/
inductive GetsOut : Listened α → Except Exn (Option α) → Prop
  | returned (a : α) : GetsOut (.returned a) (.ok (some a))
  | raised (e : Exn) (retransmit : Bool) : GetsOut (.raised e retransmit) (.error e)

/-- The wrapper that is served event by event is the loop. -/
theorem Agrees.getsOut (hr : Agrees r v) (hgo : v.Goes)
    (hev : Follows op s attempt clock r v.calls evs) {l : Except Exn (Option α)}
    (hl : GetsOut (listens op s r evs) l) :
    (finish (loop (configureWantedExceptionsToCatch op.exceptionsToLetThrough) attempt clock
      v)).value = l := by
  induction evs generalizing r v with
  | nil => cases hl
  | cons ev evs ih =>
      rw [listens] at hl
      cases hev with
      | blocked h rest =>
          rw [reListenIfFailed_blocked h] at hl
          exact ih (hr.blocked h) hgo rest hl
      | call h hnow rest =>
          rw [loop, if_pos hgo]
          cases ha : attempt v.calls with
          | ok a =>
              rw [ha] at h
              rw [reListenIfFailed_returns h] at hl
              cases hl
              refine congrArg Outcome.value (if_neg ?_)
              exact not_or.mpr ⟨not_le.mpr hgo.1, not_le.mpr hgo.2⟩
          | error e =>
              rw [ha] at h
              have heq := reListenIfFailed_fails h
              dsimp only
              split at heq
              · rename_i hc
                rw [if_pos hc]
                by_cases hx : r.Exhausted ev.now
                · rw [ReListen.caught_of_exhausted hx] at heq
                  rw [heq] at hl
                  cases hl
                  rw [← hnow] at hx
                  have hstop := (hr.exhausted_iff e).mp hx
                  rw [loop, if_neg hstop]
                  refine congrArg Outcome.value (if_pos ?_)
                  exact (not_and_or.mp hstop).imp not_lt.mp not_lt.mp
                · have heq' : reListenIfFailed op s r ev = .listening _ true :=
                    heq.trans (if_neg hx)
                  rw [heq'] at hl
                  rw [← hnow] at hx
                  refine ih ?_ (not_not.mp (mt (hr.exhausted_iff e).mpr hx)) (rest _ _ heq') hl
                  refine ⟨congrArg (· + 1) hr.listeningAttempts, ?_, hnow.symm⟩
                  show r.accumulatedTime + (ev.now - r.timeOfAccumulation) = _
                  rw [hr.accumulatedTime, hr.timeOfAccumulation, ← hnow]
                  rfl
              · rename_i hc
                rw [if_neg hc]
                rw [heq] at hl
                cases hl
                rfl

/-- A wrapped receive that is entered when the clock shows `clock 0` -/
theorem wrapper_listens (hev : Follows op s attempt clock (.start (clock 0)) 0 evs)
    {l : Except Exn (Option α)} (hl : GetsOut (listens op s (.start (clock 0)) evs) l) :
    (wrapper attempt clock op.exceptionsToLetThrough).value = l :=
  (agrees_start clock).getsOut ((After.start attempt clock).goes_iff.mpr (within_zero clock)) hev hl

end Rdt.ReListenDecorator
