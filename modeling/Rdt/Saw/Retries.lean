import Rdt.Server.Protocol

/-!
# How often a wrapped receive sends its packet again

The two loops of a wrapped receive have a limit each, and the outer one enters the inner one
anew after every exception it catches: the limit is kept as long as it catches none.
-/

namespace Rdt

namespace ReListen

/-- The retransmission timer expires, and the inner loop has an attempt and time left. -/
def Expires (r : ReListen) : Event → Prop
  | .timeout now =>
      r.retransmissionNecessaryDeadline ≤ now ∧
        r.transmissionAttempt + 1 ≤ maxRetransmissionAttempts ∧ now ≤ r.connectionLostDeadline
  | _ => False

end ReListen

namespace Operation

variable {α : Type} (op : Operation α) (s : SocketSaw)

/-- The exception the event makes of the receive, or of its check. -/
def failure (r : ReListen) (ev : Event) : Option Exn :=
  match r.recvfrom s op.bufferSize ev with
  | .blocked _ _ => none
  | .packet raw source =>
      match op.check raw source with
      | .ok _ => none
      | .error e => some e
  | .failed e => some (op.onFailure e)

/-- It is one that the wrapper catches. -/
def Catches (r : ReListen) (ev : Event) : Prop :=
  ∃ e ∈ op.failure s r ev, e.cls ∈ configureWantedExceptionsToCatch op.exceptionsToLetThrough

/-- All that a wrapped receive sends again along some events -/
def resent : ReListen → List Event → Outbox
  | _, [] => []
  | r, ev :: es =>
      match reListenIfFailed op s r ev with
      | .listening r' retransmit => (if retransmit then s.retransmission else []) ++ resent r' es
      | .returned _ => []
      | .raised _ retransmit => if retransmit then s.retransmission else []

variable {op s} {r : ReListen} {ev : Event}

/-! ## One event -/

theorem failure_of_fails {e : Exn} (h : op.Fails s r ev e) : op.failure s r ev = some e := by
  unfold failure
  rcases h with ⟨raw, source, hr, hc⟩ | ⟨e', hr, rfl⟩
  · simp only [hr, hc]
  · simp only [hr]

theorem not_expires_of_fails {e : Exn} (hs : s.lastRawPacket ≠ none) (h : op.Fails s r ev e) :
    ¬r.Expires ev := by
  cases ev with
  | datagram | osError | proceed => exact id
  | timeout now =>
      rintro ⟨hdue, hattempt, htime⟩
      have hblocked : r.recvfrom s op.bufferSize (.timeout now) = .blocked
          { r with
            transmissionAttempt := r.transmissionAttempt + 1
            retransmissionNecessaryDeadline := now + socketRetransmissionTimeout } true := by
        unfold ReListen.recvfrom
        dsimp only
        rw [if_neg hs, if_neg (not_lt.mpr hdue), if_pos ⟨hattempt, htime⟩]
      rcases h with ⟨raw, source, hr, -⟩ | ⟨e', hr, -⟩
      · rw [hblocked] at hr
        cases hr
      · rw [hblocked] at hr
        cases hr

theorem blocked_expires {r' : ReListen} {b : Bool} (hs : s.lastRawPacket ≠ none)
    (h : r.recvfrom s op.bufferSize ev = .blocked r' b) : b = true ↔ r.Expires ev := by
  cases ev with
  | datagram => cases h
  | osError =>
      unfold ReListen.recvfrom at h
      dsimp only at h
      split at h <;> cases h
  | proceed now =>
      obtain ⟨-, rfl⟩ := Received.blocked.inj h
      exact ⟨fun h ↦ (by cases h), False.elim⟩
  | timeout now =>
      unfold ReListen.recvfrom at h
      dsimp only at h
      rw [if_neg hs] at h
      split at h
      · rename_i hearly
        obtain ⟨-, rfl⟩ := Received.blocked.inj h
        exact ⟨fun h ↦ (by cases h), fun he ↦ absurd he.1 (not_le.mpr hearly)⟩
      · rename_i hdue
        split at h
        · rename_i hleft
          obtain ⟨-, rfl⟩ := Received.blocked.inj h
          exact iff_of_true rfl ⟨not_lt.mp hdue, hleft⟩
        · cases h

end Operation

namespace Listened

variable {α : Type}

/-- Whether the packet is sent again. -/
def again : Listened α → Bool
  | .listening _ retransmit => retransmit
  | .returned _ => false
  | .raised _ retransmit => retransmit

/-- The receive goes on. -/
def waits : Listened α → Option ReListen
  | .listening r _ => some r
  | _ => none

end Listened

namespace Operation

variable {α : Type} {op : Operation α} {s : SocketSaw} {r : ReListen} {ev : Event}

variable (op r ev) in
/-- The packet is sent again if the timer expires or an exception is caught. -/
theorem again_iff (hs : s.lastRawPacket ≠ none) :
    (reListenIfFailed op s r ev).again = true ↔ r.Expires ev ∨ op.Catches s r ev := by
  have hspec := reListens op s r ev
  generalize reListenIfFailed op s r ev = l at hspec
  cases hspec with
  | @blocked r' b h =>
      have hno : ¬op.Catches s r ev := by
        rintro ⟨e, he, -⟩
        rw [failure, h] at he
        cases he
      exact (blocked_expires hs h).trans (or_iff_left hno).symm
  | @returned raw source a h hc =>
      have hno : ¬op.Catches s r ev := by
        rintro ⟨e, he, -⟩
        simp only [failure, h, hc] at he
        cases he
      obtain ⟨raw, now, rfl, -⟩ := ReListen.recvfrom_packet h
      exact iff_of_false (by simp [Listened.again]) (not_or.mpr ⟨id, hno⟩)
  | letThrough h he =>
      have hno : ¬op.Catches s r ev := by
        rintro ⟨e', he', hcaught⟩
        rw [failure_of_fails h] at he'
        obtain rfl := Option.some.inj he'
        exact he hcaught
      exact iff_of_false (by simp [Listened.again]) (not_or.mpr ⟨not_expires_of_fails hs h, hno⟩)
  | exhausted h he => exact iff_of_true rfl (.inr ⟨_, failure_of_fails h, he⟩)
  | again h he => exact iff_of_true rfl (.inr ⟨_, failure_of_fails h, he⟩)

/-! ## The whole wait -/

variable (op s) in
/-- No event that the receive gets makes the wrapper catch an exception: no datagram is turned down,
and the inner loop does not give up. -/
def Undisturbed : ReListen → List Event → Prop
  | _, [] => True
  | r, ev :: es =>
      ¬op.Catches s r ev ∧ ∀ r' ∈ (reListenIfFailed op s r ev).waits, Undisturbed r' es

theorem resent_cons (r : ReListen) (ev : Event) (es : List Event) :
    op.resent s r (ev :: es) =
      (if (reListenIfFailed op s r ev).again then s.retransmission else []) ++
        ((reListenIfFailed op s r ev).waits.elim [] fun r' ↦ op.resent s r' es) := by
  rw [resent]
  cases reListenIfFailed op s r ev with
  | listening => rfl
  | returned => rfl
  | raised => exact (List.append_nil _).symm

theorem resent_of_lastRawPacket (hs : s.lastRawPacket = none) (r : ReListen) (es : List Event) :
    op.resent s r es = [] := by
  have hnothing : s.retransmission = [] := by
    unfold SocketSaw.retransmission
    rw [hs]
  induction es generalizing r with
  | nil => rfl
  | cons ev es ih =>
      rw [resent_cons, hnothing, ite_self, List.nil_append]
      cases (reListenIfFailed op s r ev).waits with
      | none => rfl
      | some r' => exact ih r'

/-! ## The limit of the inner loop -/

/-- The inner loop counts the packets that it sends again. -/
theorem blocked_attempt {r' : ReListen} {b : Bool} (hs : s.lastRawPacket ≠ none)
    (h : r.recvfrom s op.bufferSize ev = .blocked r' b) :
    r'.transmissionAttempt = r.transmissionAttempt + b.toNat := by
  cases ev with
  | datagram => cases h
  | osError =>
      unfold ReListen.recvfrom at h
      dsimp only at h
      split at h <;> cases h
  | proceed now =>
      obtain ⟨rfl, rfl⟩ := Received.blocked.inj h
      rfl
  | timeout now =>
      unfold ReListen.recvfrom at h
      dsimp only at h
      rw [if_neg hs] at h
      split at h
      · obtain ⟨rfl, rfl⟩ := Received.blocked.inj h
        rfl
      · split at h
        · obtain ⟨rfl, rfl⟩ := Received.blocked.inj h
          rfl
        · cases h

/-- So it does as long as the wrapper has nothing to catch. -/
theorem waits_attempt {r' : ReListen} (hs : s.lastRawPacket ≠ none) (hno : ¬op.Catches s r ev)
    (h : (reListenIfFailed op s r ev).waits = some r') :
    r'.transmissionAttempt =
      r.transmissionAttempt + (reListenIfFailed op s r ev).again.toNat := by
  have hspec := reListens op s r ev
  generalize reListenIfFailed op s r ev = l at h hspec ⊢
  cases hspec with
  | blocked hr =>
      obtain rfl := Option.some.inj h
      exact blocked_attempt hs hr
  | returned => cases h
  | letThrough => cases h
  | exhausted => cases h
  | again hf he => exact absurd ⟨_, failure_of_fails hf, he⟩ hno

theorem length_retransmission_le (s : SocketSaw) (again : Bool) :
    (if again then s.retransmission else []).length ≤ again.toNat := by
  cases again with
  | false => exact Nat.le_refl 0
  | true =>
      rcases s.retransmission_cases with h | ⟨raw, a, h⟩
      · rw [if_pos rfl, h]
        exact Nat.zero_le 1
      · rw [if_pos rfl, h]
        exact Nat.le_refl 1

/-- What is still to be sent again fits in the attempts that are left. -/
theorem attempts_le (hs : s.lastRawPacket ≠ none) (r : ReListen) (es : List Event)
    (hr : r.transmissionAttempt ≤ maxRetransmissionAttempts) (h : op.Undisturbed s r es) :
    r.transmissionAttempt + (op.resent s r es).length ≤ maxRetransmissionAttempts := by
  induction es generalizing r with
  | nil => exact hr
  | cons ev es ih =>
      obtain ⟨hno, hrest⟩ := h
      have hattempt : r.transmissionAttempt + (reListenIfFailed op s r ev).again.toNat ≤
          maxRetransmissionAttempts := by
        cases hagain : (reListenIfFailed op s r ev).again with
        | false => exact hr
        | true =>
            have hexpires := ((again_iff op r ev hs).mp hagain).resolve_right hno
            cases ev with
            | timeout => exact hexpires.2.1
            | datagram | osError | proceed => exact hexpires.elim
      have hnow := length_retransmission_le s (reListenIfFailed op s r ev).again
      rw [resent_cons, List.length_append]
      cases hw : (reListenIfFailed op s r ev).waits with
      | none =>
          show _ + (_ + 0) ≤ _
          omega
      | some r' =>
          have hwaits := waits_attempt hs hno hw
          have hlater := ih r' (hwaits ▸ hattempt) (hrest r' hw)
          show _ + (_ + (op.resent s r' es).length) ≤ _
          omega

/-! ## Inputs that disturb nothing -/

/-- Before the attempts of the inner loop can be used up, anything but a datagram that is turned
down. -/
structure Prompt (op : Operation α) (start : Time) (ev : Event) : Prop where
  early : ev.now < start + maxRetransmissionAttempts * socketRetransmissionTimeout
  passes : ∀ raw source now, ev = .datagram raw source now →
    ∀ e, op.check (raw.take op.bufferSize) source = .error e →
      e.cls ∉ configureWantedExceptionsToCatch op.exceptionsToLetThrough
  works : ∀ now, ev ≠ .osError now

/-- Each attempt has had its time. -/
structure Paced (start : Time) (r : ReListen) : Prop where
  deadline : start + r.transmissionAttempt * socketRetransmissionTimeout ≤
    r.retransmissionNecessaryDeadline
  lost : r.connectionLostDeadline = start + socketConnectionLostTimeout

theorem paced_start (now : Time) : Paced now (ReListen.start now) :=
  ⟨by simp [ReListen.start, ReListen.receive], rfl⟩

/-- The timer leaves an attempt and time. -/
theorem Prompt.recvfrom_timeout {start now : Time} (hev : op.Prompt start (.timeout now))
    (hr : Paced start r) (hs : s.lastRawPacket ≠ none) :
    ∃ r' b, r.recvfrom s op.bufferSize (.timeout now) = .blocked r' b ∧ Paced start r' := by
  unfold ReListen.recvfrom
  dsimp only
  rw [if_neg hs]
  by_cases hdue : now < r.retransmissionNecessaryDeadline
  · rw [if_pos hdue]
    exact ⟨r, false, rfl, hr⟩
  · have hlate := hr.deadline.trans (not_lt.mp hdue)
    have hattempt : r.transmissionAttempt < maxRetransmissionAttempts :=
      Nat.lt_of_mul_lt_mul_right (Nat.lt_of_add_lt_add_left (hlate.trans_lt hev.early))
    have htime : now ≤ r.connectionLostDeadline := by
      rw [hr.lost]
      exact hev.early.le.trans (Nat.add_le_add_left (by decide) start)
    rw [if_neg hdue, if_pos ⟨hattempt, htime⟩]
    refine ⟨_, true, rfl, ?_, hr.lost⟩
    show start + (r.transmissionAttempt + 1) * socketRetransmissionTimeout ≤ _
    rw [Nat.succ_mul, ← Nat.add_assoc]
    exact Nat.add_le_add_right hlate _

/-- On the inputs alone: the wait is over within the time of the attempts, and no datagram is turned
down. -/
theorem undisturbed_of_prompt {start : Time} (hs : s.lastRawPacket ≠ none) (r : ReListen)
    (es : List Event) (hr : Paced start r) (hes : ∀ ev ∈ es, op.Prompt start ev) :
    op.Undisturbed s r es := by
  induction es generalizing r with
  | nil => trivial
  | cons ev es ih =>
      have hev := hes ev List.mem_cons_self
      have blocked : ∀ r' b, r.recvfrom s op.bufferSize ev = .blocked r' b → Paced start r' →
          op.Undisturbed s r (ev :: es) := by
        intro r' b h hr'
        refine ⟨?_, fun r'' hw ↦ ?_⟩
        · rintro ⟨e, he, -⟩
          rw [failure, h] at he
          cases he
        · simp only [reListenIfFailed, h] at hw
          obtain rfl := Option.some.inj hw
          exact ih _ hr' fun ev' h' ↦ hes ev' (List.mem_cons_of_mem _ h')
      cases ev with
      | osError now => exact absurd rfl (hev.works now)
      | proceed now => exact blocked r false rfl hr
      | timeout now =>
          obtain ⟨r', b, h, hr'⟩ := hev.recvfrom_timeout hr hs
          exact blocked r' b h hr'
      | datagram raw source now =>
          cases hc : op.check (raw.take op.bufferSize) source with
          | ok a =>
              refine ⟨?_, fun r' hw ↦ ?_⟩
              · rintro ⟨e, he, -⟩
                simp only [failure, ReListen.recvfrom, hc] at he
                cases he
              · rw [reListen_accepts hc] at hw
                cases hw
          | error e =>
              have he := hev.passes raw source now rfl e hc
              refine ⟨?_, fun r' hw ↦ ?_⟩
              · rintro ⟨e', he', hcaught⟩
                simp only [failure, ReListen.recvfrom, hc] at he'
                obtain rfl := Option.some.inj he'
                exact he hcaught
              · rw [reListen_letsThrough hc he] at hw
                cases hw

namespace Local

/-- An ACK waited for, with a packet to send again -/
def waiting : SocketSaw := SocketSaw.saveState ⟨none, none⟩ (some [0, 0, 0, 0, 0, 0]) ⟨"127.0.0.1", 51000⟩

/-- The timer expires twice, then the ACK comes. -/
def answered : List Event :=
  [.timeout 15000, .timeout 30000, .datagram [16, 0, 199, 56, 0, 0] (some ⟨"127.0.0.1", 51000⟩) 40000]

theorem prompt_answered :
    ∀ ev ∈ answered, (ServerProtocol.waitForAck ⟨0, .stopAndWait⟩).Prompt 0 ev := by
  simp only [answered, List.forall_mem_cons]
  refine ⟨⟨by decide, by simp, by simp⟩, ⟨by decide, by simp, by simp⟩,
    ⟨by decide, ?_, by simp⟩, by simp⟩
  rintro raw source now hev e hc
  obtain ⟨rfl, rfl, rfl⟩ := Event.datagram.inj hev
  cases hc

end Local

/-- The limit that was meant: as long as nothing is caught, the packet is sent again at most so many
times. -/
theorem resent_le_of_undisturbed (op : Operation α) (s : SocketSaw) (now : Time) (es : List Event)
    (h : op.Undisturbed s (ReListen.start now) es) :
    (op.resent s (ReListen.start now) es).length ≤ maxRetransmissionAttempts := by
  by_cases hs : s.lastRawPacket = none
  · rw [resent_of_lastRawPacket hs]
    exact Nat.zero_le _
  · exact le_trans (Nat.le_add_left _ _)
      (attempts_le hs (ReListen.start now) es (show 1 ≤ maxRetransmissionAttempts by decide) h)

/-- Sent again twice -/
theorem resent_le_of_undisturbed_answered :
    ((ServerProtocol.waitForAck ⟨0, .stopAndWait⟩).resent Local.waiting (ReListen.start 0)
      Local.answered).length = 2 ∧ 2 ≤ maxRetransmissionAttempts := by
  have hresent : ((ServerProtocol.waitForAck ⟨0, .stopAndWait⟩).resent Local.waiting
      (ReListen.start 0) Local.answered).length = 2 := by decide +kernel
  refine ⟨hresent, hresent ▸ resent_le_of_undisturbed (ServerProtocol.waitForAck ⟨0, .stopAndWait⟩)
    Local.waiting 0 Local.answered ?_⟩
  exact undisturbed_of_prompt (by simp [Local.waiting, SocketSaw.saveState]) _ _ (paced_start 0)
    Local.prompt_answered

/-- A peer that stays silent: the packet is sent again at each expiration of the timer. -/
theorem not_resent_le_silent :
    ¬((ServerProtocol.waitForAck ⟨0, .stopAndWait⟩).resent
        Local.waiting (ReListen.start 0)
        ((List.range 301).map fun k ↦ .timeout (15000 * (k + 1)))).length ≤
      maxRetransmissionAttempts := by
  decide +kernel

end Operation

end Rdt
