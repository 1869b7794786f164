import Rdt.Common.Packet

/-! # Sockets, and the retry wrapper around a receive -/

namespace Rdt

/-- What can happen to an end that is blocked in a receive, or (`proceed`) running between
two of them.  The code that runs on an event reads the clock as `now`. -/
inductive Event where
  /-- A datagram is in the socket's queue. -/
  | datagram (raw : Bytes) (source : Option Address) (now : Time)
  /-- The socket's timeout expires. -/
  | timeout (now : Time)
  /-- The receive fails with another `OSError`: the socket was shut down. -/
  | osError (now : Time)
  /-- Running code takes its next step. -/
  | proceed (now : Time)
deriving DecidableEq, Repr

def Event.now : Event → Time
  | .datagram _ _ now | .timeout now | .osError now | .proceed now => now

/-- The event brings no datagram. -/
def Event.Quiet (ev : Event) : Prop := ∃ now, ev = .timeout now ∨ ev = .proceed now

/-- Datagrams handed to the operating system, in order. -/
abbrev Outbox := List (Bytes × Address)

/-- What was handed over for one destination. -/
def Outbox.to (o : Outbox) (a : Address) : List Bytes :=
  o.filterMap fun s ↦ if s.2 = a then some s.1 else none

@[simp] theorem Outbox.to_nil (a : Address) : Outbox.to [] a = [] := rfl

@[simp] theorem Outbox.to_append (o o' : Outbox) (a : Address) :
    Outbox.to (o ++ o') a = Outbox.to o a ++ Outbox.to o' a := List.filterMap_append

@[simp] theorem Outbox.to_cons_self (raw : Bytes) (o : Outbox) (a : Address) :
    Outbox.to ((raw, a) :: o) a = raw :: Outbox.to o a := by
  simp [Outbox.to]

theorem Outbox.eq_of_mem_to {raw raw' : Bytes} {a b : Address}
    (h : raw' ∈ Outbox.to [(raw, a)] b) : raw' = raw := by
  obtain ⟨⟨_, _⟩, hmem, hto⟩ := List.mem_filterMap.mp h
  obtain ⟨rfl, rfl⟩ := Prod.mk.inj (List.mem_singleton.mp hmem)
  exact (Option.some.inj (Option.ite_none_right_eq_some.mp hto).2).symm

theorem Outbox.to_cons_of_ne {raw : Bytes} {o : Outbox} {a b : Address} (h : b ≠ a) :
    Outbox.to ((raw, b) :: o) a = Outbox.to o a := by
  simp [Outbox.to, h]

/-! ## `socket_saw.py` -/

/-- `sendto` of a socket that works: of port 0 it makes an `OSError`, which is raised as a
`SocketShutdown`. -/
def sendto (toAddress : Address) : Except Exn Peer :=
  if h : toAddress.port = 0 then .error ExnClass.socketShutdown.exn else .ok ⟨toAddress, h⟩

@[simp] theorem sendto_eq {toAddress : Address} (h : toAddress.port ≠ 0) :
    sendto toAddress = .ok ⟨toAddress, h⟩ := dif_neg h

theorem toAddress_of_sendto {toAddress : Address} {peer : Peer} (h : sendto toAddress = .ok peer) :
    peer.toAddress = toAddress := by
  unfold sendto at h
  split at h
  · cases h
  · exact congrArg Peer.toAddress (Except.ok.inj h).symm

/-- `SocketSaw`: the last packet sent is kept for retransmission. -/
structure SocketSaw where
  lastRawPacket : Option Bytes
  lastAddress : Option Address
deriving DecidableEq, Repr

namespace SocketSaw

def new : SocketSaw := ⟨none, none⟩

def saveState (_ : SocketSaw) (data : Option Bytes) (toAddress : Address) : SocketSaw :=
  ⟨data, some toAddress⟩

def resetState (_ : SocketSaw) : SocketSaw := ⟨none, none⟩

/-- What `retransmit_last_packet` and `retransmit_last_packet_for_re_listen` send. -/
def retransmission (s : SocketSaw) : Outbox :=
  match s.lastRawPacket, s.lastAddress with
  | some raw, some a => [(raw, a)]
  | _, _ => []

@[simp] theorem retransmission_saveState (s : SocketSaw) (raw : Bytes) (a : Address) :
    (s.saveState (some raw) a).retransmission = [(raw, a)] := rfl

@[simp] theorem retransmission_resetState (s : SocketSaw) : s.resetState.retransmission = [] := rfl

theorem retransmission_cases (s : SocketSaw) :
    s.retransmission = [] ∨ ∃ raw a, s.retransmission = [(raw, a)] := by
  unfold retransmission
  split
  · exact .inr ⟨_, _, rfl⟩
  · exact .inl rfl

/-- A retransmission is of what was sent last. -/
theorem mem_retransmission {socket : SocketSaw} {b : Bool} {peer : Address} {raw : Bytes}
    (h : raw ∈ (if b then socket.retransmission else []).to peer) :
    raw ∈ socket.lastRawPacket := by
  cases b with
  | false => cases h
  | true =>
      simp only [if_true, Outbox.to, List.mem_filterMap, retransmission] at h
      obtain ⟨⟨raw', a⟩, hmem, hto⟩ := h
      split at hmem
      · rename_i last _ hlast _
        obtain ⟨rfl, rfl⟩ := Prod.mk.inj (List.mem_singleton.mp hmem)
        split at hto
        · exact Option.some.inj hto ▸ hlast
        · cases hto
      · cases hmem

end SocketSaw

/-! ## `socket_gbn.py` -/

/-- `SocketGbn.recvfrom`; `none` while it is blocked. -/
def SocketGbn.recvfrom (bufferSize : Nat) : Event → Option (Except Exn (Bytes × Option Address))
  | .datagram raw source _ => some (.ok (raw.take bufferSize, source))
  | .timeout _ => some (.error ExnClass.retransmissionNeeded.exn)
  | .osError _ => some (.error ExnClass.socketShutdown.exn)
  | .proceed _ => none

/-! ## `re_listen_decorator.py` -/

/-- The exceptions the wrapper knows of. -/
def wantToCatchAll : List ExnClass :=
  [.invalidSequenceNumber, .invalidAckNumber, .messageIsNotAck, .messageIsNotFin,
    .messageIsNotFinAck, .messageIsNotSyn, .messageNotFinNorAck, .unexpectedFinMessage,
    .messageNotFinNorAck, .connectionLost, .connectionRefused]

/-- No list at all and the empty list let nothing through. -/
def configureWantedExceptionsToCatch (exceptionsToLetThrough : List ExnClass) : List ExnClass :=
  wantToCatchAll.filter (· ∉ exceptionsToLetThrough)

/-- The local variables of a wrapped receive while it is blocked: those of the wrapper, then
those of `recvfrom_with_retransmission`. -/
structure ReListen where
  listeningAttempts : Nat
  accumulatedTime : Time
  timeOfAccumulation : Time
  transmissionAttempt : Nat
  retransmissionNecessaryDeadline : Time
  connectionLostDeadline : Time
deriving DecidableEq, Repr

/-- What one event makes of a receive on a `SocketSaw`. -/
inductive Received where
  | blocked (r : ReListen) (retransmit : Bool)
  | packet (raw : Bytes) (source : Option Address)
  | failed (e : Exn)

/-- What one event makes of a wrapped receive; the flag tells a retransmission. -/
inductive Listened (α : Type) where
  | listening (r : ReListen) (retransmit : Bool)
  | returned (a : α)
  | raised (e : Exn) (retransmit : Bool)

namespace Listened

variable {α : Type}

def void : Listened α → Listened Unit
  | .listening r retransmit => .listening r retransmit
  | .returned _ => .returned ()
  | .raised e retransmit => .raised e retransmit

/-- The exception that gets out. -/
def exn : Listened α → Option Exn
  | .raised e _ => some e
  | _ => none

/-- What the operation returns. -/
def result : Listened α → Option α
  | .returned a => some a
  | _ => none

/-- One of the limits to the retries is reached. -/
def gaveUp : Listened α → Bool
  | .raised e retransmit => retransmit || e.cls == .connectionLost
  | _ => false

theorem void_eq_listening {l : Listened α} {r : ReListen} {retransmit : Bool}
    (h : l.void = .listening r retransmit) : l = .listening r retransmit := by
  cases l <;> cases h
  rfl

@[simp] theorem exn_void (l : Listened α) : l.void.exn = l.exn := by cases l <;> rfl

@[simp] theorem gaveUp_void (l : Listened α) : l.void.gaveUp = l.gaveUp := by cases l <;> rfl

end Listened

namespace ReListen

/-- `recvfrom_with_retransmission` is entered. -/
def receive (r : ReListen) (now : Time) : ReListen :=
  { r with
    transmissionAttempt := 1
    retransmissionNecessaryDeadline := now + socketRetransmissionTimeout
    connectionLostDeadline := now + socketConnectionLostTimeout }

/-- The wrapper is entered. -/
def start (now : Time) : ReListen :=
  receive ⟨0, 0, now, 1, now, now⟩ now

/-- `SocketSaw.recvfrom(buffer_size, should_retransmit=True)`.  The socket cuts a longer
datagram to the buffer.  A timer that fires early only makes the inner loop go round. -/
def recvfrom (s : SocketSaw) (r : ReListen) (bufferSize : Nat) : Event → Received
  | .datagram raw source _ => .packet (raw.take bufferSize) source
  | .timeout now =>
      if s.lastRawPacket = none then .failed ExnClass.connectionLost.exn
      else if now < r.retransmissionNecessaryDeadline then .blocked r false
      else if r.transmissionAttempt + 1 ≤ maxRetransmissionAttempts ∧
          now ≤ r.connectionLostDeadline then
        .blocked
          { r with
            transmissionAttempt := r.transmissionAttempt + 1
            retransmissionNecessaryDeadline := now + socketRetransmissionTimeout }
          true
      else .failed ExnClass.connectionLost.exn
  | .osError _ =>
      if s.lastRawPacket = none then .failed ExnClass.connectionLost.exn
      else .failed ExnClass.socketShutdown.exn
  | .proceed _ => .blocked r false

variable {α : Type}

/-- The `except want_to_catch` branch and the test of the loop after it. -/
def caught (r : ReListen) (e : Exn) (now : Time) : Listened α :=
  let r' := { r with
    listeningAttempts := r.listeningAttempts + 1
    accumulatedTime := r.accumulatedTime + (now - r.timeOfAccumulation)
    timeOfAccumulation := now }
  if maxRetransmissionAttempts ≤ r'.listeningAttempts ∨
      socketConnectionLostTimeout ≤ r'.accumulatedTime then .raised e true
  else .listening (r'.receive now) true

end ReListen

/-- A receive operation of a protocol class: `check` is what it does with the datagram
that `socket_receive_from(buffer_size)` hands it, `onFailure` what its own `except` clause
makes of a failed receive. -/
structure Operation (α : Type) where
  bufferSize : Nat
  check : Bytes → Option Address → Except Exn α
  exceptionsToLetThrough : List ExnClass
  onFailure : Exn → Exn

/-- The keyword argument of a call. -/
def Operation.letThrough {α : Type} (op : Operation α) (es : List ExnClass) : Operation α :=
  { op with exceptionsToLetThrough := es }

/-- One event in an operation wrapped by `re_listen_if_failed`. -/
def reListenIfFailed {α : Type} (op : Operation α) (s : SocketSaw) (r : ReListen) (ev : Event) :
    Listened α :=
  let handle (e : Exn) : Listened α :=
    if e.cls ∈ configureWantedExceptionsToCatch op.exceptionsToLetThrough then r.caught e ev.now
    else .raised e false
  match r.recvfrom s op.bufferSize ev with
  | .blocked r retransmit => .listening r retransmit
  | .packet raw source =>
      match op.check raw source with
      | .ok a => .returned a
      | .error e => handle e
  | .failed e => handle (op.onFailure e)

/-- Whether the wrapper gives up on a caught exception: it reached one of its two limits. -/
def ReListen.Exhausted (r : ReListen) (now : Time) : Prop :=
  maxRetransmissionAttempts ≤ r.listeningAttempts + 1 ∨
    socketConnectionLostTimeout ≤ r.accumulatedTime + (now - r.timeOfAccumulation)

instance (r : ReListen) (now : Time) : Decidable (r.Exhausted now) :=
  inferInstanceAs (Decidable (_ ∨ _))

theorem ReListen.caught_of_exhausted {α : Type} {r : ReListen} {e : Exn} {now : Time}
    (h : r.Exhausted now) : (r.caught e now : Listened α) = .raised e true := if_pos h

theorem ReListen.caught_of_not_exhausted {α : Type} {r : ReListen} {e : Exn} {now : Time}
    (h : ¬r.Exhausted now) : ∃ r', (r.caught e now : Listened α) = .listening r' true :=
  ⟨_, if_neg h⟩

/-- The receive or the check of the operation fails with `e`. -/
def Operation.Fails {α : Type} (op : Operation α) (s : SocketSaw) (r : ReListen) (ev : Event)
    (e : Exn) : Prop :=
  (∃ raw source, r.recvfrom s op.bufferSize ev = .packet raw source ∧ op.check raw source = .error e) ∨
    ∃ e', r.recvfrom s op.bufferSize ev = .failed e' ∧ e = op.onFailure e'

/-- Everything one event can make of a wrapped receive. -/
inductive ReListens {α : Type} (op : Operation α) (s : SocketSaw) (r : ReListen) (ev : Event) :
    Listened α → Prop
  | blocked {r' : ReListen} {retransmit : Bool}
      (h : r.recvfrom s op.bufferSize ev = .blocked r' retransmit) :
      ReListens op s r ev (.listening r' retransmit)
  | returned {raw : Bytes} {source : Option Address} {a : α}
      (h : r.recvfrom s op.bufferSize ev = .packet raw source) (hc : op.check raw source = .ok a) :
      ReListens op s r ev (.returned a)
  | letThrough {e : Exn} (h : op.Fails s r ev e)
      (he : e.cls ∉ configureWantedExceptionsToCatch op.exceptionsToLetThrough) :
      ReListens op s r ev (.raised e false)
  | exhausted {e : Exn} (h : op.Fails s r ev e)
      (he : e.cls ∈ configureWantedExceptionsToCatch op.exceptionsToLetThrough)
      (hx : r.Exhausted ev.now) : ReListens op s r ev (.raised e true)
  | again {e : Exn} {r' : ReListen} (h : op.Fails s r ev e)
      (he : e.cls ∈ configureWantedExceptionsToCatch op.exceptionsToLetThrough)
      (hx : ¬r.Exhausted ev.now) : ReListens op s r ev (.listening r' true)

theorem reListens {α : Type} (op : Operation α) (s : SocketSaw) (r : ReListen) (ev : Event) :
    ReListens op s r ev (reListenIfFailed op s r ev) := by
  have handled : ∀ e, op.Fails s r ev e → ReListens op s r ev
      (if e.cls ∈ configureWantedExceptionsToCatch op.exceptionsToLetThrough then r.caught e ev.now
        else .raised e false) := by
    intro e h
    split
    · rename_i he
      by_cases hx : r.Exhausted ev.now
      · rw [ReListen.caught_of_exhausted hx]
        exact .exhausted h he hx
      · obtain ⟨r', hr'⟩ := ReListen.caught_of_not_exhausted (α := α) (e := e) hx
        rw [hr']
        exact .again h he hx
    · rename_i he
      exact .letThrough h he
  unfold reListenIfFailed
  dsimp only
  cases hr : r.recvfrom s op.bufferSize ev with
  | blocked r' retransmit => exact .blocked hr
  | packet raw source =>
      dsimp only
      cases hc : op.check raw source with
      | ok a => exact .returned hr hc
      | error e => exact handled e (.inl ⟨raw, source, hr, hc⟩)
  | failed e => exact handled _ (.inr ⟨e, hr, rfl⟩)

/-- What the operation returns, its check made of a packet received. -/
theorem result_datagram {α : Type} {op : Operation α} {s : SocketSaw} {r : ReListen} {raw : Bytes}
    {source : Option Address} {now : Time} {a : α}
    (h : a ∈ (reListenIfFailed op s r (.datagram raw source now)).result) :
    op.check (raw.take op.bufferSize) source = .ok a := by
  rw [reListenIfFailed, ReListen.recvfrom] at h
  cases hc : op.check (raw.take op.bufferSize) source with
  | ok b => simpa [hc, Listened.result] using h
  | error e =>
      simp only [hc, ReListen.caught] at h
      split at h
      · split at h <;> cases h
      · cases h

theorem returned_check {α : Type} {op : Operation α} {s : SocketSaw} {r : ReListen} {ev : Event}
    {a : α} (h : reListenIfFailed op s r ev = .returned a) :
    ∃ raw source, r.recvfrom s op.bufferSize ev = .packet raw source ∧
      op.check raw source = .ok a := by
  have hspec := reListens op s r ev
  rw [h] at hspec
  cases hspec with
  | returned hr hc => exact ⟨_, _, hr, hc⟩

theorem fails_of_raised {α : Type} {op : Operation α} {s : SocketSaw} {r : ReListen} {ev : Event}
    {e : Exn} {b : Bool} (h : reListenIfFailed op s r ev = .raised e b) : op.Fails s r ev e := by
  have hspec := reListens op s r ev
  rw [h] at hspec
  cases hspec with
  | letThrough h' => exact h'
  | exhausted h' => exact h'

/-- A packet received is the datagram that came, cut to the buffer. -/
theorem ReListen.recvfrom_packet {s : SocketSaw} {r : ReListen} {n : Nat} {ev : Event}
    {raw : Bytes} {source : Option Address} (h : r.recvfrom s n ev = .packet raw source) :
    ∃ raw' now, ev = .datagram raw' source now ∧ raw = raw'.take n := by
  unfold ReListen.recvfrom at h
  split at h
  · obtain ⟨rfl, rfl⟩ := Received.packet.inj h
    exact ⟨_, _, rfl, rfl⟩
  · split at h
    · cases h
    · split at h
      · cases h
      · split at h <;> cases h
  · split at h <;> cases h
  · cases h

theorem ReListen.recvfrom_failed {s : SocketSaw} {r : ReListen} {n : Nat} {ev : Event} {e : Exn}
    (h : r.recvfrom s n ev = .failed e) :
    e = ExnClass.connectionLost.exn ∨ e = ExnClass.socketShutdown.exn := by
  unfold ReListen.recvfrom at h
  split at h
  · cases h
  · split at h
    · exact .inl (Received.failed.inj h).symm
    · split at h
      · cases h
      · split at h
        · cases h
        · exact .inl (Received.failed.inj h).symm
  · split at h
    · exact .inl (Received.failed.inj h).symm
    · exact .inr (Received.failed.inj h).symm
  · cases h

/-- Whatever the socket and the event, an operation raises nothing else. -/
def Operation.Raises {α : Type} (op : Operation α) (e : Exn) : Prop :=
  (∃ raw source, op.check raw source = .error e) ∨
    e = op.onFailure ExnClass.connectionLost.exn ∨ e = op.onFailure ExnClass.socketShutdown.exn

theorem Operation.Fails.raises {α : Type} {op : Operation α} {s : SocketSaw} {r : ReListen}
    {ev : Event} {e : Exn} (h : op.Fails s r ev e) : op.Raises e := by
  rcases h with ⟨raw, source, -, hc⟩ | ⟨e', hr, rfl⟩
  · exact .inl ⟨raw, source, hc⟩
  · rcases ReListen.recvfrom_failed hr with rfl | rfl
    · exact .inr (.inl rfl)
    · exact .inr (.inr rfl)

/-! ## What a receive makes of a datagram, and of nothing -/

section Outcome

variable {α : Type} {op : Operation α} {s : SocketSaw} {r : ReListen} {raw : Bytes}
  {source : Option Address} {now : Time} {e : Exn}

theorem reListen_of_error (hc : op.check (raw.take op.bufferSize) source = .error e) :
    reListenIfFailed op s r (.datagram raw source now) =
      if e.cls ∈ configureWantedExceptionsToCatch op.exceptionsToLetThrough then r.caught e now
      else .raised e false := by
  simp only [reListenIfFailed, ReListen.recvfrom, hc, Event.now]

theorem reListen_accepts {a : α} (hc : op.check (raw.take op.bufferSize) source = .ok a) :
    reListenIfFailed op s r (.datagram raw source now) = .returned a := by
  simp only [reListenIfFailed, ReListen.recvfrom, hc]

theorem reListen_letsThrough (hc : op.check (raw.take op.bufferSize) source = .error e)
    (he : e.cls ∉ configureWantedExceptionsToCatch op.exceptionsToLetThrough) :
    reListenIfFailed op s r (.datagram raw source now) = .raised e false := by
  rw [reListen_of_error hc, if_neg he]

/-- A datagram that is not accepted makes the receive start over, and retransmit. -/
theorem reListen_rejects (hc : op.check (raw.take op.bufferSize) source = .error e)
    (he : e.cls ∈ configureWantedExceptionsToCatch op.exceptionsToLetThrough)
    (hg : (reListenIfFailed op s r (.datagram raw source now)).gaveUp = false) :
    ∃ r', reListenIfFailed op s r (.datagram raw source now) = .listening r' true := by
  rw [reListen_of_error hc, if_pos he] at hg ⊢
  by_cases hx : r.Exhausted now
  · rw [ReListen.caught_of_exhausted hx] at hg
    cases hg
  · exact ReListen.caught_of_not_exhausted hx

/-- Nothing but time passes. -/
theorem reListen_quiet (hop : op.onFailure = id) {ev : Event}
    (hev : ∃ now, ev = .timeout now ∨ ev = .proceed now)
    (hg : (reListenIfFailed op s r ev).gaveUp = false) :
    ∃ r' retransmit, reListenIfFailed op s r ev = .listening r' retransmit := by
  have hspec := reListens op s r ev
  have nothing : ∀ raw source, r.recvfrom s op.bufferSize ev ≠ .packet raw source := by
    rintro raw source h
    obtain ⟨_, _, rfl, -⟩ := ReListen.recvfrom_packet h
    obtain ⟨now, h | h⟩ := hev <;> cases h
  have lost : ∀ e, op.Fails s r ev e → e = ExnClass.connectionLost.exn := by
    rintro e (⟨raw, source, h, -⟩ | ⟨e', h, rfl⟩)
    · exact absurd h (nothing raw source)
    · obtain ⟨now, rfl | rfl⟩ := hev
      · rcases ReListen.recvfrom_failed h with rfl | rfl
        · rw [hop]
          rfl
        · unfold ReListen.recvfrom at h
          dsimp only at h
          split at h
          · cases h
          · split at h
            · cases h
            · split at h <;> cases h
      · cases h
  cases h : reListenIfFailed op s r ev with
  | listening r' b => exact ⟨r', b, rfl⟩
  | returned a =>
      obtain ⟨raw, source, hr, -⟩ := returned_check h
      exact absurd hr (nothing raw source)
  | raised e b =>
      rw [h] at hspec hg
      cases hspec with
      | letThrough he =>
          obtain rfl := lost e he
          cases hg
      | exhausted => cases hg

end Outcome

end Rdt
