import Rdt.Common.Waiting
import Rdt.Saw.Idle
import Rdt.Server.Collecting
import Rdt.Server.Isolation

/-!
# A client that falls silent

The thread of its connection ends, and the server collects the connection.
-/

namespace Rdt.Server.ClientConnection

open PacketParser ServerProtocol

variable {cfg : Config} {disk : Disk} {c c' : ClientConnection} {ev : Event} {now t : Time}

/-! ## The times of a reachable connection -/

/-- A stretch of `run` leaves a receive with the times it has at `t`. -/
def Timed (t : Time) : Exec → Prop
  | .ok c' | .error (_, c') => c'.listening.Timely t

theorem timed_block (c : ClientConnection) (p : Point) (now : Time) : Timed now (.ok (c.block p now)) :=
  ReListen.timely_start now

theorem Timed.send {isAck isFin : Bool} {data : Bytes} {k : ClientConnection → Exec}
    (h : c.listening.Timely t) (hk : ∀ raw, Timed t (k (handed cfg c raw))) :
    Timed t ((ClientConnection.send cfg c isAck isFin data).bind k) := by
  rw [ClientConnection.send_eq_encode]
  cases Protocol.encode cfg.protocolVersion c.sequenceNumber c.ackNumber isAck false isFin
      cfg.address.port data with
  | ok raw => exact hk raw
  | error e => exact h

theorem Timed.swallow {x : Exec} (h : Timed t x) : (swallow x).listening.Timely t := by
  cases x <;> exact h

theorem Timed.handle {x : Exec} (h : Timed t x) : (handle cfg t x).listening.Timely t := by
  cases x with
  | ok c' => exact h
  | error e =>
      simp only [ClientConnection.handle]
      split
      · exact Timed.swallow (Timed.send h fun _ ↦ timed_block _ _ t)
      · split
        · exact h
        · unfold fileCleanupAfterError
          split <;> exact h

theorem listening_appendToFile (cfg : Config) (c : ClientConnection) (packet : Packet) :
    (appendToFile cfg c packet).listening = c.listening := by
  unfold appendToFile
  split <;> rfl

theorem listening_appendTaken (cfg : Config) (c : ClientConnection) (taken : Option Packet) :
    (appendTaken cfg c taken).listening = c.listening := by
  cases taken with
  | none => rfl
  | some packet => exact listening_appendToFile cfg c packet

theorem listening_closeWritten (c : ClientConnection) : c.closeWritten.listening = c.listening := by
  unfold closeWritten
  split <;> rfl

theorem Timed.finallyDone {x : Exec} (h : Timed t x) : Timed t (finallyDone x) := by
  cases x <;> exact h

/-! ### Uploads -/

theorem onFilenameForUpload_timed (h : c.listening.Timely t) (r : SequenceNumber × String) :
    Timed t (onFilenameForUpload cfg t c r) := by
  unfold onFilenameForUpload
  dsimp only
  split
  · exact Timed.send h fun _ ↦ timed_block _ _ t
  · split <;> exact h

theorem onFilesize_timed (h : c.listening.Timely t) (filename : String) (r : SequenceNumber × Nat) :
    Timed t (onFilesize cfg t filename c r) := by
  unfold onFilesize
  dsimp only
  split
  · refine Timed.send h fun _ ↦ ?_
    simp only [startReception]
    split <;> exact timed_block _ _ t
  · exact h

theorem closingHandshakeForUpload_timed (h : c.listening.Timely t) :
    Timed t (closingHandshakeForUpload cfg t c) :=
  Timed.finallyDone (Timed.send h fun _ ↦ Timed.send h fun _ ↦ timed_block _ _ t)

theorem onFileChunk_timed (h : c.listening.Timely t) (r : SequenceNumber × Packet) :
    Timed t (onFileChunk cfg t c r) := by
  unfold onFileChunk
  dsimp only
  cases r.2.isFin with
  | true =>
      refine closingHandshakeForUpload_timed ?_
      rw [listening_closeWritten, listening_appendToFile]
      exact h
  | false => exact Timed.send h fun _ ↦ timed_block _ _ t

theorem Timed.sendReplies {receiver : GoBackNReceiver} {k : ClientConnection → Exec}
    (hk : ∀ c', c'.listening.Timely t → Timed t (k c')) (replies : List GoBackNReceiver.Reply)
    (h : c.listening.Timely t) : Timed t ((replies.foldlM (sendReply cfg receiver) c : Exec).bind k) := by
  induction replies generalizing c with
  | nil => exact hk c h
  | cons reply replies ih =>
      rw [List.foldlM_cons]
      cases reply with
      | resendLast => exact ih h
      | sendAck sequenceNumber ackNumber =>
          simp only [sendReply]
          cases Protocol.encode .goBackN sequenceNumber (some ackNumber) true false false
              cfg.address.port [] with
          | ok raw => exact ih h
          | error e => exact h

theorem onGbnPacket_timed (h : c.listening.Timely t) (receiver : GoBackNReceiver) (packet : Packet) :
    Timed t (onGbnPacket cfg t receiver c packet) := by
  refine Timed.sendReplies (fun c' h' ↦ ?_) _ h
  split
  · refine closingHandshakeForUpload_timed ?_
    rw [listening_closeWritten, listening_appendTaken]
    exact h'
  · show (appendTaken cfg _ _).listening.Timely t
    rw [listening_appendTaken]
    exact h'

theorem listenReceiver_timed (h : c.listening.Timely ev.now) (receiver : GoBackNReceiver) :
    Timed ev.now (listenReceiver cfg receiver c ev) := by
  unfold listenReceiver
  split
  · exact h
  · split <;> exact h
  · split
    · exact h
    · exact onGbnPacket_timed h receiver _

theorem onClosingUpload_timed (h : c.listening.Timely t) (r : Except Exn Unit) :
    Timed t (onClosingUpload cfg c r) := by
  unfold onClosingUpload
  split
  · exact h
  · dsimp only
    split <;> exact h

/-! ### Downloads -/

theorem completeDownload_timed (h : c.listening.Timely t) : Timed t (completeDownload cfg c) :=
  Timed.send h fun _ ↦ h

theorem closingHandshakeForDownload_timed (h : c.listening.Timely t) (alreadyReceivedFinBack : Bool) :
    Timed t (closingHandshakeForDownload cfg t alreadyReceivedFinBack c) := by
  cases alreadyReceivedFinBack with
  | true => exact completeDownload_timed h
  | false => exact timed_block c _ t

theorem transmitFile_timed (h : c.listening.Timely t) (total : Nat) (remaining : List Bytes) (n : Nat)
    (isFirst : Bool) : Timed t (transmitFile cfg t total remaining n isFirst c) := by
  induction remaining generalizing c n isFirst with
  | nil => exact closingHandshakeForDownload_timed h false
  | cons chunk remaining ih =>
      have hstep : (if isFirst = true then c else c.stepSequence).listening.Timely t := by
        cases isFirst <;> exact h
      refine Timed.send hstep fun raw ↦ ?_
      have hsent : (handed cfg (if isFirst = true then c else c.stepSequence) raw).listening.Timely t :=
        hstep
      split
      · exact ih hsent (n + 1) false
      · exact timed_block _ _ t

theorem onFilenameForDownload_timed (h : c.listening.Timely t) (r : SequenceNumber × String) :
    Timed t (onFilenameForDownload cfg t c r) := by
  unfold onFilenameForDownload
  dsimp only
  split
  · split
    · refine transmitFile_timed ?_ _ _ 1 true
      exact h
    · refine Timed.send h fun raw ↦ ?_
      split
      · exact timed_block _ _ t
      · exact timed_block _ _ t
  · split
    · exact Timed.send h fun _ ↦ h
    · exact h

theorem onSender_timed (h : c.listening.Timely t) (r : GoBackNSender.Result) :
    Timed t (onSender cfg t c r) := by
  cases r with
  | running s sent | raised e => exact h
  | returned s =>
      refine closingHandshakeForDownload_timed ?_ _
      exact h

theorem onFirstPacketAck_timed (h : c.listening.Timely t) : Timed t (onFirstPacketAck cfg t c) := by
  unfold onFirstPacketAck
  split
  · refine onSender_timed ?_ _
    exact h
  · exact h

theorem listenSender_timed (h : c.listening.Timely ev.now) (sender : GoBackNSender) :
    Timed ev.now (listenSender cfg sender c ev) := by
  unfold listenSender
  split
  · split
    · exact h
    · exact onSender_timed h _
  · split
    · exact onSender_timed h _
    · exact h

/-! ### One event, and a run -/

theorem listen_timed {α : Type} {op : Operation α} {k : ClientConnection → Except Exn α → Exec}
    (h : c.listening.Timely now) (hle : now ≤ ev.now)
    (hk : ∀ c' r, c'.listening.Timely ev.now → Timed ev.now (k c' r)) :
    Timed ev.now (listen c op ev k) := by
  unfold listen
  cases hl : reListenIfFailed op c.socket c.listening ev with
  | listening r b => exact (h.goesOn hle hl).timely
  | returned a => exact hk c _ (h.mono hle)
  | raised e b => exact hk (c.retransmit b) _ (h.mono hle)

theorem onSuccess_timed {α : Type} {k : ClientConnection → α → Exec}
    (hk : ∀ c' a, c'.listening.Timely t → Timed t (k c' a)) (c' : ClientConnection) (r : Except Exn α)
    (h : c'.listening.Timely t) : Timed t (onSuccess k c' r) := by
  cases r with
  | ok a => exact hk c' a h
  | error e => exact h

theorem onEvent_timed (h : c.listening.Timely now) (hle : now ≤ ev.now) :
    Timed ev.now (onEvent cfg c ev) := by
  have h' := h.mono hle
  unfold onEvent
  cases c.point with
  | receiveFilenameForUpload =>
      exact listen_timed h hle (onSuccess_timed fun _ r h ↦ onFilenameForUpload_timed h r)
  | receiveFilesize filename =>
      exact listen_timed h hle (onSuccess_timed fun _ r h ↦ onFilesize_timed h filename r)
  | receiveFileChunk => exact listen_timed h hle (onSuccess_timed fun _ r h ↦ onFileChunk_timed h r)
  | receiveFileGbn receiver => exact listenReceiver_timed h' receiver
  | closingHandshakeForUpload => exact listen_timed h hle fun _ r h ↦ onClosingUpload_timed h r
  | initiateCloseConnection =>
      exact listen_timed h hle (onSuccess_timed fun _ _ h ↦
        Timed.send h fun _ ↦ h)
  | receiveFilenameForDownload =>
      exact listen_timed h hle (onSuccess_timed fun _ r h ↦ onFilenameForDownload_timed h r)
  | waitForChunkAck remaining chunkNumber totalChunks =>
      exact listen_timed h hle (onSuccess_timed fun _ _ h ↦
        transmitFile_timed h totalChunks remaining chunkNumber false)
  | waitForFirstPacketAck =>
      exact listen_timed h hle (onSuccess_timed fun _ _ h ↦ onFirstPacketAck_timed h)
  | sendFileGbn sender => exact listenSender_timed h' sender
  | closingHandshakeForDownload =>
      exact listen_timed h hle (onSuccess_timed fun _ _ h ↦ completeDownload_timed h)
  | ended => exact h'

theorem step_timely (h : c.listening.Timely now) (hle : now ≤ ev.now) :
    (step cfg c ev).listening.Timely ev.now := by
  have htimed : Timed ev.now (onEvent cfg { c with outbox := [] } ev) := onEvent_timed h hle
  unfold step
  dsimp only
  split
  · exact htimed.swallow
  · exact htimed.handle

theorem foldl_timely {es : List Event} (h : c.listening.Timely now) (hclock : Clocked now es) :
    (es.foldl (step cfg) c).listening.Timely (lastTime now es) := by
  induction es generalizing c now with
  | nil => exact h
  | cons ev es ih => exact ih (step_timely h hclock.1) hclock.2

theorem processOperationIntention_timed (h : c.listening.Timely t) :
    Timed t (processOperationIntention cfg t c) := by
  unfold processOperationIntention
  split
  · exact h
  · split
    · exact Timed.send h fun _ ↦ timed_block _ _ t
    · exact Timed.send h fun _ ↦ timed_block _ _ t

theorem start_timely (cfg : Config) (disk : Disk) (now : Time) :
    (start cfg disk now).listening.Timely now := by
  have hinit : (init cfg disk now).listening.Timely now := ReListen.timely_start now
  unfold start
  dsimp only
  split
  · exact (processOperationIntention_timed hinit).handle
  · split
    · exact hinit
    · refine Timed.handle (processOperationIntention_timed ?_)
      exact hinit

theorem run_timely {es : List Event} (hclock : Clocked now es) :
    (run cfg disk now es).listening.Timely (lastTime now es) :=
  foldl_timely (start_timely cfg disk now) hclock

/-! ## Silence -/

/-- While nothing arrives, a connection outside the window goes on waiting or loses its client. -/
theorem listened_silent (hu : c.Unwindowed) (hev : ev.Quiet) :
    (∃ r b, c.listened cfg ev = .listening r b) ∨
      ∃ b, c.listened cfg ev = .raised ExnClass.connectionLost.exn b := by
  have void : ∀ {α : Type} {op : Operation α}, op.onFailure = id →
      (∃ r b, (reListenIfFailed op c.socket c.listening ev).void = .listening r b) ∨
        ∃ b, (reListenIfFailed op c.socket c.listening ev).void =
          .raised ExnClass.connectionLost.exn b := by
    intro α op hop
    rcases reListen_silent (s := c.socket) (r := c.listening) hop hev with ⟨r, b, h⟩ | ⟨b, h⟩
    · exact .inl ⟨r, b, by rw [h]; rfl⟩
    · exact .inr ⟨b, by rw [h]; rfl⟩
  unfold Unwindowed at hu
  unfold listened
  cases hp : c.point with
  | receiveFilenameForUpload | receiveFilesize | receiveFileChunk | receiveFilenameForDownload =>
      exact void rfl
  | closingHandshakeForUpload | initiateCloseConnection | waitForChunkAck
  | waitForFirstPacketAck | closingHandshakeForDownload => exact reListen_silent rfl hev
  | receiveFileGbn | sendFileGbn =>
      rw [hp] at hu
      exact hu.elim
  | ended => exact .inl ⟨c.listening, false, rfl⟩

/-- A connection that loses its client ends. -/
theorem ended_of_lost (hu : c.Unwindowed) {b : Bool}
    (h : c.listened cfg ev = .raised ExnClass.connectionLost.exn b) : (step cfg c ev).point = .ended := by
  have lost : ∀ {α : Type} {op : Operation α} {k : ClientConnection → α → Exec},
      step cfg c ev = handle cfg ev.now (listen { c with outbox := [] } op ev (onSuccess k)) →
      reListenIfFailed op c.socket c.listening ev = .raised ExnClass.connectionLost.exn b →
      (step cfg c ev).point = .ended := by
    intro α op k hstep h
    obtain ⟨state, disk, heq⟩ := handle_error cfg ev.now
      ({ c with outbox := [] }.retransmit b) (e := ExnClass.connectionLost.exn) (by decide)
    rw [hstep]
    simp only [listen, h, onSuccess]
    rw [heq]
  have void : ∀ {α : Type} {l : Listened α} {e : Exn}, l.void = .raised e b → l = .raised e b := by
    intro α l e hl
    cases l <;> cases hl
    rfl
  unfold listened at h
  unfold Unwindowed at hu
  cases hp : c.point with
  | receiveFilenameForUpload | receiveFilesize | receiveFileChunk | receiveFilenameForDownload =>
      rw [hp] at h
      exact lost (by simp only [step, hp, onEvent]; rfl) (void h)
  | waitForChunkAck | waitForFirstPacketAck | closingHandshakeForDownload =>
      rw [hp] at h
      exact lost (by simp only [step, hp, onEvent]; rfl) h
  | closingHandshakeForUpload =>
      rw [hp] at h
      simp only [step, hp, onEvent, listen, h, onClosingUpload]
      split <;> rfl
  | initiateCloseConnection =>
      rw [hp] at h
      simp only [step, hp, onEvent, listen, h, onSuccess]
      rfl
  | receiveFileGbn | sendFileGbn =>
      rw [hp] at hu
      exact hu.elim
  | ended =>
      rw [hp] at h
      cases h

theorem goesOn_of_listened (hu : c.Unwindowed) (hended : c.point ≠ .ended) (ht : c.listening.Timely now)
    (hle : now ≤ ev.now) {r : ReListen} {b : Bool} (h : c.listened cfg ev = .listening r b) :
    c.listening.GoesOn ev r := by
  unfold listened at h
  unfold Unwindowed at hu
  cases hp : c.point with
  | receiveFilenameForUpload | receiveFilesize | receiveFileChunk | receiveFilenameForDownload =>
      rw [hp] at h
      exact ht.goesOn hle (Listened.void_eq_listening h)
  | closingHandshakeForUpload | initiateCloseConnection | waitForChunkAck
  | waitForFirstPacketAck | closingHandshakeForDownload =>
      rw [hp] at h
      exact ht.goesOn hle h
  | receiveFileGbn | sendFileGbn =>
      rw [hp] at hu
      exact hu.elim
  | ended => exact absurd hp hended

/-- The connection is in a wrapped receive it has entered by the time `since`. -/
structure Waits (since now : Time) (c : ClientConnection) : Prop where
  unwindowed : c.Unwindowed
  timely : c.listening.Timely now
  entered : c.listening.entered ≤ since

variable {since : Time} {es : List Event}

theorem Waits.step (h : Waits since now c) (hended : c.point ≠ .ended) (hev : ev.Quiet)
    (hle : now ≤ ev.now) : (step cfg c ev).point = .ended ∨
      Waits since ev.now (step cfg c ev) ∧ (ev.Wakes → ev.now < since + waitingLimit) := by
  rcases listened_silent h.unwindowed hev with ⟨r, b, hl⟩ | ⟨b, hl⟩
  · have hgoes := goesOn_of_listened h.unwindowed hended h.timely hle hl
    rw [step_of_listening h.unwindowed hl]
    refine .inr ⟨⟨h.unwindowed, hgoes.timely, hgoes.entered.trans_le h.entered⟩, fun hw ↦ ?_⟩
    exact (hgoes.young hw).trans_le (Nat.add_le_add_right h.entered _)
  · exact .inl (ended_of_lost h.unwindowed hl)

/-- In `GoBackNReceiver.receive_file` the first timeout of the socket is the end. -/
theorem receiver_timeout {receiver : GoBackNReceiver} (h : c.point = .receiveFileGbn receiver) (t : Time) :
    (ClientConnection.step cfg c (.timeout t)).point = .ended := by
  rw [step_eq_handle (by rw [h]; simp)]
  obtain ⟨state, disk, heq⟩ := handle_error cfg t { c with outbox := [] }
    (e := ExnClass.connectionLost.exn) (by decide)
  have hevent : onEvent cfg { c with outbox := [] } (.timeout t) =
      .error (ExnClass.connectionLost.exn, { c with outbox := [] }) := by
    simp only [onEvent, h, listenReceiver]
    rfl
  rw [hevent]
  exact congrArg ClientConnection.point heq

theorem receiver_proceed {receiver : GoBackNReceiver} (h : c.point = .receiveFileGbn receiver) (t : Time) :
    (ClientConnection.step cfg c (.proceed t)).point = .receiveFileGbn receiver := by
  rw [step_eq_handle (by rw [h]; simp)]
  simp only [onEvent, h, listenReceiver]
  rfl

/-- A connection that hears nothing since `since`, outside the window of a sender -/
inductive Fades (since now : Time) (c : ClientConnection) : Prop
  | ended (h : c.point = .ended)
  | receives {receiver : GoBackNReceiver} (h : c.point = .receiveFileGbn receiver)
  | waits (h : Waits since now c)

theorem Fades.begin (ht : c.listening.Timely now) (hp : ∀ s, c.point ≠ .sendFileGbn s) :
    Fades now now c := by
  cases hpoint : c.point with
  | sendFileGbn s => exact absurd hpoint (hp s)
  | receiveFileGbn receiver => exact .receives hpoint
  | _ => exact .waits ⟨by rw [Unwindowed, hpoint]; trivial, ht, ht.entered_le⟩

theorem Fades.mono (h : Fades since now c) (hle : now ≤ t) : Fades since t c := by
  cases h with
  | ended h => exact .ended h
  | receives h => exact .receives h
  | waits h => exact .waits ⟨h.unwindowed, h.timely.mono hle, h.entered⟩

theorem Fades.not_sendFileGbn (h : Fades since now c) (s : GoBackNSender) : c.point ≠ .sendFileGbn s := by
  intro hp
  cases h with
  | ended h => cases h.symm.trans hp
  | receives h => cases h.symm.trans hp
  | waits h =>
      have hu := h.unwindowed
      rw [Unwindowed, hp] at hu
      exact hu

theorem Fades.step (h : Fades since now c) (hev : ev.Quiet) (hle : now ≤ ev.now) :
    Fades since ev.now (ClientConnection.step cfg c ev) := by
  cases h with
  | ended h =>
      rw [step_ended h]
      exact .ended h
  | receives h =>
      obtain ⟨t, rfl | rfl⟩ := hev
      · exact .ended (receiver_timeout h t)
      · exact .receives (receiver_proceed h t)
  | waits h =>
      by_cases hended : c.point = .ended
      · rw [step_ended hended]
        exact .ended hended
      · rcases h.step hended hev hle with h | ⟨h, -⟩
        · exact .ended h
        · exact .waits h

/-- The first timeout that comes late enough ends the thread. -/
theorem Fades.timeout (h : Fades since now c) (hle : now ≤ t) (hlong : since + waitingLimit ≤ t) :
    (ClientConnection.step cfg c (.timeout t)).point = .ended := by
  cases h with
  | ended h =>
      rw [step_ended h]
      exact h
  | receives h => exact receiver_timeout h t
  | waits h =>
      by_cases hended : c.point = .ended
      · rw [step_ended hended]
        exact hended
      · rcases h.step hended ⟨t, .inl rfl⟩ hle with h | ⟨-, hyoung⟩
        · exact h
        · exact absurd (hyoung fun _ h ↦ (by cases h)) (not_lt.mpr hlong)

/-! ## The connection of a silent client -/

/-- All that silence gets out of a receive is the loss of the connection. -/
theorem exn_of_quiet (hp : ∀ s, c.point ≠ .sendFileGbn s) (hev : ev.Quiet) {e : Exn}
    (he : (c.listened cfg ev).exn = some e) : e = ExnClass.connectionLost.exn := by
  have unwindowed (hu : c.Unwindowed) : e = ExnClass.connectionLost.exn := by
    rcases listened_silent hu hev with ⟨r, b, h⟩ | ⟨b, h⟩ <;> rw [h] at he
    · cases he
    · exact (Option.some.inj he).symm
  cases hpoint : c.point with
  | sendFileGbn s => exact absurd hpoint (hp s)
  | receiveFileGbn receiver =>
      obtain ⟨t, rfl | rfl⟩ := hev
      · simp only [listened, hpoint] at he
        exact (Option.some.inj he).symm
      · simp only [listened, hpoint] at he
        cases he
  | _ => exact unwindowed (by rw [Unwindowed, hpoint]; trivial)

theorem not_lingers_of_quiet (hp : ∀ s, c.point ≠ .sendFileGbn s) (hev : ev.Quiet) :
    ¬Lingers cfg c ev := by
  rintro ⟨-, -, e, he, hrec⟩
  have hesc : (c.listened cfg ev).exn = some e := by
    unfold escaping at he
    split at he
    · exact absurd ‹_› (hp _)
    · exact he
  obtain rfl := exn_of_quiet hp hev hesc
  exact absurd hrec (by decide)

/-- A connection that fades away and will be collected once it has ended. -/
structure Dies (since now : Time) (c : ClientConnection) : Prop where
  fades : Fades since now c
  proceeds : Proceeds c

theorem Dies.step (h : Dies since now c) (hev : ev.Quiet) (hle : now ≤ ev.now) :
    Dies since ev.now (ClientConnection.step cfg c ev) :=
  ⟨h.fades.step hev hle,
    (proceeds_decides h.proceeds ev).1 (not_lingers_of_quiet h.fades.not_sendFileGbn hev)⟩

theorem Dies.foldl (h : Dies since now c) (hclock : Clocked now es) (hes : ∀ ev ∈ es, ev.Quiet) :
    Dies since (lastTime now es) (es.foldl (ClientConnection.step cfg) c) := by
  induction es generalizing c now with
  | nil => exact h
  | cons ev es ih =>
      exact ih (h.step (hes ev List.mem_cons_self) hclock.1) hclock.2
        fun e he ↦ hes e (List.mem_cons_of_mem ev he)

theorem Dies.timeout (h : Dies since now c) (hle : now ≤ t) (hlong : since + waitingLimit ≤ t) :
    (ClientConnection.step cfg c (.timeout t)).point = .ended ∧
      (ClientConnection.step cfg c (.timeout t)).isReadyToDie = true := by
  have hended : (ClientConnection.step cfg c (.timeout t)).point = .ended := h.fades.timeout hle hlong
  exact ⟨hended, (h.step ⟨t, .inl rfl⟩ hle).proceeds.ready hended⟩

theorem Dies.mono (h : Dies since now c) (hle : now ≤ t) : Dies since t c :=
  ⟨h.fades.mono hle, h.proceeds⟩

theorem Dies.withDisk (h : Dies since now c) (d : Disk) : Dies since now (c.withDisk d) := by
  refine ⟨?_, ⟨h.proceeds.stands.refusing, h.proceeds.stands.working⟩, h.proceeds.ready⟩
  cases h.fades with
  | ended h => exact .ended h
  | receives h => exact .receives h
  | waits h => exact .waits ⟨h.unwindowed, h.timely, h.entered⟩

/-- A connection that is still running ends, if it does, in a state it is collected in, or lingers. -/
theorem Proceeds.foldl (h : Proceeds c) (hrunning : (es.foldl (ClientConnection.step cfg) c).point ≠ .ended) :
    Proceeds (es.foldl (ClientConnection.step cfg) c) := by
  induction es generalizing c with
  | nil => exact h
  | cons ev es ih =>
      have hd : Decides cfg c ev (ClientConnection.step cfg c ev) := proceeds_decides h ev
      by_cases hl : Lingers cfg c ev
      · exact absurd (Lost.run (hd.2 hl).2 cfg es).1 hrunning
      · exact ih (hd.1 hl) hrunning

theorem run_proceeds (cfg : Config) (disk : Disk) (now : Time) (es : List Event)
    (hrunning : (run cfg disk now es).point ≠ .ended) : Proceeds (run cfg disk now es) := by
  by_cases h : NamesOperation cfg
  · exact (start_proceeds h disk now).foldl hrunning
  · exact absurd (Lost.run (start_lost h disk now) cfg es).1 hrunning

/-- Whatever a connection has lived through, the silence of its client ends it, unless it sends a
window: with the first timeout that is later by the limit the thread is over, and
`rip_finished_clients` takes the connection out. -/
theorem collected_after_silence (cfg : Config) (disk : Disk) (now t : Time) (es silence : List Event)
    (hclock : Clocked now (es ++ (silence ++ [Event.timeout t]))) (hquiet : ∀ ev ∈ silence, ev.Quiet)
    (hrunning : (run cfg disk now es).point ≠ .ended)
    (hpoint : ∀ s, (run cfg disk now es).point ≠ .sendFileGbn s)
    (hlong : lastTime now es + waitingLimit ≤ t) :
    (run cfg disk now (es ++ (silence ++ [Event.timeout t]))).point = .ended ∧
      Collected ⟨cfg, run cfg disk now (es ++ (silence ++ [Event.timeout t]))⟩ := by
  obtain ⟨hbefore, hafter⟩ := clocked_append.mp hclock
  obtain ⟨hafter, hlast, -⟩ := clocked_append.mp hafter
  have hbegin : Dies (lastTime now es) (lastTime now es) (run cfg disk now es) :=
    ⟨.begin (run_timely hbefore) hpoint, run_proceeds cfg disk now es hrunning⟩
  obtain ⟨hended, hready⟩ := (hbegin.foldl hafter hquiet).timeout hlast hlong
  rw [run, List.foldl_append, List.foldl_append]
  exact ⟨hended, collected_iff.mpr hready⟩

theorem collected_after_silence_announced :
    (run Local.upload Local.emptyDisk 0
      (Local.announcement ++ ([.timeout 15000] ++ [Event.timeout 60015000]))).point = .ended ∧
      Collected ⟨Local.upload, run Local.upload Local.emptyDisk 0
        (Local.announcement ++ ([.timeout 15000] ++ [Event.timeout 60015000]))⟩ :=
  collected_after_silence Local.upload Local.emptyDisk 0 60015000 Local.announcement [.timeout 15000]
    (by decide +kernel) (fun ev h ↦ ⟨15000, .inl (List.mem_singleton.mp h)⟩) (by decide +kernel)
    (fun s h ↦ by
      have hpoint : (run Local.upload Local.emptyDisk 0 Local.announcement).point = .receiveFileChunk := by
        decide +kernel
      cases hpoint.symm.trans h)
    (by decide +kernel)

end Rdt.Server.ClientConnection
