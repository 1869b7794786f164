import Rdt.Link
import Rdt.Saw.Wire

/-!
# Events that change nothing but the retries

As long as no limit is reached, the passing of time and a rejected datagram leave either
end as it was, with at most a retransmission.
-/

namespace Rdt

namespace Server.ClientConnection

variable {cfg : Config} {c : ClientConnection} {ev : Event} {r : ReListen} {b : Bool}
  {raw data : Bytes} {number : Nat} {isAck isFin : Bool} {A : Address} {now : Time}

/-- The connection is not in the window of Go-Back-N. -/
def Unwindowed (c : ClientConnection) : Prop :=
  match c.point with
  | .receiveFileGbn _ | .sendFileGbn _ => False
  | _ => True

/-- The same connection, but for its retries and what it handed over. -/
def stirred (c : ClientConnection) (r : ReListen) (b : Bool) : ClientConnection :=
  { c with listening := r, outbox := if b then c.socket.retransmission else [] }

theorem listen_of_listening {α : Type} {op : Operation α} {k : ClientConnection → Except Exn α → Exec}
    (h : reListenIfFailed op c.socket c.listening ev = .listening r b) :
    listen c op ev k = .ok { c.retransmit b with listening := r } := by
  simp only [listen, h]

theorem onEvent_of_listening (hu : c.Unwindowed) (h : c.listened cfg ev = .listening r b) :
    onEvent cfg c ev = .ok { c.retransmit b with listening := r } := by
  unfold Unwindowed at hu
  unfold listened at h
  unfold onEvent
  cases hp : c.point with
  | receiveFilenameForUpload | receiveFilesize | receiveFileChunk | receiveFilenameForDownload =>
      rw [hp] at h
      exact listen_of_listening (Listened.void_eq_listening h)
  | closingHandshakeForUpload | initiateCloseConnection | waitForChunkAck
    | waitForFirstPacketAck | closingHandshakeForDownload =>
      rw [hp] at h
      exact listen_of_listening h
  | receiveFileGbn | sendFileGbn =>
      rw [hp] at hu
      exact hu.elim
  | ended =>
      rw [hp] at h
      obtain ⟨rfl, rfl⟩ := Listened.listening.inj h
      simp [retransmit]

theorem step_of_listening (hu : c.Unwindowed) (h : c.listened cfg ev = .listening r b) :
    step cfg c ev = stirred c r b := by
  have hev : onEvent cfg { c with outbox := [] } ev = .ok (stirred c r b) := by
    rw [onEvent_of_listening (c := { c with outbox := [] }) hu h]
    cases b <;> rfl
  unfold step
  dsimp only
  rw [hev]
  cases c.point <;> rfl

theorem listened_quiet (hu : c.Unwindowed) (hev : ev.Quiet)
    (hg : (c.listened cfg ev).gaveUp = false) : ∃ r b, c.listened cfg ev = .listening r b := by
  unfold Unwindowed at hu
  unfold listened at hg ⊢
  have void : ∀ {α : Type} {op : Operation α}, op.onFailure = id →
      (reListenIfFailed op c.socket c.listening ev).void.gaveUp = false →
      ∃ r b, (reListenIfFailed op c.socket c.listening ev).void = .listening r b := by
    intro α op hop hg
    rw [Listened.gaveUp_void] at hg
    obtain ⟨r, b, h⟩ := reListen_quiet hop hev hg
    exact ⟨r, b, by rw [h]; rfl⟩
  cases hp : c.point with
  | receiveFilenameForUpload | receiveFilesize | receiveFileChunk | receiveFilenameForDownload =>
      rw [hp] at hg
      exact void rfl hg
  | closingHandshakeForUpload | initiateCloseConnection | waitForChunkAck
  | waitForFirstPacketAck | closingHandshakeForDownload =>
      rw [hp] at hg
      exact reListen_quiet rfl hev hg
  | receiveFileGbn | sendFileGbn =>
      rw [hp] at hu
      exact hu.elim
  | ended => exact ⟨c.listening, false, rfl⟩

/-- Time passes. -/
theorem step_quiet (hu : c.Unwindowed) (hev : ev.Quiet) (hg : (c.listened cfg ev).gaveUp = false) :
    ∃ r b, step cfg c ev = stirred c r b := by
  obtain ⟨r, b, h⟩ := listened_quiet hu hev hg
  exact ⟨r, b, step_of_listening hu h⟩

/-- The receive the connection is blocked in turns such a packet down and starts over. -/
def Declines (c : ClientConnection) (number : Nat) (isAck isFin : Bool) (data : Bytes) : Prop :=
  match c.point with
  | .receiveFilenameForUpload | .receiveFilenameForDownload =>
      c.sequenceNumber.value ≠ number ∧
        ∃ s, decodeUtf8 (data.take (fullBufferSize - sawProtocolHeaderSize)) = .ok s
  | .receiveFilesize _ | .receiveFileChunk | .initiateCloseConnection =>
      c.sequenceNumber.value ≠ number
  | .closingHandshakeForDownload =>
      c.sequenceNumber.value ≠ number ∨ isAck = false ∧ isFin = false
  | .closingHandshakeForUpload | .waitForChunkAck _ _ _ =>
      isAck = false ∨ c.sequenceNumber.value ≠ number
  | .ended => True
  | _ => False

theorem caught_invalidSequenceNumber :
    ExnClass.invalidSequenceNumber ∈ configureWantedExceptionsToCatch [] := by decide

theorem Declines.unwindowed (h : c.Declines number isAck isFin data) : c.Unwindowed := by
  unfold Declines at h
  unfold Unwindowed
  cases hp : c.point <;> rw [hp] at h <;> first | exact h.elim | exact trivial

theorem listened_declined (hm : Saw.Carries raw number isAck isFin data)
    (h : c.Declines number isAck isFin data)
    (hg : (c.listened cfg (.datagram raw (some A) now)).gaveUp = false) :
    ∃ r b, c.listened cfg (.datagram raw (some A) now) = .listening r b := by
  unfold Declines at h
  unfold listened at hg ⊢
  have rejected : ∀ {α : Type} {op : Operation α} {e : Exn},
      op.check (raw.take op.bufferSize) (some A) = .error e →
      e.cls ∈ configureWantedExceptionsToCatch op.exceptionsToLetThrough →
      (reListenIfFailed op c.socket c.listening (.datagram raw (some A) now)).gaveUp = false →
      ∃ r b, reListenIfFailed op c.socket c.listening (.datagram raw (some A) now) =
        .listening r b := by
    intro α op e hc he hg
    obtain ⟨r, h⟩ := reListen_rejects hc he hg
    exact ⟨r, true, h⟩
  cases hp : c.point with
  | receiveFilenameForUpload | receiveFilenameForDownload =>
      rw [hp] at h hg
      obtain ⟨hn, s, hs⟩ := h
      rw [Listened.gaveUp_void] at hg
      have hc := Saw.check_receiveFilename (A := A) (s := c.sequenceNumber)
        cfg.protocolVersion hm
      rw [hs, Except.bind, if_pos hn] at hc
      obtain ⟨r, b, h⟩ := rejected hc caught_invalidSequenceNumber hg
      exact ⟨r, b, by rw [h]; rfl⟩
  | receiveFilesize =>
      rw [hp] at h hg
      rw [Listened.gaveUp_void] at hg
      have hc := Saw.check_receiveFilesize (A := A) (s := c.sequenceNumber)
        cfg.protocolVersion hm
      rw [if_pos h] at hc
      obtain ⟨r, b, h⟩ := rejected hc caught_invalidSequenceNumber hg
      exact ⟨r, b, by rw [h]; rfl⟩
  | receiveFileChunk =>
      rw [hp] at h hg
      rw [Listened.gaveUp_void] at hg
      obtain ⟨packet, -, -, hc⟩ := Saw.check_receiveFileChunk (A := A)
        (s := c.sequenceNumber) cfg.protocolVersion hm
      rw [if_pos h] at hc
      obtain ⟨r, b, h⟩ := rejected hc caught_invalidSequenceNumber hg
      exact ⟨r, b, by rw [h]; rfl⟩
  | initiateCloseConnection =>
      rw [hp] at h hg
      have hc := Saw.check_waitForFinOrAck (A := A) (s := c.sequenceNumber) hm
      rw [if_pos h] at hc
      exact rejected hc caught_invalidSequenceNumber hg
  | closingHandshakeForDownload =>
      rw [hp] at h hg
      have hc := Saw.check_waitForFinOrAck (A := A) (s := c.sequenceNumber) hm
      by_cases hn : c.sequenceNumber.value = number
      · obtain ⟨rfl, rfl⟩ := h.resolve_left (not_not.mpr hn)
        rw [if_neg (not_not.mpr hn)] at hc
        exact rejected hc (show ExnClass.messageNotFinNorAck ∈ configureWantedExceptionsToCatch []
          by decide) hg
      · rw [if_pos hn] at hc
        exact rejected hc caught_invalidSequenceNumber hg
  | closingHandshakeForUpload =>
      rw [hp] at h hg
      obtain ⟨e, he, hc⟩ := Saw.check_waitForAck_declined (A := A) hm [.connectionLost] h
      exact rejected hc (Saw.ackErrors_caught he).2 hg
  | waitForChunkAck =>
      rw [hp] at h hg
      obtain ⟨e, he, hc⟩ := Saw.check_waitForAck_declined (A := A) hm [] h
      exact rejected hc (Saw.ackErrors_caught he).1 hg
  | ended => exact ⟨c.listening, false, rfl⟩
  | receiveFileGbn | waitForFirstPacketAck | sendFileGbn =>
      rw [hp] at h
      exact h.elim

/-- A packet is turned down. -/
theorem step_declined (hm : Saw.Carries raw number isAck isFin data)
    (h : c.Declines number isAck isFin data)
    (hg : (c.listened cfg (.datagram raw (some A) now)).gaveUp = false) :
    ∃ r b, step cfg c (.datagram raw (some A) now) = stirred c r b := by
  obtain ⟨r, b, hl⟩ := listened_declined hm h hg
  exact ⟨r, b, step_of_listening h.unwindowed hl⟩

end Server.ClientConnection

namespace Client

variable {cfg : Config} {c : Client} {ev : Event} {r : ReListen} {b : Bool}
  {raw data : Bytes} {number : Nat} {isAck isFin : Bool} {A : Address} {now : Time}

/-- The client is not in the window of Go-Back-N. -/
def Unwindowed (c : Client) : Prop :=
  match c.point with
  | .receiveFileGbn _ | .sendFileGbn _ | .handshake => False
  | _ => True

/-- The same client, but for its retries and what it handed over. -/
def stirred (c : Client) (r : ReListen) (b : Bool) : Client :=
  { c with listening := r, outbox := if b then c.socket.retransmission else [] }

theorem listen_of_listening {α : Type} {op : Operation α} {k : Client → Except Exn α → Exec}
    (h : reListenIfFailed op c.socket c.listening ev = .listening r b) :
    listen c op ev k = .ok { c.retransmit b with listening := r } := by
  simp only [listen, h]

theorem onEvent_of_listening (hu : c.Unwindowed) (h : c.listened cfg ev = .listening r b) :
    onEvent cfg c ev = .ok { c.retransmit b with listening := r } := by
  unfold Unwindowed at hu
  unfold listened at h
  unfold onEvent
  cases hp : c.point with
  | sendOperationIntention | informFilename | informFilesize | informNameToDownload | sendFileSaw
    | receiveFileSaw =>
      rw [hp] at h
      exact listen_of_listening (Listened.void_eq_listening h)
  | initiateCloseConnection | handleConnectionFinalization =>
      rw [hp] at h
      exact listen_of_listening h
  | receiveFileGbn | sendFileGbn | handshake =>
      rw [hp] at hu
      exact hu.elim
  | ended =>
      rw [hp] at h
      obtain ⟨rfl, rfl⟩ := Listened.listening.inj h
      simp [retransmit]

theorem step_of_listening (hu : c.Unwindowed) (h : c.listened cfg ev = .listening r b) :
    step cfg c ev = stirred c r b := by
  have hev : onEvent cfg { c with outbox := [] } ev = .ok (stirred c r b) := by
    rw [onEvent_of_listening (c := { c with outbox := [] }) hu h]
    cases b <;> rfl
  unfold step
  dsimp only
  rw [hev]
  split <;> rfl

theorem listened_quiet (hu : c.Unwindowed) (hev : ev.Quiet)
    (hg : (c.listened cfg ev).gaveUp = false) : ∃ r b, c.listened cfg ev = .listening r b := by
  unfold Unwindowed at hu
  unfold listened at hg ⊢
  have void : ∀ {α : Type} {op : Operation α}, op.onFailure = id →
      (reListenIfFailed op c.socket c.listening ev).void.gaveUp = false →
      ∃ r b, (reListenIfFailed op c.socket c.listening ev).void = .listening r b := by
    intro α op hop hg
    rw [Listened.gaveUp_void] at hg
    obtain ⟨r, b, h⟩ := reListen_quiet hop hev hg
    exact ⟨r, b, by rw [h]; rfl⟩
  cases hp : c.point with
  | sendOperationIntention | informFilename | informFilesize | informNameToDownload | sendFileSaw
  | receiveFileSaw =>
      rw [hp] at hg
      exact void rfl hg
  | initiateCloseConnection | handleConnectionFinalization =>
      rw [hp] at hg
      exact reListen_quiet rfl hev hg
  | receiveFileGbn | sendFileGbn | handshake =>
      rw [hp] at hu
      exact hu.elim
  | ended => exact ⟨c.listening, false, rfl⟩

theorem step_quiet (hu : c.Unwindowed) (hev : ev.Quiet) (hg : (c.listened cfg ev).gaveUp = false) :
    ∃ r b, step cfg c ev = stirred c r b := by
  obtain ⟨r, b, h⟩ := listened_quiet hu hev hg
  exact ⟨r, b, step_of_listening hu h⟩

/-- The receive the client is blocked in turns such a packet down and starts over. -/
def Declines (c : Client) (number : Nat) (isAck isFin : Bool) : Prop :=
  match c.point with
  | .sendOperationIntention _ | .informFilename | .informFilesize | .informNameToDownload
  | .sendFileSaw _ _ _ => isAck = true ∧ isFin = false ∧ c.sequenceNumber.value ≠ number
  | .initiateCloseConnection | .receiveFileSaw | .handleConnectionFinalization _ =>
      c.sequenceNumber.value ≠ number
  | .ended => True
  | _ => False

theorem Declines.unwindowed (h : c.Declines number isAck isFin) : c.Unwindowed := by
  unfold Declines at h
  unfold Unwindowed
  cases hp : c.point <;> rw [hp] at h <;> first | exact h.elim | exact trivial

theorem listened_declined (hack : c.ackNumber = none) (hm : Saw.Carries raw number isAck isFin data)
    (h : c.Declines number isAck isFin)
    (hg : (c.listened cfg (.datagram raw (some A) now)).gaveUp = false) :
    ∃ r b, c.listened cfg (.datagram raw (some A) now) = .listening r b := by
  unfold Declines at h
  unfold listened at hg ⊢
  rw [hack] at hg ⊢
  have rejected : ∀ {α : Type} {op : Operation α},
      op.check (raw.take op.bufferSize) (some A) = .error ExnClass.invalidSequenceNumber.exn →
      ExnClass.invalidSequenceNumber ∉ op.exceptionsToLetThrough →
      (reListenIfFailed op c.socket c.listening (.datagram raw (some A) now)).gaveUp = false →
      ∃ r b, reListenIfFailed op c.socket c.listening (.datagram raw (some A) now) =
        .listening r b := by
    intro α op hc he hg
    have hcaught : ExnClass.invalidSequenceNumber ∈
        configureWantedExceptionsToCatch op.exceptionsToLetThrough :=
      List.mem_filter.mpr ⟨by decide, by simpa using he⟩
    obtain ⟨r, h⟩ := reListen_rejects hc hcaught hg
    exact ⟨r, true, h⟩
  have confirmation : isAck = true ∧ isFin = false ∧ c.sequenceNumber.value ≠ number →
      (ClientProtocol.validateConfirmation c.sequenceNumber none (raw.take commsBufferSize)
        (some A)).map Prod.fst = .error ExnClass.invalidSequenceNumber.exn := by
    rintro ⟨rfl, rfl, hn⟩
    obtain ⟨_, -, -, -, hc⟩ := Saw.check_confirmation (A := A) (s := c.sequenceNumber) hm
    simpa [hn] using hc
  cases hp : c.point with
  | sendOperationIntention | informFilename | informFilesize | informNameToDownload
  | sendFileSaw =>
      rw [hp] at h hg
      rw [Listened.gaveUp_void] at hg
      obtain ⟨r, b, hl⟩ := rejected (confirmation h)
        (by simp [ClientProtocol.waitForAck, ClientProtocol.waitForOperationConfirmation,
          Operation.letThrough]) hg
      exact ⟨r, b, by rw [hl]; rfl⟩
  | initiateCloseConnection =>
      rw [hp] at h hg
      have hc := Saw.check_client_waitForFinOrAck (A := A) (s := c.sequenceNumber) hm []
      rw [if_pos h] at hc
      exact rejected hc List.not_mem_nil hg
  | handleConnectionFinalization =>
      rw [hp] at h hg
      have hc := Saw.check_client_waitForFinOrAck (A := A) (s := c.sequenceNumber) hm [.connectionLost]
      rw [if_pos h] at hc
      exact rejected hc (by simp [Operation.letThrough]) hg
  | receiveFileSaw =>
      rw [hp] at h hg
      rw [Listened.gaveUp_void] at hg
      obtain ⟨_, -, -, hc⟩ := Saw.check_receiveFileChunkSaw (A := A) (s := c.sequenceNumber)
        cfg.protocolVersion hm
      rw [if_pos h] at hc
      obtain ⟨r, b, hl⟩ := rejected hc List.not_mem_nil hg
      exact ⟨r, b, by rw [hl]; rfl⟩
  | ended => exact ⟨c.listening, false, rfl⟩
  | receiveFileGbn | sendFileGbn | handshake =>
      rw [hp] at h
      exact h.elim

/-- A packet is turned down. -/
theorem step_declined (hack : c.ackNumber = none) (hm : Saw.Carries raw number isAck isFin data)
    (h : c.Declines number isAck isFin)
    (hg : (c.listened cfg (.datagram raw (some A) now)).gaveUp = false) :
    ∃ r b, step cfg c (.datagram raw (some A) now) = stirred c r b := by
  obtain ⟨r, b, hl⟩ := listened_declined hack hm h hg
  exact ⟨r, b, step_of_listening h.unwindowed hl⟩

end Client

end Rdt
