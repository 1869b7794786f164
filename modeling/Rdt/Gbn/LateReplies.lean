import Rdt.Gbn.Returning

/-!
# Late datagrams in a download

Nothing is assumed about when a datagram arrives: whatever the client has sent so far may be what
`await_ack_phase` of the server takes next.
-/

namespace Rdt.Gbn

open Duplex SlidingWindow PacketParser

variable {content : Bytes} {σ : Nat} {D : Discipline} {ccfg : Client.Config} {scfg : Server.Config}

/-- What `await_ack_phase` wants of a datagram: an ACK number, which in a bare FIN is one of
the window. -/
structure Readable (g : GoBackNSender) (raw : Bytes) : Prop where
  ne_nil : raw ≠ []
  number : ∃ n, (getPacketFromBytes (raw.take commsBufferSize)).ackNumber = some n ∧
    (GoBackNSender.isFinBack (getPacketFromBytes (raw.take commsBufferSize)) = true →
      g.ackNumber.value ≤ n)

theorem Readable.of_toReply {g : GoBackNSender} {raw : Bytes} {r : Reply}
    (h : toReply raw = some r) (hbare : r.bare = true → g.ackNumber.value ≤ r.ack) :
    Readable g raw := by
  unfold toReply at h
  split at h
  · cases h
  · rename_i hne
    obtain ⟨n, hn, rfl⟩ := Option.map_eq_some_iff.mp h
    exact ⟨hne, n, hn, hbare⟩

section Await

variable {g : GoBackNSender} {raw : Bytes} (h : Readable g raw) (peer : Address) (d : Time)

include h

/-- A packet that is neither ACK nor FIN is the only one `await_ack_phase` does not handle. -/
theorem Readable.raises (hack : (getPacketFromBytes (raw.take commsBufferSize)).isAck = false)
    (hfin : (getPacketFromBytes (raw.take commsBufferSize)).isFin = false) :
    g.awaitAckPhaseServer
        (ServerProtocolGbn.waitForAck g.ackNumber (raw.take commsBufferSize) (some peer)) d =
      .raised (ExnClass.messageIsNotAck.carrying
        (getPacketFromBytes (raw.take commsBufferSize))) := by
  rw [serverWaitForAck g.ackNumber (mt take_comms_eq_nil.mp h.ne_nil) peer]
  dsimp only
  rw [hack, hfin]
  rfl

theorem Readable.ne_raised_of_isAck
    (hack : (getPacketFromBytes (raw.take commsBufferSize)).isAck = true) (e : Exn) :
    g.awaitAckPhaseServer
      (ServerProtocolGbn.waitForAck g.ackNumber (raw.take commsBufferSize) (some peer)) d ≠
        .raised e := by
  obtain ⟨n, hn, -⟩ := h.number
  rw [serverWaitForAck g.ackNumber (mt take_comms_eq_nil.mp h.ne_nil) peer]
  dsimp only
  rw [hack, hn, if_pos rfl]
  dsimp only
  by_cases hle : g.ackNumber.value ≤ n
  · rw [if_pos hle]
    cases hfin : (getPacketFromBytes (raw.take commsBufferSize)).isFin with
    | false =>
        simp only [GoBackNSender.awaitAckPhaseServer, Packet.getAckNumber, hn, if_pos hle,
          Bool.false_eq_true, if_false]
        exact GoBackNSender.loop_ne_raised _ _ e
    | true =>
        simp only [GoBackNSender.awaitAckPhaseServer, Packet.getAckNumber, hn, if_pos hle,
          if_true, ExnClass.carrying]
        exact GoBackNSender.loop_ne_raised _ _ e
  · rw [if_neg hle]
    exact GoBackNSender.accumulate_ne_raised _ _ _ e

theorem Readable.ne_raised_of_isFin
    (hack : (getPacketFromBytes (raw.take commsBufferSize)).isAck = false)
    (hfin : (getPacketFromBytes (raw.take commsBufferSize)).isFin = true) (e : Exn) :
    g.awaitAckPhaseServer
      (ServerProtocolGbn.waitForAck g.ackNumber (raw.take commsBufferSize) (some peer)) d ≠
        .raised e := by
  obtain ⟨n, hn, hle⟩ := h.number
  have hle : g.ackNumber.value ≤ n := hle (by rw [GoBackNSender.isFinBack, hack, hfin]; rfl)
  rw [serverWaitForAck g.ackNumber (mt take_comms_eq_nil.mp h.ne_nil) peer]
  dsimp only
  rw [hack, hfin]
  simp only [GoBackNSender.awaitAckPhaseServer, Packet.getAckNumber, hn, if_pos hle,
    Bool.false_eq_true, if_false, if_true, ExnClass.carrying]
  exact GoBackNSender.loop_ne_raised _ _ e

theorem Readable.ne_raised_iff :
    (∀ e, g.awaitAckPhaseServer
      (ServerProtocolGbn.waitForAck g.ackNumber (raw.take commsBufferSize) (some peer)) d ≠
        .raised e) ↔
      (getPacketFromBytes (raw.take commsBufferSize)).isAck = true ∨
        (getPacketFromBytes (raw.take commsBufferSize)).isFin = true := by
  cases hack : (getPacketFromBytes (raw.take commsBufferSize)).isAck with
  | true => exact ⟨fun _ ↦ .inl rfl, fun _ ↦ h.ne_raised_of_isAck peer d hack⟩
  | false =>
      cases hfin : (getPacketFromBytes (raw.take commsBufferSize)).isFin with
      | true => exact ⟨fun _ ↦ .inr rfl, fun _ ↦ h.ne_raised_of_isFin peer d hack hfin⟩
      | false =>
          refine ⟨fun hne ↦ absurd (h.raises peer d hack hfin) (hne _), ?_⟩
          rintro (h | h) <;> cases h

end Await

/-- All that the client has sent on the connection can be read. -/
theorem DownloadStarts.readable {w w' : World Server.ClientConnection Client Bytes Bytes}
    (h : DownloadStarts ccfg scfg content σ w) (hcontent : 1 < totalChunks content)
    (hrun : (downloadSystem D ccfg scfg).Reaches w w') {g : GoBackNSender}
    (hg : w'.left.point = .sendFileGbn g) {raw : Bytes} (hraw : raw ∈ w'.toLeft) :
    Readable g raw := by
  obtain ⟨w'', hrecorded, rfl⟩ := Reaches.logged hrun
  have hne : content ≠ [] := by
    rintro rfl
    exact absurd hcontent (by decide)
  obtain ⟨r, hr, hbare⟩ := (server_sendsOnce h.server.proto).hears hcontent h.agree.1
    (Nat.succ_le_succ h.agree.2) (h.follows hcontent)
    (stale_windowWorld (Nat.lt_succ_self σ) h.toRight h.toLeft) hrecorded hg hraw
  exact .of_toReply hr hbare

/-- `await_ack_phase` of a download lets no exception out on anything that the client has sent,
late, twice or out of order, exactly if that has one of the flags ACK and FIN: the packet with the
file name has neither. -/
theorem late_reply_harmless_iff (content : Bytes) (σ : Nat) (D : Discipline)
    (ccfg : Client.Config) (scfg : Server.Config)
    (w w' : World Server.ClientConnection Client Bytes Bytes) (g : GoBackNSender) (t : Time)
    (raw : Bytes) (ev : Event) (h : DownloadStarts ccfg scfg content σ w)
    (hcontent : 1 < totalChunks content) (hrun : (downloadSystem D ccfg scfg).Reaches w w')
    (hg : w'.left.point = .sendFileGbn g) (hpoint : g.point = .waitForAck t)
    (hraw : raw ∈ w'.toLeft) (hev : ev ∈ arrivals scfg.clientAddress (some raw)) :
    (∀ e, serverSendFile scfg g ev ≠ some (.raised e)) ↔
      (getPacketFromBytes (raw.take commsBufferSize)).isAck = true ∨
        (getPacketFromBytes (raw.take commsBufferSize)).isFin = true := by
  obtain ⟨now, rfl⟩ := hev
  rw [← (h.readable hcontent hrun hg hraw).ne_raised_iff scfg.clientAddress (now - t)]
  refine forall_congr' fun e ↦ not_congr ?_
  unfold serverSendFile
  rw [hpoint]
  exact ⟨fun h ↦ Option.some.inj h, fun h ↦ congrArg some h⟩

/-! ### The file name, late -/

/-- The packet with the file name that the client of `Local.download` has sent before. -/
def Local.filenamePackets : List Bytes :=
  (Client.swallow (Client.informFilename Local.downloader 0 .informNameToDownload "notes.txt"
    (Local.clientAt 1 (.forWriting "notes.txt" (some "notes.txt")) (.sendOperationIntention Local.connectionAddress)))
      ).outbox.to Local.connectionAddress

/-- The connection enters `send_file` while a copy of the file name is still in flight. -/
def Local.delayedDownload (content : Bytes) : World Server.ClientConnection Client Bytes Bytes :=
  { Local.download content with toLeft := Local.filenamePackets }

theorem Local.delayedDownload_starts {content : Bytes} (h : 1 < totalChunks content) :
    DownloadStarts Local.downloader (Local.connection downloadOperation) content 2
      (Local.delayedDownload content) := by
  have hstart := Local.download_starts h
  refine ⟨hstart.agree, hstart.server, hstart.client, hstart.toRight, ?_⟩
  intro raw hraw
  have hmem : ∀ raw ∈ Local.filenamePackets, (toReply raw).any fun r ↦
      r.number ≤ 2 ∧ r.ack ≤ 2 ∧ r.bare = false := by decide +kernel
  obtain ⟨r, hr, hle⟩ := (Option.any_eq_true _ _).mp (hmem raw hraw)
  exact ⟨r, hr, of_decide_eq_true hle⟩

theorem Local.exists_delayedDownload (content : Bytes) (moves : List Move)
    {p : World Server.ClientConnection Client Bytes Bytes → Prop} [DecidablePred p]
    (h : (moves.foldlM (play (Server.ClientConnection.react (Local.connection downloadOperation))
      (Client.react Local.downloader Local.connectionAddress) Local.clientAddress
      Local.connectionAddress fun _ _ ↦ True) (Local.delayedDownload content)).any (p ·)) :
    ∃ w', (downloadSystem .fifo Local.downloader (Local.connection downloadOperation)).Reaches
      (Local.delayedDownload content) w' ∧ p w' := exists_run h

/-- The connection has sent the two chunks of its window and waits, with the file name next. -/
theorem Local.exists_waiting :
    ∃ w' g raw, (downloadSystem .fifo Local.downloader
        (Local.connection downloadOperation)).Reaches
          (Local.delayedDownload (.replicate 2833 7)) w' ∧
      w'.left.point = .sendFileGbn g ∧ g.point = .waitForAck 0 ∧ raw ∈ w'.toLeft ∧
      (getPacketFromBytes (raw.take commsBufferSize)).isAck = false ∧
      (getPacketFromBytes (raw.take commsBufferSize)).isFin = false := by
  obtain ⟨w', hrun, hp⟩ := Local.exists_delayedDownload (.replicate 2833 7)
    [.leftProceeds, .leftProceeds, .leftProceeds, .leftProceeds]
    (p := fun w' ↦ (Local.connectionAtSender w'.left).any fun g ↦ g.point = .waitForAck 0 ∧
      w'.toLeft.head?.any fun raw ↦
        (getPacketFromBytes (raw.take commsBufferSize)).isAck = false ∧
          (getPacketFromBytes (raw.take commsBufferSize)).isFin = false)
    (by decide +kernel)
  obtain ⟨g, hg, hp⟩ := (Option.any_eq_true _ _).mp hp
  obtain ⟨hpoint, hp⟩ := of_decide_eq_true hp
  obtain ⟨raw, hraw, hflags⟩ := (Option.any_eq_true _ _).mp hp
  exact ⟨w', g, raw, hrun, Local.of_connectionAtSender hg, hpoint, List.mem_of_mem_head? hraw,
    of_decide_eq_true hflags⟩

theorem late_reply_harmless_filename :
    ∃ (g : GoBackNSender) (raw : Bytes),
      (∀ e, serverSendFile (Local.connection downloadOperation) g
        (.datagram raw (some Local.clientAddress) 0) ≠ some (.raised e)) ↔
      (getPacketFromBytes (raw.take commsBufferSize)).isAck = true ∨
        (getPacketFromBytes (raw.take commsBufferSize)).isFin = true := by
  obtain ⟨w', g, raw, hrun, hg, hpoint, hraw, -⟩ := Local.exists_waiting
  have hcontent : 1 < totalChunks (.replicate 2833 7) := by decide +kernel
  exact ⟨g, raw, late_reply_harmless_iff _ 2 .fifo Local.downloader _ _ w' g 0 raw _
    (Local.delayedDownload_starts hcontent) hcontent hrun hg hpoint hraw ⟨0, rfl⟩⟩

theorem not_late_reply_harmless :
    let scfg := Local.connection downloadOperation
    ∃ content σ w w' g t raw ev e, DownloadStarts Local.downloader scfg content σ w ∧
      1 < totalChunks content ∧ (downloadSystem .fifo Local.downloader scfg).Reaches w w' ∧
      w'.left.point = .sendFileGbn g ∧ g.point = .waitForAck t ∧ raw ∈ w'.toLeft ∧
      ev ∈ arrivals scfg.clientAddress (some raw) ∧ serverSendFile scfg g ev = some (.raised e) := by
  obtain ⟨w', g, raw, hrun, hg, hpoint, hraw, hack, hfin⟩ := Local.exists_waiting
  have hcontent : 1 < totalChunks (.replicate 2833 7) := by decide +kernel
  have hstart := Local.delayedDownload_starts hcontent
  have hraises := (hstart.readable hcontent hrun hg hraw).raises Local.clientAddress 0 hack hfin
  refine ⟨_, 2, _, w', g, 0, raw, .datagram raw (some Local.clientAddress) 0,
    ExnClass.messageIsNotAck.carrying (getPacketFromBytes (raw.take commsBufferSize)), hstart,
    hcontent, hrun, hg, hpoint, hraw, ⟨0, rfl⟩, ?_⟩
  unfold serverSendFile
  rw [hpoint]
  exact congrArg some hraises

end Rdt.Gbn
