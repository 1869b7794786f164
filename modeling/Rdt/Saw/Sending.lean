import Rdt.Link
import Rdt.Saw.Wire

/-! # What an end makes of a packet it accepts, and what it sends then -/

namespace Rdt

namespace Saw

/-! ## The chunks of a file -/

section Chunks

variable (content : Bytes)

/-- The chunks of the file -/
abbrev chunks : List Bytes := FileHandler.successiveReads fileChunkSizeSaw content

abbrev total : Nat := (chunks content).length

variable {content}

theorem length_chunk_le (i : Nat) : ((chunks content).getD i []).length ≤ fileChunkSizeSaw := by
  rw [List.getD_eq_getElem?_getD]
  cases h : (chunks content)[i]? with
  | none => exact Nat.zero_le _
  | some chunk =>
      exact FileHandler.length_le_of_mem_successiveReads (List.mem_of_getElem? h)

theorem total_eq (content : Bytes) :
    total content = FileHandler.getNumberOfChunks content.length fileChunkSizeSaw :=
  FileHandler.length_successiveReads _ _

theorem total_pos (h : content ≠ []) : 0 < total content := by
  rw [total_eq]
  exact FileHandler.getNumberOfChunks_pos (by decide) (List.length_pos_iff.mpr h)

theorem chunk_ne_nil {i : Nat} (h : i < total content) : (chunks content).getD i [] ≠ [] := by
  rw [← List.getElem_eq_getD (h := h)]
  exact FileHandler.ne_nil_of_mem_successiveReads (by decide) (List.getElem_mem h)

theorem drop_chunks {i : Nat} (h : i < total content) :
    (chunks content).drop i = (chunks content).getD i [] :: (chunks content).drop (i + 1) := by
  rw [List.drop_eq_getElem_cons h, List.getElem_eq_getD []]

theorem length_drop_chunks (content : Bytes) (i : Nat) :
    ((chunks content).drop i).length = total content - i := List.length_drop

end Chunks

theorem nil_fits : ([] : Bytes).length < 2 ^ 16 := by decide

/-- What an end sends at once is one packet, or nothing. -/
structure Single (p : Bytes → Prop) (outs : List Bytes) : Prop where
  all : ∀ o ∈ outs, p o
  short : outs.length ≤ 1

section

variable {p : Bytes → Prop}

theorem Single.nil : Single p [] := ⟨fun _ ho ↦ absurd ho List.not_mem_nil, Nat.zero_le 1⟩

/-- What an end sends at once is one packet. -/
def Sends (p : Bytes → Prop) (outs : List Bytes) : Prop := ∃ raw, p raw ∧ outs = [raw]

theorem Sends.single {outs : List Bytes} (h : Sends p outs) : Single p outs := by
  obtain ⟨raw, hraw, rfl⟩ := h
  exact ⟨fun _ ho ↦ List.mem_singleton.mp ho ▸ hraw, le_refl 1⟩

/-- A retransmission is a single packet. -/
theorem single_retransmission {socket : SocketSaw} {peer : Address}
    (h : ∀ o ∈ socket.retransmission.to peer, p o) (b : Bool) :
    Single p ((if b then socket.retransmission else []).to peer) := by
  cases b with
  | false => exact .nil
  | true =>
      refine ⟨h, (List.length_filterMap_le _ _).trans ?_⟩
      rcases socket.retransmission_cases with hnone | ⟨_, _, hone⟩
      · exact (congrArg List.length hnone).le.trans (Nat.zero_le 1)
      · exact (congrArg List.length hone).le

end

end Saw

open Saw

/-! ## Sending and receiving -/

namespace Server.ClientConnection

variable {cfg : Config} {c : ClientConnection} {data raw : Bytes} {A : Address} {now : Time}

theorem send_saw (hp : cfg.protocolVersion = .stopAndWait) (hn : c.sequenceNumber.value < 2)
    (isAck isFin : Bool) (hd : data.length < 2 ^ 16) :
    ∃ raw, Carries raw c.sequenceNumber.value isAck isFin data ∧
      send cfg c isAck isFin data = .ok (handed cfg c raw) := by
  rcases encode_cases hn c.ackNumber isAck false isFin cfg.address.port data with
    ⟨-, raw, hraw, hc⟩ | ⟨hlong, -⟩
  · refine ⟨raw, hc, ?_⟩
    rw [send_eq_encode, hp, hraw]
  · exact absurd hd (Nat.not_lt.mpr hlong)

/-- The loop of `transmit_file` from a read on, up to the next receive -/
theorem transmitFile_eq (hp : cfg.protocolVersion = .stopAndWait) {content : Bytes} {n : Nat}
    (hn : n < total content) (isFirst : Bool) (now : Time)
    (hlt : (if isFirst then c else c.stepSequence).sequenceNumber.value < 2) :
    ∃ raw, Carries raw (if isFirst then c else c.stepSequence).sequenceNumber.value isFirst
        (n + 1 = total content) ((chunks content).getD n []) ∧
      transmitFile cfg now (total content) ((chunks content).drop n) (n + 1) isFirst c =
        .ok ((handed cfg (if isFirst then c else c.stepSequence) raw).block
          (if n + 1 = total content then .closingHandshakeForDownload
            else .waitForChunkAck ((chunks content).drop (n + 1)) (n + 2) (total content)) now) := by
  obtain ⟨raw, hraw, hsend⟩ := send_saw hp hlt isFirst (n + 1 = total content)
    (lt_of_le_of_lt (length_chunk_le n) (by decide))
  refine ⟨raw, hraw, ?_⟩
  rw [drop_chunks hn, transmitFile]
  dsimp only [sendFileChunk]
  rw [hsend]
  by_cases hlast : n + 1 = total content
  · have hnil : (chunks content).drop (n + 1) = [] := List.drop_eq_nil_of_le (le_of_eq hlast.symm)
    rw [if_pos hlast, hnil]
    exact if_pos hlast
  · rw [if_neg hlast]
    exact if_neg hlast

/-- `closing_handshake_for_upload` up to its receive: an ACK and a FIN with one number -/
theorem closingHandshakeForUpload_eq (hp : cfg.protocolVersion = .stopAndWait)
    (hn : c.sequenceNumber.value < 2) (now : Time) :
    ∃ ack fin, Carries ack c.sequenceNumber.value true false [] ∧
      Carries fin c.sequenceNumber.value false true [] ∧
      closingHandshakeForUpload cfg now c =
        .ok ((handed cfg (handed cfg (c.report .connectionFinalizationReceived) ack)
          fin).stepSequence.block .closingHandshakeForUpload now) := by
  obtain ⟨ack, hack, hsendAck⟩ := send_saw (c := c.report .connectionFinalizationReceived) hp hn true
    false nil_fits
  obtain ⟨fin, hfin, hsendFin⟩ := send_saw
    (c := handed cfg (c.report .connectionFinalizationReceived) ack) hp hn false true nil_fits
  refine ⟨ack, fin, hack, hfin, ?_⟩
  simp only [closingHandshakeForUpload, sendAck, hsendAck, sendFin, hsendFin, bind, Except.bind, pure,
    Except.pure, finallyDone]

section Listen

variable {α : Type} {op : Operation α} {k : ClientConnection → Except Exn α → Exec}

theorem listen_returns {a : α} (hc : op.check (raw.take op.bufferSize) (some A) = .ok a) :
    listen c op (.datagram raw (some A) now) k = k c (.ok a) := by
  rw [listen, reListen_accepts hc]

theorem listen_raises {e : Exn} (hc : op.check (raw.take op.bufferSize) (some A) = .error e)
    (he : e.cls ∉ configureWantedExceptionsToCatch op.exceptionsToLetThrough) :
    listen c op (.datagram raw (some A) now) k = k (c.retransmit false) (.error e) := by
  rw [listen, reListen_letsThrough hc he]

end Listen

end Server.ClientConnection

namespace Client

variable {cfg : Config} {c : Client} {data raw : Bytes} {A : Address} {now : Time}

theorem send_saw_cases (hp : cfg.protocolVersion = .stopAndWait) (hn : c.sequenceNumber.value < 2)
    (hport : c.serverAddress.port ≠ 0) (isAck isFin : Bool) (port : UInt16) (data : Bytes) :
    (data.length < 2 ^ 16 ∧ ∃ raw, Carries raw c.sequenceNumber.value isAck isFin data ∧
        send cfg c isAck false isFin port data = .ok (handed c raw)) ∨
      (2 ^ 16 ≤ data.length ∧
        send cfg c isAck false isFin port data = .error (ExnClass.structError.exn, c)) := by
  rcases encode_cases hn c.ackNumber isAck false isFin port data with
    ⟨hshort, raw, hraw, hc⟩ | ⟨hlong, herr⟩
  · refine .inl ⟨hshort, raw, hc, ?_⟩
    rw [send_eq_encode cfg hport, hp, hraw]
  · refine .inr ⟨hlong, ?_⟩
    rw [send_eq_encode cfg hport, hp, herr]

theorem send_saw (hp : cfg.protocolVersion = .stopAndWait) (hn : c.sequenceNumber.value < 2)
    (hport : c.serverAddress.port ≠ 0) (isAck isFin : Bool) (port : UInt16) (hd : data.length < 2 ^ 16) :
    ∃ raw, Carries raw c.sequenceNumber.value isAck isFin data ∧
      send cfg c isAck false isFin port data = .ok (handed c raw) :=
  (send_saw_cases hp hn hport isAck isFin port data).elim (fun h ↦ h.2)
    fun h ↦ absurd hd (Nat.not_lt.mpr h.1)

/-- The loop of `send_file_saw` from a read on, up to the next receive -/
theorem sendFileSaw_eq (hp : cfg.protocolVersion = .stopAndWait) {content : Bytes} {n : Nat}
    (hn : n < total content) (now : Time) (hlt : c.stepSequence.sequenceNumber.value < 2)
    (hport : c.serverAddress.port ≠ 0) :
    ∃ raw, Carries raw c.stepSequence.sequenceNumber.value false (n + 1 = total content)
        ((chunks content).getD n []) ∧
      sendFileSaw cfg now (total content) ((chunks content).drop n) (n + 1) c =
        .ok (if n + 1 = total content then
          block { c.stepSequence.handed raw with file := FileHandler.close c.file }
            .initiateCloseConnection now
        else (c.stepSequence.handed raw).block
          (.sendFileSaw ((chunks content).drop (n + 1)) (n + 2) (total content)) now) := by
  obtain ⟨raw, hraw, hsend⟩ := send_saw (c := c.stepSequence) hp hlt hport false
    (n + 1 = total content) cfg.myAddress.port (lt_of_le_of_lt (length_chunk_le n) (by decide))
  refine ⟨raw, hraw, ?_⟩
  rw [drop_chunks hn, sendFileSaw]
  dsimp only [sendFileChunkSaw]
  rw [hsend]
  by_cases hlast : n + 1 = total content
  · have hnil : (chunks content).drop (n + 1) = [] := List.drop_eq_nil_of_le (le_of_eq hlast.symm)
    rw [if_pos hlast, hnil]
    exact if_pos hlast
  · rw [if_neg hlast]
    exact if_neg hlast

/-- `handle_connection_finalization` up to its receive: an ACK and a FIN with one number -/
theorem finalization_eq (hp : cfg.protocolVersion = .stopAndWait) (hn : c.sequenceNumber.value < 2)
    (hport : c.serverAddress.port ≠ 0) (now : Time) (caller : Finalization) :
    ∃ ack fin, Carries ack c.sequenceNumber.value true false [] ∧
      Carries fin c.sequenceNumber.value false true [] ∧
      handleConnectionFinalization cfg now caller c =
        .ok (((c.handed ack).handed fin).stepSequence.block (.handleConnectionFinalization caller)
          now) := by
  obtain ⟨ack, hack, hsendAck⟩ := send_saw hp hn hport true false cfg.myAddress.port nil_fits
  obtain ⟨fin, hfin, hsendFin⟩ := send_saw (c := c.handed ack) hp hn hport false true
    c.serverAddress.port nil_fits
  refine ⟨ack, fin, hack, hfin, ?_⟩
  rw [handleConnectionFinalization_eq hport, sendFinalization, sendAck, hsendAck]
  show (do
    let c ← send cfg (c.handed ack) false false true c.serverAddress.port []
    return c.stepSequence.block (.handleConnectionFinalization caller) now) = _
  rw [hsendFin]
  rfl

section Listen

variable {α : Type} {op : Operation α} {k : Client → Except Exn α → Exec}

theorem listen_returns {a : α} (hc : op.check (raw.take op.bufferSize) (some A) = .ok a) :
    listen c op (.datagram raw (some A) now) k = k c (.ok a) := by
  rw [listen, reListen_accepts hc]

theorem listen_raises {e : Exn} (hc : op.check (raw.take op.bufferSize) (some A) = .error e)
    (he : e.cls ∉ configureWantedExceptionsToCatch op.exceptionsToLetThrough) :
    listen c op (.datagram raw (some A) now) k = k (c.retransmit false) (.error e) := by
  rw [listen, reListen_letsThrough hc he]

end Listen

end Client

end Rdt
