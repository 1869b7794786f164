import Rdt.Gbn.Wire

/-! # `GoBackNReceiver` is the receiver of the sliding window -/

namespace Rdt.Gbn

open PacketParser SlidingWindow

/-- What was written to a file, without the empty writes. -/
def received (file : File) : List Bytes := file.pieces.filter fun piece ↦ !piece.isEmpty

theorem received_appendToFile (file : File) (packet : Packet) :
    received (FileHandler.appendToFile file packet) = push (received file) packet.data := by
  cases hd : packet.data <;> simp [received, FileHandler.appendToFile, hd, push]

theorem flatten_received (file : File) : (received file).flatten = file.written := by
  unfold received File.written
  induction file.pieces with
  | nil => rfl
  | cons piece pieces ih => cases piece <;> simp [ih]

/-- A `GoBackNReceiver` in `receive_file`, as the receiver of the window. -/
structure Reads (r : GoBackNReceiver) (t : Receiver UInt8) : Prop where
  sqn : r.sqnNumber = ⟨t.number, .goBackN⟩
  ack : r.ackNumber = ⟨t.number, .goBackN⟩
  phase : t.phase = match r.point with
    | .receiveFirstChunk => .first
    | .receiveLoop => .loop
  last : ∀ raw ∈ r.lastTransmittedPacket, r.point = .receiveFirstChunk →
    Receiver.Names t.number (toReply raw)

theorem Reads.not_finished {r : GoBackNReceiver} {t : Receiver UInt8} (h : Reads r t) :
    t.phase ≠ .finished := by
  rw [h.phase]
  cases r.point <;> nofun

theorem Reads.point_of_loop {r : GoBackNReceiver} {t : Receiver UInt8} (h : Reads r t)
    (ht : t.phase = .loop) : r.point = .receiveLoop := by
  have hp := h.phase
  rw [ht] at hp
  cases hr : r.point with
  | receiveFirstChunk => rw [hr] at hp; cases hp
  | receiveLoop => rfl

/-- The shapes of what `GoBackNReceiver` sends. -/
inductive Sends (n : Nat) (first : Prop) : List GoBackNReceiver.Reply → Prop
  | none : Sends n first []
  | ack : Sends n first [.sendAck ⟨n, .goBackN⟩ ⟨n, .goBackN⟩]
  | last (h : first) : Sends n first [.resendLast]
  | both (h : first) : Sends n first [.sendAck ⟨n, .goBackN⟩ ⟨n, .goBackN⟩, .resendLast]

/-- What is left of the pieces after a packet. -/
def pushed (pieces : List Bytes) : Option Packet → List Bytes
  | some packet => push pieces packet.data
  | none => pieces

variable {content : Bytes} {first offset : Nat} {r : GoBackNReceiver} {t : Receiver UInt8}

/-- What `receive_file` makes of a packet: it goes on, or returns. -/
inductive Takes (P : Transfer UInt8) (r : GoBackNReceiver) (t : Receiver UInt8) (d : Data UInt8)
    (o : GoBackNReceiver.Outcome) : Prop
  | running {t' : Receiver UInt8} (hf : o.finished = false) (hr : Reads o.receiver t')
      (hp : t'.pieces = pushed t.pieces o.appended)
      (hsend : Sends t.number (r.point = .receiveFirstChunk) o.replies)
      (hs : ∀ outs, (∀ x ∈ outs, Receiver.Names t.number x) → (o.replies = [] → outs = []) →
        Receiver.Step P t (some (some d)) t' outs) : Takes P r t d o
  | returned {t' : Receiver UInt8} (hf : o.finished = true) (hreplies : o.replies = [])
      (hphase : t'.phase = .finished) (hn : o.receiver.sqnNumber = ⟨t'.number, .goBackN⟩)
      (ha : o.receiver.ackNumber = ⟨t'.number, .goBackN⟩)
      (hp : t'.pieces = pushed t.pieces o.appended)
      (hs : ∀ outs, (∀ x ∈ outs, Receiver.Closes t'.number x) →
        Receiver.Step P t (some (some d)) t' outs) : Takes P r t d o

theorem chunkReplies_of_ne {packet : Packet} (h : r.sqnNumber.value ≠ packet.sequenceNumber) :
    r.chunkReplies packet = [] := by
  simp [GoBackNReceiver.chunkReplies, h]

theorem Reads.onPacket (h : Reads r t) {packet : Packet}
    (hlen : packet.payloadLength = 0 → packet.data = []) :
    Takes (transfer content first offset) r t
      ⟨packet.sequenceNumber, packet.isFin, packet.data⟩ (r.onPacket packet) := by
  have hsqn : r.sqnNumber.value = t.number := by rw [h.sqn]
  have hack : r.ackNumber.value = t.number := by rw [h.ack]
  have hstep : ∀ n, SequenceNumber.step ⟨n, .goBackN⟩ =
      ⟨(transfer content first offset).bump n, .goBackN⟩ := fun n ↦ rfl
  cases hpoint : r.point with
  | receiveFirstChunk =>
      have hp : t.phase = .first := by rw [h.phase, hpoint]
      simp only [GoBackNReceiver.onPacket, hpoint, GoBackNReceiver.onFirstPacket, hack]
      split
      · rename_i hnum
        have hne : r.sqnNumber.value ≠ packet.sequenceNumber := by omega
        cases hfin : packet.isFin with
        | false =>
            let t' : Receiver UInt8 :=
              { t with phase := .loop, number := (transfer content first offset).bump t.number }
            have hreads : Reads { r.step with point := .receiveLoop } t' := by
              refine ⟨?_, ?_, rfl, nofun⟩
              · simp [GoBackNReceiver.step, h.sqn, hstep, t']
              · simp [GoBackNReceiver.step, h.ack, hstep, t']
            refine .running rfl hreads (by simp [t', pushed]) ?_ fun outs _ hnone ↦ ?_
            · simp only [chunkReplies_of_ne hne]
              exact .none
            · rw [hnone (chunkReplies_of_ne hne)]
              exact .drop _ hp hnum rfl
        | true =>
            refine .returned rfl (chunkReplies_of_ne hne) rfl ?_ ?_ ?_
              fun outs houts ↦ .only _ hp hnum rfl houts
            · simp [GoBackNReceiver.step, h.sqn, hstep]
            · simp [GoBackNReceiver.step, h.ack, hstep]
            · by_cases hpos : 0 < packet.payloadLength
              · simp [hpos, pushed]
              · simp [hpos, pushed, hlen (by omega)]
      · rename_i hnum
        refine .running rfl h rfl ?_ fun outs houts _ ↦ .wait _ hp hnum houts
        simp only [GoBackNReceiver.chunkReplies, h.sqn, h.ack, hpoint]
        split
        · exact .both trivial
        · exact .last trivial
  | receiveLoop =>
      have hp : t.phase = .loop := by rw [h.phase, hpoint]
      simp only [GoBackNReceiver.onPacket, hpoint, GoBackNReceiver.onLoopPacket, hsqn]
      split
      · rename_i hnum
        cases hfin : packet.isFin with
        | false =>
            refine .running rfl ⟨?_, ?_, ?_, ?_⟩ rfl ?_
              fun outs houts _ ↦ .take _ hp hnum.symm rfl houts
            · simp [GoBackNReceiver.step, h.sqn, hstep]
            · simp [GoBackNReceiver.step, h.ack, hstep]
            · simp [GoBackNReceiver.step, hpoint]
            · simp [GoBackNReceiver.step, hpoint]
            · simp only [GoBackNReceiver.chunkReplies, h.sqn, h.ack, hpoint, hnum, hfin]
              exact .ack
        | true =>
            let t' : Receiver UInt8 := ⟨.finished, t.number, push t.pieces packet.data⟩
            refine .returned rfl ?_ (rfl : t'.phase = .finished) h.sqn h.ack rfl
              fun outs houts ↦ .finish _ hp hnum.symm rfl houts
            simp [GoBackNReceiver.chunkReplies, hfin]
      · rename_i hnum
        refine .running rfl h rfl ?_
          fun outs houts _ ↦ .refuse _ hp (Ne.symm hnum) houts
        simp only [h.sqn, h.ack]
        exact .ack

end Rdt.Gbn
