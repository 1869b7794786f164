import Mathlib.Logic.Function.Iterate
import Rdt.Gbn.Entry
import Rdt.Server.Uploading

/-!
# The numbers of the chunks

The sender adds `next_seq_num` to its offset, the receiver steps its counter: how long the two
arithmetics agree.
-/

namespace Rdt

namespace SequenceNumber

theorem step_iterate_gbn (k v : Nat) : step^[k] ⟨v, .goBackN⟩ = ⟨stepGbn^[k] v, .goBackN⟩ := by
  induction k with
  | zero => rfl
  | succ k ih => rw [Function.iterate_succ_apply', ih, Function.iterate_succ_apply', step_mk_gbn]

/-- Up to the number after the largest one, stepping is addition. -/
theorem stepGbn_iterate_of_le {v k : Nat} (h : v + k ≤ maxSequenceNumber + 1) :
    stepGbn^[k] v = v + k := by
  induction k with
  | zero => rfl
  | succ k ih => rw [Function.iterate_succ_apply', ih (by omega), stepGbn_of_le (by omega), Nat.add_assoc]

theorem stepGbn_iterate_succ_le (v k : Nat) : stepGbn^[k + 1] v ≤ maxSequenceNumber + 1 := by
  rw [Function.iterate_succ_apply']
  exact stepGbn_le _

end SequenceNumber

open PacketParser SequenceNumber

namespace GoBackNSender

/-- `next_seq_num.step()` -/
def advance (s : GoBackNSender) : GoBackNSender := { s with nextSeqNum := s.nextSeqNum.step }

/-- A turn of `send_packets_in_window` that sends a packet sends the chunk at `next_seq_num`, and
advances. -/
theorem sendPacketsInWindow_advances {s s' : GoBackNSender} {packet : Option Bytes} {port : UInt16}
    {raw : Bytes} (h : s.sendPacketsInWindow packet port = .running s' (some raw)) :
    composePacketGbnForNet (s.chunkPacket port) = .ok raw ∧
      s' = { s.advance with point := .sendPacketsInWindow (some raw) } := by
  unfold sendPacketsInWindow at h
  split at h
  · cases hc : composePacketGbnForNet (s.chunkPacket port) with
    | ok raw' =>
        rw [hc] at h
        obtain ⟨rfl, hraw⟩ := Result.running.inj h
        obtain rfl := Option.some.inj hraw
        exact ⟨rfl, rfl⟩
    | error e =>
        rw [hc] at h
        cases h
  · cases (Result.running.inj h).2

/-- The sender about to send chunk `i`, having sent in order from chunk `j` on, at which its window
was set or reset last. -/
def sending (s : GoBackNSender) (j i : Nat) : GoBackNSender :=
  advance^[i - j] { s with base := j }.resetWindow

theorem advance_iterate (k : Nat) (s : GoBackNSender) :
    advance^[k] s = { s with nextSeqNum := SequenceNumber.step^[k] s.nextSeqNum } := by
  induction k with
  | zero => rfl
  | succ k ih => rw [Function.iterate_succ_apply', ih, Function.iterate_succ_apply']; rfl

theorem sending_eq {s : GoBackNSender} (h : s.nextSeqNum.protocol = .goBackN) (j i : Nat) :
    (s.sending j i).nextSeqNum.value = stepGbn^[i - j] j ∧
      (s.sending j i).offsetInitialSeqNumber = s.offsetInitialSeqNumber := by
  have hreset : ({ s with base := j }.resetWindow).nextSeqNum = ⟨j, .goBackN⟩ := by
    rw [← h]
    rfl
  rw [sending, advance_iterate, hreset, step_iterate_gbn]
  exact ⟨rfl, rfl⟩

end GoBackNSender

namespace GoBackNReceiver

/-- The receiver in its main loop, `k` chunks taken -/
def awaiting (r : GoBackNReceiver) (k : Nat) : GoBackNReceiver :=
  { GoBackNReceiver.step^[k + 1] r with point := .receiveLoop }

/-- The first chunk leads into the main loop, a chunk taken from one turn to the next. -/
theorem awaiting_zero {r : GoBackNReceiver} {packet : Packet}
    (h : packet.sequenceNumber = r.ackNumber.value + 1) :
    (r.onFirstPacket packet).receiver = r.awaiting 0 := by
  rw [onFirstPacket, if_pos h]
  rfl

theorem awaiting_succ {r : GoBackNReceiver} {packet : Packet} {k : Nat}
    (h : (r.awaiting k).expected = packet.sequenceNumber) (hfin : packet.isFin = false) :
    ((r.awaiting k).onLoopPacket packet).receiver = r.awaiting (k + 1) := by
  have hsqn : (r.awaiting k).sqnNumber.value = packet.sequenceNumber := h
  rw [onLoopPacket, if_pos hsqn]
  simp only [hfin, Bool.false_eq_true, if_false, awaiting, Function.iterate_succ_apply' _ (k + 1)]
  rfl

theorem sqnNumber_step_iterate (k : Nat) (r : GoBackNReceiver) :
    (GoBackNReceiver.step^[k] r).sqnNumber = SequenceNumber.step^[k] r.sqnNumber := by
  induction k with
  | zero => rfl
  | succ k ih => rw [Function.iterate_succ_apply', Function.iterate_succ_apply', ← ih]; rfl

theorem expected_awaiting {r : GoBackNReceiver} {v : Nat} (h : r.sqnNumber = ⟨v, .goBackN⟩) (k : Nat) :
    (r.awaiting k).expected = stepGbn^[k + 1] v := by
  show (GoBackNReceiver.step^[k + 1] r).sqnNumber.value = _
  rw [sqnNumber_step_iterate, h, step_iterate_gbn]

end GoBackNReceiver

namespace Gbn

/-- The number on chunk `i` is the one expected for it, and `next_seq_num` is its index.  The transfer
begins with chunk `first`; the window was set or reset last at chunk `j`. -/
structure NumbersAgree (s : GoBackNSender) (r : GoBackNReceiver) (port : UInt16) (first j i : Nat) :
    Prop where
  number : ((s.sending j i).chunkPacket port).sequenceNumber = (r.awaiting (i - first)).expected
  index : (s.sending j i).nextSeqNum.value = i

/-- The two arithmetics agree as long as the numbers are at most the largest one and one. -/
theorem numbersAgree_iff {s : GoBackNSender} {r : GoBackNReceiver} {port : UInt16}
    {first j i n σ : Nat} (hs : s.nextSeqNum.protocol = .goBackN)
    (hoffset : s.offsetInitialSeqNumber.value = n) (hr : r.sqnNumber = ⟨σ, .goBackN⟩)
    (hσ : ∀ k, first + k + n ≤ maxSequenceNumber + 1 → stepGbn^[k + 1] σ = first + k + n)
    (hj : first ≤ j) (hi : j ≤ i) :
    NumbersAgree s r port first j i ↔ i + n ≤ maxSequenceNumber + 1 := by
  obtain ⟨hnext, hoff⟩ := GoBackNSender.sending_eq hs j i
  have hexpected := GoBackNReceiver.expected_awaiting hr (i - first)
  have hnumber : ((s.sending j i).chunkPacket port).sequenceNumber =
      (s.sending j i).nextSeqNum.value + n := by
    rw [← hoffset, ← hoff]
    rfl
  constructor
  · rintro ⟨hnum, hindex⟩
    have hle := stepGbn_iterate_succ_le σ (i - first)
    rw [hnumber, hindex, hexpected] at hnum
    omega
  · intro h
    have hindex : (s.sending j i).nextSeqNum.value = i := by
      rw [hnext, stepGbn_iterate_of_le (by omega)]
      omega
    refine ⟨?_, hindex⟩
    rw [hnumber, hindex, hexpected, hσ (i - first) (by omega)]
    omega

/-- In a transfer of any file the number of chunk `i` is the one expected for it, and `next_seq_num` its
index, if and only if it is at most the largest number and one.  An upload begins with the number after
`σ`, a download with `σ` itself, on the chunk sent before `send_file`. -/
theorem chunkNumbersAgree_iff (content : Bytes) (σ : Nat) (last : Option Bytes) (port : UInt16)
    {j i : Nat} (hi : j ≤ i) :
    (NumbersAgree (.initClient ⟨σ, .goBackN⟩ ⟨σ, .goBackN⟩ (chunksOf content))
        (.init ⟨σ, .goBackN⟩ ⟨σ, .goBackN⟩ last) port 0 j i ↔ i + stepGbn σ ≤ maxSequenceNumber + 1) ∧
      (1 ≤ j → (NumbersAgree (.initServer ⟨σ, .goBackN⟩ ⟨σ, .goBackN⟩ (chunksOf content))
        (.init ⟨σ, .goBackN⟩ ⟨σ, .goBackN⟩ last) port 1 j i ↔ i + σ ≤ maxSequenceNumber + 1)) := by
  constructor
  · refine numbersAgree_iff rfl rfl rfl (fun k h ↦ ?_) (Nat.zero_le j) hi
    rw [Function.iterate_succ_apply, stepGbn_iterate_of_le (by omega)]
    omega
  · intro hj
    refine numbersAgree_iff rfl rfl rfl (fun k h ↦ ?_) hj hi
    rw [stepGbn_iterate_of_le (by omega)]
    omega

theorem totalChunks_replicate (n : Nat) (b : UInt8) :
    totalChunks (List.replicate n b) = FileHandler.getNumberOfChunks n fileChunkSizeGbn := by
  rw [totalChunks, chunksOf, FileHandler.length_successiveReads, List.length_replicate]

/-- The last of three chunks, after the window was reset to the second -/
theorem chunkNumbersAgree_iff_three :
    totalChunks (List.replicate 3000 1) = 3 ∧
      (NumbersAgree (.initClient ⟨3, .goBackN⟩ ⟨3, .goBackN⟩ (chunksOf (List.replicate 3000 1)))
        (.init ⟨3, .goBackN⟩ ⟨3, .goBackN⟩ none) 5001 0 1 2 ↔ 2 + stepGbn 3 ≤ maxSequenceNumber + 1) ∧
      (1 ≤ 1 → (NumbersAgree (.initServer ⟨3, .goBackN⟩ ⟨3, .goBackN⟩
          (chunksOf (List.replicate 3000 1)))
        (.init ⟨3, .goBackN⟩ ⟨3, .goBackN⟩ none) 5001 1 1 2 ↔ 2 + 3 ≤ maxSequenceNumber + 1)) :=
  ⟨(totalChunks_replicate 3000 1).trans (by decide),
    chunkNumbersAgree_iff (List.replicate 3000 1) 3 none 5001 (by decide)⟩

/-- A file of two thousand million chunks and one -/
def Local.hugeFile : Bytes := List.replicate (fileChunkSizeGbn * 2000000001) 0

theorem Local.totalChunks_hugeFile : totalChunks Local.hugeFile =
    FileHandler.getNumberOfChunks (fileChunkSizeGbn * 2000000001) fileChunkSizeGbn :=
  totalChunks_replicate _ _

/-- The download of a huge file has its last chunk numbered past the wrap. -/
theorem not_chunkNumbersAgree :
    2000000000 < totalChunks Local.hugeFile ∧
      ¬NumbersAgree (.initServer ⟨2, .goBackN⟩ ⟨2, .goBackN⟩ (chunksOf Local.hugeFile))
        (.init ⟨2, .goBackN⟩ ⟨2, .goBackN⟩ none) 7001 1 1 2000000000 := by
  constructor
  · rw [Local.totalChunks_hugeFile]
    decide +kernel
  · rw [numbersAgree_iff (n := 2) rfl rfl rfl (fun k h ↦ ?_) le_rfl (by decide)]
    · decide
    · rw [stepGbn_iterate_of_le (by omega)]
      omega

end Gbn

end Rdt
