import Rdt.Common.GoBackN
import Rdt.Common.Protocol

/-!
# The datagrams of a thread

A thread composes what it sends, or repeats what it has composed before.  So what holds of all that
the composers make of a packet without SYN holds of every datagram that a thread hands over, once
its handshake is done.
-/

namespace Rdt

open PacketParser

/-- Whatever the composers make of a packet without SYN has `P`. -/
def Composes (P : Bytes → Prop) : Prop :=
  ∀ protocol n ack isAck isFin port data raw,
    Protocol.encode protocol n ack isAck false isFin port data = .ok raw → P raw

/-- A stretch of a thread that keeps `I`, also when it raises an exception, and ends with `Q` when
it raises none -/
def Keeps {σ : Type} (I Q : σ → Prop) : Except (Exn × σ) σ → Prop
  | .ok c => I c ∧ Q c
  | .error (_, c) => I c

theorem Keeps.bind {σ : Type} {I Q R : σ → Prop} {x : Except (Exn × σ) σ}
    {k : σ → Except (Exn × σ) σ} (hx : Keeps I Q x) (hk : ∀ c, I c → Q c → Keeps I R (k c)) :
    Keeps I R (x >>= k) := by
  cases x with
  | ok c => exact hk c hx.1 hx.2
  | error e => exact hx

variable {P : Bytes → Prop}

theorem SocketSaw.retransmission_all {s : SocketSaw} (h : ∀ raw ∈ s.lastRawPacket, P raw) :
    ∀ o ∈ s.retransmission, P o.1 := by
  intro o ho
  unfold SocketSaw.retransmission at ho
  split at ho
  · rename_i raw A hraw _
    rw [List.mem_singleton.mp ho]
    exact h raw hraw
  · cases ho

/-! ## The sender -/

namespace GoBackNSender

/-- What the sender has composed has `P`. -/
structure Hands (P : Bytes → Prop) (s : GoBackNSender) : Prop where
  lastRawPacket : ∀ raw ∈ s.lastRawPacket, P raw
  packet : ∀ raw, s.point = .sendPacketsInWindow (some raw) → P raw

/-- How `send_file` goes on with such a sender -/
def Result.Hands (P : Bytes → Prop) : Result → Prop
  | .running s sent => s.Hands P ∧ ∀ raw ∈ sent, P raw
  | .returned s => s.Hands P
  | .raised _ => True

variable {s : GoBackNSender}

theorem hands_initClient (n ack : SequenceNumber) (chunks : List Bytes) :
    (initClient n ack chunks).Hands P :=
  ⟨fun _ hr ↦ (by cases hr), fun _ hp ↦ (by cases hp)⟩

theorem hands_initServer (n ack : SequenceNumber) (chunks : List Bytes) :
    (initServer n ack chunks).Hands P :=
  ⟨fun _ hr ↦ (by cases hr), fun _ hp ↦ (by cases hp)⟩

theorem Hands.loop (h : s.Hands P) (isLastChunkAcked : Bool) :
    (s.loop isLastChunkAcked).Hands P := by
  unfold GoBackNSender.loop
  split
  · exact ⟨⟨h.lastRawPacket, fun _ hp ↦ (by cases hp)⟩, fun _ hr ↦ (by cases hr)⟩
  · exact h

/-- A chunk goes out as what `build_packet` makes of it. -/
theorem encode_chunkPacket (s : GoBackNSender) (port : UInt16) :
    Protocol.encode .goBackN
        ⟨s.nextSeqNum.value + s.offsetInitialSeqNumber.value, .goBackN⟩ (some s.ackNumber) false false
        (s.nextSeqNum.value = s.totalChunks - 1) port (s.chunks.getD s.nextSeqNum.value []) =
      composePacketGbnForNet (s.chunkPacket port) := rfl

theorem Hands.sendPacketsInWindow (hP : Composes P) (h : s.Hands P) {packet : Option Bytes}
    (hp : ∀ raw ∈ packet, P raw) (port : UInt16) : (s.sendPacketsInWindow packet port).Hands P := by
  unfold GoBackNSender.sendPacketsInWindow
  split
  · split
    · rename_i raw hraw
      have hcomposed : P raw := hP _ _ _ _ _ _ _ raw ((encode_chunkPacket s port).trans hraw)
      refine ⟨⟨h.lastRawPacket, ?_⟩, ?_⟩
      · intro raw' hpoint
        cases hpoint
        exact hcomposed
      · intro raw' hr
        exact Option.some.inj hr ▸ hcomposed
    · trivial
  · exact ⟨⟨hp, fun _ hpoint ↦ (by cases hpoint)⟩, fun _ hr ↦ (by cases hr)⟩

theorem Hands.proceed (hP : Composes P) (h : s.Hands P) (port : UInt16) (now : Time) :
    (s.proceed port now).Hands P := by
  unfold GoBackNSender.proceed
  split
  · rename_i packet hpoint
    refine h.sendPacketsInWindow hP ?_ port
    intro raw hr
    exact h.packet raw (by rw [hpoint, Option.mem_def.mp hr])
  · split
    · exact h.loop true
    · exact ⟨⟨h.lastRawPacket, fun _ hp ↦ (by cases hp)⟩, fun _ hr ↦ (by cases hr)⟩
  · exact ⟨h, fun _ hr ↦ (by cases hr)⟩

theorem Hands.retransmissionNeeded (h : s.Hands P) : s.retransmissionNeeded.Hands P :=
  Hands.loop (s := s.resetWindow) ⟨h.lastRawPacket, h.packet⟩ false

theorem Hands.accumulate (h : s.Hands P) (d : Time) (isLastChunkAcked : Bool) :
    (s.accumulate d isLastChunkAcked).Hands P := by
  have hspent : { s with spentInReception := s.spentInReception + d }.Hands P :=
    ⟨h.lastRawPacket, h.packet⟩
  unfold GoBackNSender.accumulate
  dsimp only
  split
  · exact hspent.retransmissionNeeded
  · exact hspent.loop isLastChunkAcked

theorem Hands.acknowledge (h : s.Hands P) (n : Nat) : (s.acknowledge n).Hands P :=
  ⟨h.lastRawPacket, h.packet⟩

theorem Hands.awaitAckPhaseClient (h : s.Hands P) (received : Except Exn Packet) (d : Time) :
    (s.awaitAckPhaseClient received d).Hands P := by
  have hfin : { s with alreadyReceivedFinBack := true }.Hands P := ⟨h.lastRawPacket, h.packet⟩
  unfold GoBackNSender.awaitAckPhaseClient
  dsimp only
  split
  · split
    · trivial
    · split
      · exact (h.acknowledge _).loop _
      · exact h.accumulate d _
  · split
    · split
      · trivial
      · split
        · exact (hfin.acknowledge _).loop _
        · exact hfin.accumulate d _
    · split
      · trivial
      · split
        · exact (h.acknowledge _).loop _
        · exact h.accumulate d _
  · split
    · exact h.retransmissionNeeded
    · trivial

theorem Hands.awaitAckPhaseServer (h : s.Hands P) (received : Except Exn Packet) (d : Time) :
    (s.awaitAckPhaseServer received d).Hands P := by
  unfold GoBackNSender.awaitAckPhaseServer
  dsimp only
  split
  · split
    · trivial
    · split
      · exact (h.acknowledge _).loop _
      · exact h.accumulate d _
  · rename_i packet
    have hfin : { s with alreadyReceivedFinBack := s.alreadyReceivedFinBack || isFinBack packet }.Hands P :=
      ⟨h.lastRawPacket, h.packet⟩
    split
    · trivial
    · split
      · exact (hfin.acknowledge _).loop _
      · trivial
  · split
    · exact h.accumulate d _
    · split
      · exact h.retransmissionNeeded
      · trivial

end GoBackNSender

/-! ## The receiver -/

namespace GoBackNReceiver

/-- What the receiver may send again has `P`. -/
def Hands (P : Bytes → Prop) (r : GoBackNReceiver) : Prop := ∀ raw ∈ r.lastTransmittedPacket, P raw

theorem Hands.onPacket {r : GoBackNReceiver} (h : r.Hands P) (packet : Packet) :
    (r.onPacket packet).receiver.Hands P := by
  unfold GoBackNReceiver.onPacket onFirstPacket onLoopPacket
  split
  · split <;> exact h
  · split
    · dsimp only
      split <;> exact h
    · exact h

end GoBackNReceiver

end Rdt
