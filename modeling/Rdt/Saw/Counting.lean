import Rdt.Lib.Lockstep
import Rdt.Saw.Ending

/-! # Counting chunk packets and chunk ACKs -/

namespace Rdt

open PacketParser

/-- A datagram that a client sends is a chunk packet or a chunk ACK; `c` is the client that has sent
it.  The last chunk is confirmed by an ACK and a FIN. -/
def Client.countsChunk (c : Client) (raw : Bytes) : Bool :=
  match c.point with
  | .sendFileSaw _ _ _ | .initiateCloseConnection => true
  | .receiveFileSaw | .handleConnectionFinalization .performDownload =>
      (getPacketFromBytes raw).isAck
  | _ => false

/-- The chunks whose confirmation, or which themselves, a client still waits for. -/
def Client.outstanding (total : Nat) (c : Client) : Nat :=
  match c.point with
  | .sendFileSaw remaining _ _ => remaining.length + 1
  | .initiateCloseConnection => 1
  | .receiveFileSaw | .handleConnectionFinalization _ => total - c.file.pieces.length
  | _ => total

namespace Server.ClientConnection

/-- What the connection has written. -/
def pieces (c : ClientConnection) : List Bytes := c.file.elim [] File.pieces

/-- The same of a connection; before the first chunk its ACK confirms the size. -/
def countsChunk (c : ClientConnection) (raw : Bytes) : Bool :=
  match c.point with
  | .waitForChunkAck _ _ _ | .closingHandshakeForDownload => true
  | .receiveFileChunk | .closingHandshakeForUpload =>
      (getPacketFromBytes raw).isAck && !c.pieces.isEmpty
  | _ => false

def outstanding (total : Nat) (c : ClientConnection) : Nat :=
  match c.point with
  | .waitForChunkAck remaining _ _ => remaining.length + 1
  | .closingHandshakeForDownload => 1
  | .receiveFileChunk | .closingHandshakeForUpload => total - c.pieces.length
  | _ => total

end Server.ClientConnection

namespace Saw

open Duplex

variable {Q : Bytes → Prop} {p : Bytes → Bool} {outs : List Bytes} {price n : Nat}

/-- A packet counts at most once. -/
theorem Single.emits (h : Single Q outs) (hn : 1 + price ≤ n) : Emits Q p price outs n := by
  refine ⟨h.all, le_trans (Nat.add_le_add ?_ ?_) hn⟩
  · exact le_trans List.countP_le_length h.short
  · exact le_of_le_of_eq (Nat.mul_le_mul_right price h.short) (Nat.one_mul price)

theorem countP_uncounted (hp : ∀ raw, p raw = false) : outs.countP p = 0 :=
  List.countP_eq_zero.mpr fun raw _ ↦ by simp [hp raw]

/-- Where nothing counts. -/
theorem Single.emits_uncounted (h : Single Q outs) (hp : ∀ raw, p raw = false) (hn : price ≤ n) :
    Emits Q p price outs n := by
  refine ⟨h.all, ?_⟩
  rw [countP_uncounted hp, Nat.zero_add]
  exact le_trans (Nat.mul_le_mul_right price h.short) (by omega)

theorem emits_free (hall : ∀ o ∈ outs, Q o) (hp : ∀ raw, p raw = false) : Emits Q p 0 outs 0 :=
  ⟨hall, by rw [countP_uncounted hp]; exact le_refl 0⟩

/-- Of an ACK and a FIN the FIN does not count. -/
theorem emits_ack_fin {ack fin : Bytes} (hall : Q ack ∧ Q fin) (hp : p fin = false) :
    Emits Q p 0 [ack, fin] 1 := by
  refine ⟨by simpa using hall, ?_⟩
  cases hack : p ack <;> simp [hack, hp]

theorem isAck_fin {raw data : Bytes} {number : Nat} {isFin : Bool}
    (h : Carries raw number false isFin data) : (getPacketFromBytes raw).isAck = false := by
  obtain ⟨isSyn, port, h⟩ := h
  have hparse := (h (max raw.length sawProtocolHeaderSize) (le_max_right _ _)).2
  rw [List.take_of_length_le (le_max_left _ _)] at hparse
  rw [hparse]

end Saw

theorem Client.Leaving.countsChunk {c : Client} (h : c.Leaving) (raw : Bytes) :
    c.countsChunk raw = false := by
  unfold Client.countsChunk
  cases h with
  | finalizing hp | ended hp => rw [hp]

end Rdt
