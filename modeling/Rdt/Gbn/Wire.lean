import Rdt.Lib.WindowInvariant
import Rdt.Common.GoBackN
import Rdt.Common.Protocol

/-! # Go-Back-N packets as messages of the sliding window -/

namespace Rdt.Gbn

open PacketParser SlidingWindow

/-- A file as a transfer. -/
def transfer (content : Bytes) (first offset : Nat) : Transfer UInt8 where
  chunks := FileHandler.successiveReads fileChunkSizeGbn content
  first := first
  offset := offset
  window := windowSize
  bump := SequenceNumber.stepGbn

/-- What a receiver makes of a datagram. -/
def toData (raw : Bytes) : Option (Data UInt8) :=
  if raw = [] then none
  else
    let packet := getPacketFromBytes (raw.take fullBufferSize)
    some ⟨packet.sequenceNumber, packet.isFin, packet.data⟩

/-- What a sender makes of a datagram; it wants an `ack_number`. -/
def toReply (raw : Bytes) : Option Reply :=
  if raw = [] then none
  else
    let packet := getPacketFromBytes (raw.take commsBufferSize)
    packet.ackNumber.map fun n ↦
      ⟨packet.sequenceNumber, n, GoBackNSender.isFinBack packet⟩

theorem ne_nil_of_length {raw : Bytes} {n : Nat} (h : raw.length = 16 + n) : raw ≠ [] := by
  rintro rfl
  rw [List.length_nil] at h
  omega

/-- What a packet without data says, to either side. -/
theorem of_encode {n m : SequenceNumber} {a f : Bool} {port : UInt16} {raw : Bytes}
    (h : Protocol.encode .goBackN n (some m) a false f port [] = .ok raw) :
    toData raw = some ⟨n.value, f, []⟩ ∧ toReply raw = some ⟨n.value, m.value, !a && f⟩ := by
  rcases Protocol.encode_gbn n m a false f port [] with ⟨raw', hok, hlen, hparse⟩ | herr
  · obtain rfl : raw' = raw := Except.ok.inj (hok.symm.trans h)
    have hne := ne_nil_of_length hlen
    have hfull : raw'.take fullBufferSize = raw' := List.take_of_length_le (by rw [hlen]; decide)
    have hcomms : raw'.take commsBufferSize = raw' := List.take_of_length_le (by rw [hlen]; decide)
    simp [toData, toReply, hne, hfull, hcomms, hparse, GoBackNSender.isFinBack]
  · rw [herr] at h
    cases h

variable {content : Bytes} {first offset : Nat}

theorem chunk_length_le (i : Nat) :
    ((transfer content first offset).chunks.getD i []).length ≤ fileChunkSizeGbn := by
  rw [List.getD_eq_getElem?_getD]
  cases h : (transfer content first offset).chunks[i]? with
  | none => exact Nat.zero_le _
  | some c => exact FileHandler.length_le_of_mem_successiveReads (List.mem_of_getElem? h)

/-- What a composed chunk packet says. -/
theorem of_chunkPacket {g : GoBackNSender} {port : UInt16} {raw : Bytes}
    (hchunks : g.chunks = (transfer content first offset).chunks)
    (hoffset : g.offsetInitialSeqNumber.value = offset)
    (h : composePacketGbnForNet (g.chunkPacket port) = .ok raw) :
    toData raw = some ((transfer content first offset).chunk g.nextSeqNum.value) := by
  rcases composePacketGbnForNet_cases (g.chunkPacket port) rfl with
    ⟨hport, hlen, hseq, hn, hok⟩ | herr
  · obtain rfl := Except.ok.inj (hok.symm.trans h)
    have hle : ((transfer content first offset).chunks.getD g.nextSeqNum.value []).length ≤
        fileChunkSizeGbn := chunk_length_le _
    have hdata : (g.chunkPacket port).data.length ≤ fileChunkSizeGbn := by
      simpa [GoBackNSender.chunkPacket, hchunks] using hle
    have htake : (gbnHeader (g.chunkPacket port) g.ackNumber.value ++
        (g.chunkPacket port).data).take fullBufferSize =
          gbnHeader (g.chunkPacket port) g.ackNumber.value ++ (g.chunkPacket port).data := by
      refine List.take_of_length_le ?_
      rw [List.length_append, length_gbnHeader]
      exact le_trans (Nat.add_le_add_left hdata 16) (by decide)
    have hne : gbnHeader (g.chunkPacket port) g.ackNumber.value ++ (g.chunkPacket port).data ≠ [] :=
      ne_nil_of_length (n := (g.chunkPacket port).data.length) (by simp)
    rw [toData, if_neg hne, htake]
    simp only [getPacketFromBytes_gbnHeader hport hlen hseq hn, Transfer.chunk, Transfer.total]
    simp [GoBackNSender.chunkPacket, GoBackNSender.totalChunks, hchunks, hoffset, add_comm, transfer]
  · rw [herr] at h
    cases h

end Rdt.Gbn
