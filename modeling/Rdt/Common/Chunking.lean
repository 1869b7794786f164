import Mathlib.Data.Rat.Floor
import Mathlib.Algebra.Order.Field.Rat
import Rdt.Common.GoBackN

/-!
# Files in chunks

The two `split_file_in_chunks` of Go-Back-N and the two read loops of Stop-and-Wait cut a file in
the same way.
-/

namespace Rdt

open FileHandler GoBackNSender

namespace Chunking

/-! ## The read loops -/

/-- What a read loop makes of one read -/
structure Chunk where
  data : Bytes
  chunkNumber : Nat
  isLastChunk : Bool
  isFirstChunk : Bool
deriving DecidableEq, Repr

theorem position_read_lt {file : File} {n : Nat} (h : (FileHandler.read file n).1 ≠ []) :
    file.content.length - (FileHandler.read file n).2.position <
      file.content.length - file.position := by
  have hlen : 0 < ((file.content.drop file.position).take n).length := List.length_pos_iff.mpr h
  rw [List.length_take, List.length_drop] at hlen
  show file.content.length - min file.content.length (file.position + n) < _
  omega

/-- `while chunk := self.file_handler.read(self.file, FILE_CHUNK_SIZE_SAW)` with the variables of
the loop.  Once set, `is_last_chunk` stays set. -/
def readLoop (totalChunks : Nat) (file : File) (chunkNumber : Nat)
    (isLastChunk isFirstChunk : Bool) : List Chunk :=
  if (FileHandler.read file fileChunkSizeSaw).1 = [] then []
  else
    ⟨(FileHandler.read file fileChunkSizeSaw).1, chunkNumber,
        isLastChunk || chunkNumber == totalChunks, isFirstChunk⟩ ::
      readLoop totalChunks (FileHandler.read file fileChunkSizeSaw).2 (chunkNumber + 1)
        (isLastChunk || chunkNumber == totalChunks) false
termination_by file.content.length - file.position
decreasing_by exact position_read_lt (by assumption)

/-- The chunks of `send_file_saw`, which does not tell the first one from the others -/
def sendFileSaw (file : File) (filesize : Nat) : List Chunk :=
  readLoop (getNumberOfChunks filesize fileChunkSizeSaw) file 1 false false

/-- The chunks of `transmit_file` -/
def transmitFile (file : File) (filesize : Nat) : List Chunk :=
  readLoop (getNumberOfChunks filesize fileChunkSizeSaw) file 1 false true

/-- A read loop that has read `i` chunks goes on with the other ones. -/
theorem readLoop_eq {k i : Nat} (file : File) (isLastChunk isFirstChunk : Bool)
    (hpos : file.position = min file.content.length (fileChunkSizeSaw * i))
    (hk : i + k = getNumberOfChunks file.content.length fileChunkSizeSaw)
    (hlast : isLastChunk = true → k = 0) :
    readLoop (getNumberOfChunks file.content.length fileChunkSizeSaw) file (i + 1) isLastChunk
        isFirstChunk =
      ((successiveReads fileChunkSizeSaw file.content).drop i).mapIdx fun j chunk ↦
        ⟨chunk, i + 1 + j, i + 1 + j == getNumberOfChunks file.content.length fileChunkSizeSaw,
          isFirstChunk && j == 0⟩ := by
  induction k generalizing i file isLastChunk isFirstChunk with
  | zero =>
      have hlen : (successiveReads fileChunkSizeSaw file.content).length = i := by simp [← hk]
      have hend : file.content.length ≤ fileChunkSizeSaw * i := by
        rw [← Nat.add_zero i, hk]
        exact le_mul_getNumberOfChunks (by decide) _
      have hread : (FileHandler.read file fileChunkSizeSaw).1 = [] := by
        rw [FileHandler.read, hpos, min_eq_left hend, List.drop_length, List.take_nil]
      rw [readLoop, if_pos hread, List.drop_eq_nil_of_le hlen.le, List.mapIdx_nil]
  | succ k ih =>
      have hi : i < (successiveReads fileChunkSizeSaw file.content).length := by simp [← hk]
      have hread := read_eq_getElem hpos hi
      have hne : (FileHandler.read file fileChunkSizeSaw).1 ≠ [] := by
        rw [hread]
        exact ne_nil_of_mem_successiveReads (by decide) (List.getElem_mem hi)
      have hpos' := position_read hpos
      have hfalse : isLastChunk = false := by
        cases isLastChunk with
        | false => rfl
        | true => exact absurd (hlast rfl) (Nat.succ_ne_zero k)
      have hlast' : (false || i + 1 == getNumberOfChunks file.content.length fileChunkSizeSaw) =
          true → k = 0 := by
        rw [Bool.false_or, beq_iff_eq]
        omega
      have hk' : i + 1 + k = getNumberOfChunks
          (FileHandler.read file fileChunkSizeSaw).2.content.length fileChunkSizeSaw := by
        show i + 1 + k = getNumberOfChunks file.content.length fileChunkSizeSaw
        omega
      have hrest := ih _ _ false hpos' hk' hlast'
      rw [readLoop, if_neg hne, hfalse, List.drop_eq_getElem_cons hi, List.mapIdx_cons, ← hread]
      congr 1
      · simp
      · refine hrest.trans ?_
        have hnext : ∀ j, i + 1 + 1 + j = i + 1 + (j + 1) := by omega
        refine congrArg₂ List.mapIdx ?_ rfl
        funext j chunk
        have hlater : (isFirstChunk && j + 1 == 0) = false := by simp
        rw [hnext, Bool.false_and, hlater]
        rfl

theorem readLoop_forReading (path : String) (node : Option String) (content : Bytes)
    (isFirstChunk : Bool) :
    readLoop (getNumberOfChunks content.length fileChunkSizeSaw) (.forReading path node content) 1 false
        isFirstChunk =
      (successiveReads fileChunkSizeSaw content).mapIdx fun j chunk ↦
        ⟨chunk, 1 + j, 1 + j == getNumberOfChunks content.length fileChunkSizeSaw,
          isFirstChunk && j == 0⟩ := by
  have h := readLoop_eq (i := 0) (.forReading path node content) false isFirstChunk
    (Nat.min_zero _).symm (Nat.zero_add _) (fun h ↦ absurd h Bool.false_ne_true)
  simpa [File.forReading] using h

/-! ## The partition -/

/-- `chunks` are the pieces of `content` of length `n`, but the last one, which may be shorter. -/
structure IsPartition (n : Nat) (content : Bytes) (chunks : List Bytes) : Prop where
  flatten : chunks.flatten = content
  length : chunks.length = getNumberOfChunks content.length n
  full : ∀ i chunk, i + 1 < chunks.length → chunks[i]? = some chunk → chunk.length = n
  last : ∀ chunk, chunks.getLast? = some chunk → chunk ≠ []

/-- The number of chunks is the exact ceiling. -/
theorem getNumberOfChunks_eq_ceil {n : Nat} (hn : 0 < n) (size : Nat) :
    getNumberOfChunks size n = ⌈(size / n : ℚ)⌉₊ := by
  have hn' : (0 : ℚ) < n := Nat.cast_pos.mpr hn
  refine eq_of_forall_ge_iff fun k ↦ ?_
  rw [Nat.ceil_le, div_le_iff₀ hn', ← Nat.cast_mul, Nat.cast_le, getNumberOfChunks,
    Nat.div_le_iff_le_mul_add_pred hn, Nat.mul_comm k n]
  omega

theorem isPartition_successiveReads {n : Nat} (hn : 0 < n) (content : Bytes) :
    IsPartition n content (successiveReads n content) where
  flatten := flatten_successiveReads hn content
  length := length_successiveReads n content
  full i chunk hi hc := by
    obtain ⟨hlt, rfl⟩ := List.getElem?_eq_some_iff.mp hc
    have hnext : n * (i + 1) < content.length := by
      rw [length_successiveReads, getNumberOfChunks, Nat.lt_div_iff_mul_lt hn, Nat.mul_comm] at hi
      omega
    rw [Nat.mul_succ] at hnext
    simp only [successiveReads, List.getElem_map, List.getElem_range, List.length_take,
      List.length_drop]
    omega
  last chunk hc := ne_nil_of_mem_successiveReads hn (List.mem_of_getLast? hc)

/-- What a read loop makes of a file: its chunks, the numbers from one on, and the end marker on
the last chunk, whose number is the one the loop compares with. -/
structure ReadsThrough (content : Bytes) (chunks : List Chunk) : Prop where
  partition : IsPartition fileChunkSizeSaw content (chunks.map Chunk.data)
  chunkNumber : ∀ i chunk, chunks[i]? = some chunk → chunk.chunkNumber = i + 1
  isLastChunk : ∀ i chunk, chunks[i]? = some chunk →
    (chunk.isLastChunk = true ↔ i + 1 = chunks.length)
  total : ∀ i chunk, chunks[i]? = some chunk →
    (chunk.chunkNumber = getNumberOfChunks content.length fileChunkSizeSaw ↔ i + 1 = chunks.length)

/-- What the loops read is what the machines of both ends work through. -/
theorem map_data_readLoop (path : String) (node : Option String) (content : Bytes)
    (isFirstChunk : Bool) :
    (readLoop (getNumberOfChunks content.length fileChunkSizeSaw) (.forReading path node content) 1 false
      isFirstChunk).map Chunk.data = successiveReads fileChunkSizeSaw content := by
  rw [readLoop_forReading]
  refine List.ext_getElem? fun i ↦ ?_
  rw [List.getElem?_map, List.getElem?_mapIdx, Option.map_map]
  exact Option.map_id'

theorem readsThrough_readLoop (path : String) (node : Option String) (content : Bytes)
    (isFirstChunk : Bool) :
    ReadsThrough content (readLoop (getNumberOfChunks content.length fileChunkSizeSaw)
      (.forReading path node content) 1 false isFirstChunk) := by
  have hlen : (readLoop (getNumberOfChunks content.length fileChunkSizeSaw)
      (.forReading path node content) 1 false isFirstChunk).length =
        getNumberOfChunks content.length fileChunkSizeSaw := by
    rw [readLoop_forReading, List.length_mapIdx, length_successiveReads]
  have hget : ∀ i chunk, (readLoop (getNumberOfChunks content.length fileChunkSizeSaw)
      (.forReading path node content) 1 false isFirstChunk)[i]? = some chunk →
        chunk.chunkNumber = i + 1 ∧ chunk.isLastChunk =
          (i + 1 == getNumberOfChunks content.length fileChunkSizeSaw) := by
    intro i chunk h
    rw [readLoop_forReading, List.getElem?_mapIdx] at h
    obtain ⟨c, -, rfl⟩ := Option.map_eq_some_iff.mp h
    rw [Nat.add_comm 1 i]
    exact ⟨rfl, rfl⟩
  constructor
  · rw [map_data_readLoop]
    exact isPartition_successiveReads (by decide) content
  · intro i chunk h
    exact (hget i chunk h).1
  · intro i chunk h
    rw [(hget i chunk h).2, beq_iff_eq, hlen]
  · intro i chunk h
    rw [(hget i chunk h).1, hlen]

/-- Both `split_file_in_chunks`, the server's after its first read, cut a file into one and the
same partition, and the read loops of `send_file_saw` and `transmit_file` cut it likewise. -/
theorem chunks_partition (path : String) (node : Option String) (content : Bytes) :
    ((splitFileInChunksClient (.forReading path node content) content.length).1 =
        (splitFileInChunksServer (FileHandler.read (.forReading path node content) fileChunkSizeGbn).2
          content.length).1 ∧
      IsPartition fileChunkSizeGbn content
        (splitFileInChunksClient (.forReading path node content) content.length).1) ∧
    (ReadsThrough content (sendFileSaw (.forReading path node content) content.length) ∧
      ReadsThrough content (transmitFile (.forReading path node content) content.length)) ∧
    getNumberOfChunks content.length fileChunkSizeGbn =
      ⌈(content.length / fileChunkSizeGbn : ℚ)⌉₊ ∧
    getNumberOfChunks content.length fileChunkSizeSaw =
      ⌈(content.length / fileChunkSizeSaw : ℚ)⌉₊ := by
  have hclient : (splitFileInChunksClient (.forReading path node content) content.length).1 =
      successiveReads fileChunkSizeGbn content :=
    splitFileInChunksClient_eq rfl
  have hserver : (splitFileInChunksServer
      (FileHandler.read (.forReading path node content) fileChunkSizeGbn).2 content.length).1 =
        successiveReads fileChunkSizeGbn content := by
    refine splitFileInChunksServer_eq ?_
    exact congrArg (min content.length) (Nat.zero_add _)
  refine ⟨⟨?_, ?_⟩, ⟨?_, ?_⟩, ?_, ?_⟩
  · rw [hclient, hserver]
  · rw [hclient]
    exact isPartition_successiveReads (by decide) content
  · exact readsThrough_readLoop path node content false
  · exact readsThrough_readLoop path node content true
  · exact getNumberOfChunks_eq_ceil (by decide) _
  · exact getNumberOfChunks_eq_ceil (by decide) _

end Chunking

end Rdt
