import Mathlib.Logic.Function.Basic
import Mathlib.Data.List.Range
import Mathlib.Algebra.Order.Group.Nat
import Rdt.Common.Packet

/-! # `file_handler.py` -/

namespace Rdt

def minimumFreeGap : Nat := 104857600

/-- The regular files, with what is on disk of them. -/
abbrev Disk := String → Option Bytes

/-- What is on disk of a file changes; of a device nothing is. -/
def Disk.put (disk : Disk) (node : Option String) (content : Option Bytes) : Disk :=
  node.elim disk fun k ↦ Function.update disk k content

/-- A Python file object.  `node` is the regular file it is open on, if it is no device; `pieces`
are the arguments of the `write` calls so far; `content` and `position` serve `read` and `seek`. -/
structure File where
  path : String
  node : Option String
  closed : Bool
  pieces : List Bytes
  content : Bytes
  position : Nat
deriving DecidableEq, Repr

namespace File

def forWriting (path : String) (node : Option String) : File := ⟨path, node, false, [], [], 0⟩

/-- What is read is the file as it was when it was opened. -/
def forReading (path : String) (node : Option String) (content : Bytes) : File :=
  ⟨path, node, false, [], content, 0⟩

/-- All that was written through the file object. -/
def written (f : File) : Bytes := f.pieces.flatten

end File

/-- `FileHandler`, with the answers of the operating system it depends on: which paths
`open` accepts, which regular file a path leads to (with `.`, `..` and linked directories resolved;
none for a device), the free space, and how many of the bytes written through an open file the
buffering has let reach the disk. -/
structure FileHandler where
  dirpath : String
  canOpen : String → Bool
  node : String → Option String
  freeSpace : Nat
  flushed : List Bytes → Nat

namespace FileHandler

/-- `os.path.join` of two parts, as in POSIX. -/
def pathJoin (a b : String) : String :=
  if b.startsWith "/" then b
  else if a.isEmpty || a.endsWith "/" then a ++ b
  else a ++ "/" ++ b

def getFilepath (h : FileHandler) (baseFilepath : String) (isPathComplete : Bool) : String :=
  if isPathComplete then baseFilepath else pathJoin h.dirpath baseFilepath

/-- `open` raises `ValueError` on a path with a null character. -/
def hasNull (filepath : String) : Bool := filepath.toList.contains (Char.ofNat 0)

/-- The content of the regular file at a path: `isfile` tells whether there is one. -/
def lookup (h : FileHandler) (disk : Disk) (filepath : String) : Option Bytes :=
  (h.node filepath).bind disk

/-- The file object is open on what the path leads to. -/
def OpenAt (h : FileHandler) (filepath : String) (file : File) : Prop :=
  file.path = filepath ∧ file.node = h.node filepath

/-- `open_file` with `is_write`: `isfile` is false for the paths `open` will not take. -/
def openFileWrite (h : FileHandler) (disk : Disk) (filepath : String) :
    Except Exn (File × Disk) :=
  if hasNull filepath then .error ExnClass.valueError.exn
  else if (h.lookup disk filepath).isSome then .error ExnClass.invalidFilename.exn
  else if h.canOpen filepath then
    .ok (.forWriting filepath (h.node filepath), disk.put (h.node filepath) (some []))
  else .error ExnClass.invalidFilename.exn

/-- `open_file` without `is_write`, of a regular file. -/
def openFileRead (h : FileHandler) (disk : Disk) (filepath : String) : Except Exn File :=
  if hasNull filepath then .error ExnClass.valueError.exn
  else match h.lookup disk filepath with
    | none => .error ExnClass.invalidFilename.exn
    | some content =>
        if h.canOpen filepath then .ok (.forReading filepath (h.node filepath) content)
        else .error ExnClass.invalidFilename.exn

def openFileWriteMode (h : FileHandler) (disk : Disk) (filepath : String)
    (isPathComplete : Bool) : Except Exn (File × Disk) :=
  h.openFileWrite disk (h.getFilepath filepath isPathComplete)

def openFileReadMode (h : FileHandler) (disk : Disk) (filepath : String)
    (isPathComplete : Bool) : Except Exn File :=
  h.openFileRead disk (h.getFilepath filepath isPathComplete)

/-- `file.close()` lets everything written reach the disk; a file opened for reading
has nothing to flush. -/
def close (file : File) : File := { file with closed := true }

def closeOnDisk (disk : Disk) (file : File) : Disk := disk.put file.node (some file.written)

def read (file : File) (nBytes : Nat) : Bytes × File :=
  ((file.content.drop file.position).take nBytes,
    { file with position := min file.content.length (file.position + nBytes) })

/-- `file.seek(-n_bytes, 1)` -/
def unwind (file : File) (nBytes : Nat) : File :=
  { file with position := file.position - nBytes }

def canFileFit (h : FileHandler) (filesize : Nat) : Bool :=
  (h.freeSpace : Int) - minimumFreeGap > filesize

/-- `file.write`, where it does not raise. -/
def appendToFile (file : File) (packet : Packet) : File :=
  { file with pieces := file.pieces ++ [packet.data] }

/-- What is on disk of an open file after a write. -/
def flush (h : FileHandler) (disk : Disk) (file : File) : Disk :=
  disk.put file.node (some (file.written.take (h.flushed file.pieces)))

/-- `ceil(file_size / chunk_size)` -/
def getNumberOfChunks (fileSize chunkSize : Nat) : Nat := (fileSize + chunkSize - 1) / chunkSize

/-- Every exception in here is caught and logged. -/
def removeFileIfCorruptedOrIncomplete (h : FileHandler) (disk : Disk) (filename : String)
    (filesize : Option Nat) (isPathComplete : Bool) : Disk :=
  let finalFilepath := h.getFilepath filename isPathComplete
  match h.lookup disk finalFilepath with
  | none => disk
  | some content =>
      match filesize with
      | none => disk.put (h.node finalFilepath) none
      | some size => if content.length ≠ size then disk.put (h.node finalFilepath) none else disk

/-! ## What is on disk -/

section Put

variable {h : FileHandler} {disk : Disk} {node : Option String} {path : String}
  {content content' : Option Bytes}

/-- Of a regular file it is what was put there. -/
theorem put_self {k : String} (hk : k ∈ node) : disk.put node content k = content := by
  obtain rfl := Option.mem_def.mp hk
  exact Function.update_self k content disk

theorem put_put : (disk.put node content).put node content' = disk.put node content' := by
  cases node with
  | none => rfl
  | some k =>
      show Function.update (Function.update disk k content) k content' = _
      rw [Function.update_idem]
      rfl

/-- What is put back is as it was. -/
theorem put_bind : disk.put node (node.bind disk) = disk := by
  cases node with
  | none => rfl
  | some k => exact Function.update_eq_self k disk

theorem put_of_ne {k : String} (hk : node ≠ some k) : disk.put node content k = disk k := by
  cases node with
  | none => rfl
  | some k' => exact Function.update_of_ne (fun h ↦ hk (congrArg some h.symm)) content disk

theorem lookup_eq {k : String} (hk : h.node path = some k) : h.lookup disk path = disk k := by
  rw [lookup, hk, Option.bind_some]

end Put

theorem removeFileIfCorruptedOrIncomplete_cases (h : FileHandler) (disk : Disk) (filename : String)
    (filesize : Option Nat) (isPathComplete : Bool) :
    h.removeFileIfCorruptedOrIncomplete disk filename filesize isPathComplete = disk ∨
      h.removeFileIfCorruptedOrIncomplete disk filename filesize isPathComplete =
        disk.put (h.node (h.getFilepath filename isPathComplete)) none := by
  unfold removeFileIfCorruptedOrIncomplete
  dsimp only
  cases h.lookup disk (h.getFilepath filename isPathComplete) with
  | none => exact .inl rfl
  | some content =>
      cases filesize with
      | none => exact .inr rfl
      | some size => exact (ite_eq_or_eq _ _ _).symm

/-! ## Opening, appending -/

theorem openFileWriteMode_eq_ok {h : FileHandler} {disk disk' : Disk} {name : String}
    {isPathComplete : Bool} {file : File}
    (ho : h.openFileWriteMode disk name isPathComplete = .ok (file, disk')) :
    h.lookup disk (h.getFilepath name isPathComplete) = none ∧
      file = .forWriting (h.getFilepath name isPathComplete) (h.node (h.getFilepath name isPathComplete)) ∧
        disk' = disk.put (h.node (h.getFilepath name isPathComplete)) (some []) := by
  unfold openFileWriteMode openFileWrite at ho
  split at ho
  · cases ho
  · split at ho
    · cases ho
    · rename_i hfresh
      split at ho
      · obtain ⟨rfl, rfl⟩ := Prod.mk.inj (Except.ok.inj ho)
        exact ⟨by simpa using hfresh, rfl, rfl⟩
      · cases ho

theorem openFileWriteMode_error {h : FileHandler} {disk : Disk} {name : String}
    {isPathComplete : Bool} {e : Exn} (ho : h.openFileWriteMode disk name isPathComplete = .error e) :
    e = ExnClass.valueError.exn ∨ e = ExnClass.invalidFilename.exn := by
  unfold openFileWriteMode openFileWrite at ho
  split at ho
  · exact .inl (Except.error.inj ho).symm
  · split at ho
    · exact .inr (Except.error.inj ho).symm
    · split at ho
      · cases ho
      · exact .inr (Except.error.inj ho).symm

theorem openFileReadMode_error {h : FileHandler} {disk : Disk} {name : String}
    {isPathComplete : Bool} {e : Exn} (ho : h.openFileReadMode disk name isPathComplete = .error e) :
    e = ExnClass.valueError.exn ∨ e = ExnClass.invalidFilename.exn := by
  unfold openFileReadMode openFileRead at ho
  split at ho
  · exact .inl (Except.error.inj ho).symm
  · split at ho
    · exact .inr (Except.error.inj ho).symm
    · split at ho
      · cases ho
      · exact .inr (Except.error.inj ho).symm

theorem openFileReadMode_eq_ok {h : FileHandler} {disk : Disk} {name : String}
    {isPathComplete : Bool} {file : File}
    (ho : h.openFileReadMode disk name isPathComplete = .ok file) :
    h.OpenAt (h.getFilepath name isPathComplete) file ∧
      h.lookup disk (h.getFilepath name isPathComplete) = some file.content := by
  unfold openFileReadMode openFileRead at ho
  split at ho
  · cases ho
  · split at ho
    · cases ho
    · rename_i hdisk
      split at ho
      · exact Except.ok.inj ho ▸ ⟨⟨rfl, rfl⟩, hdisk⟩
      · cases ho

/-- The file is at its start, and nothing is written to it. -/
theorem eq_forReading {h : FileHandler} {disk : Disk} {name : String} {isPathComplete : Bool}
    {file : File} (ho : h.openFileReadMode disk name isPathComplete = .ok file) :
    file = .forReading file.path file.node file.content := by
  unfold openFileReadMode openFileRead at ho
  split at ho
  · cases ho
  · split at ho
    · cases ho
    · split at ho
      · exact Except.ok.inj ho ▸ rfl
      · cases ho

@[simp] theorem written_forWriting (path : String) (node : Option String) :
    (File.forWriting path node).written = [] := rfl

@[simp] theorem written_appendToFile (file : File) (packet : Packet) :
    (appendToFile file packet).written = file.written ++ packet.data := by
  simp [appendToFile, File.written]

@[simp] theorem pieces_appendToFile (file : File) (packet : Packet) :
    (appendToFile file packet).pieces = file.pieces ++ [packet.data] := rfl

@[simp] theorem path_appendToFile (file : File) (packet : Packet) :
    (appendToFile file packet).path = file.path := rfl

@[simp] theorem node_appendToFile (file : File) (packet : Packet) :
    (appendToFile file packet).node = file.node := rfl

/-! ## Reading a file through -/

/-- What successive `read(n)` calls on a file of content `bs` return before the empty
string: a file being sent is taken not to change. -/
def successiveReads (n : Nat) (bs : Bytes) : List Bytes :=
  (List.range (getNumberOfChunks bs.length n)).map fun i ↦ (bs.drop (n * i)).take n

@[simp] theorem length_successiveReads (n : Nat) (bs : Bytes) :
    (successiveReads n bs).length = getNumberOfChunks bs.length n := by
  simp [successiveReads]

/-- The reads up to the `k`-th give the first `n * k` bytes. -/
theorem flatten_range_reads (n k : Nat) (bs : Bytes) :
    ((List.range k).map fun i ↦ (bs.drop (n * i)).take n).flatten = bs.take (n * k) := by
  induction k with
  | zero => simp
  | succ k ih =>
      rw [List.range_succ, List.map_append, List.flatten_append, ih, Nat.mul_succ,
        List.take_add]
      simp

theorem le_mul_getNumberOfChunks {n : Nat} (hn : 0 < n) (size : Nat) :
    size ≤ n * getNumberOfChunks size n := by
  have h := Nat.div_add_mod (size + n - 1) n
  have hlt := Nat.mod_lt (size + n - 1) hn
  unfold getNumberOfChunks
  omega

/-- The reads give back the file. -/
theorem flatten_successiveReads {n : Nat} (hn : 0 < n) (bs : Bytes) :
    (successiveReads n bs).flatten = bs := by
  rw [successiveReads, flatten_range_reads]
  exact List.take_of_length_le (le_mul_getNumberOfChunks hn bs.length)

theorem length_le_of_mem_successiveReads {n : Nat} {bs c : Bytes}
    (hc : c ∈ successiveReads n bs) : c.length ≤ n := by
  obtain ⟨i, _, rfl⟩ := List.mem_map.mp hc
  simp

/-- No read before the end of the file is empty. -/
theorem ne_nil_of_mem_successiveReads {n : Nat} (hn : 0 < n) {bs c : Bytes}
    (hc : c ∈ successiveReads n bs) : c ≠ [] := by
  obtain ⟨i, hi, rfl⟩ := List.mem_map.mp hc
  have hlt : n * i < bs.length := by
    have hi := List.mem_range.mp hi
    unfold getNumberOfChunks at hi
    have := (Nat.lt_div_iff_mul_lt hn).mp hi
    rw [mul_comm] at this
    omega
  intro hnil
  have := congrArg List.length hnil
  simp only [List.length_take, List.length_drop, List.length_nil] at this
  omega

/-- The read after `i` others -/
theorem read_eq_getElem {n i : Nat} {file : File}
    (hpos : file.position = min file.content.length (n * i))
    (hi : i < (successiveReads n file.content).length) :
    (read file n).1 = (successiveReads n file.content)[i] := by
  rw [read, hpos]
  simp only [successiveReads, List.getElem_map, List.getElem_range]
  rcases Nat.le_total file.content.length (n * i) with h | h
  · rw [min_eq_left h, List.drop_length, List.drop_eq_nil_of_le h]
  · rw [min_eq_right h]

theorem position_read {n i : Nat} {file : File}
    (hpos : file.position = min file.content.length (n * i)) :
    (read file n).2.position = min file.content.length (n * (i + 1)) := by
  simp only [read, hpos, Nat.mul_succ]
  omega

theorem getNumberOfChunks_pos {n size : Nat} (hn : 0 < n) (h : 0 < size) :
    0 < getNumberOfChunks size n :=
  Nat.div_pos (by omega) hn

end FileHandler

end Rdt
