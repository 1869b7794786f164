import Rdt.Saw.DownloadRun
import Rdt.Saw.Streams
import Rdt.Saw.UploadRun

/-!
# What a transfer delivers

At any moment the receiving end has written the first chunks of the file, and the sending end is
at most one chunk ahead; the connection acts on the name and the size that the client sent, as long
as the name that arrives is the one that was sent.
-/

namespace Rdt

open Saw

/-! ## What the ends are at -/

namespace Client

/-- The chunk that a sending client has not had confirmed, counting from one -/
def workingOn (c : Client) : Option Nat :=
  match c.point with
  | .sendFileSaw _ chunkNumber _ => some (chunkNumber - 1)
  | .initiateCloseConnection => some (total c.file.content)
  | _ => none

end Client

namespace Server.ClientConnection

def workingOn (c : ClientConnection) : Option Nat :=
  match c.point with
  | .waitForChunkAck _ chunkNumber _ => some (chunkNumber - 1)
  | .closingHandshakeForDownload => c.file.map fun f ↦ total f.content
  | _ => none

/-- The name that the connection takes from an event, and opens the file by -/
def actsOnFilename (cfg : Config) (c : ClientConnection) (ev : Event) : Option String :=
  match c.point with
  | .receiveFilenameForUpload | .receiveFilenameForDownload =>
      (reListenIfFailed (ServerProtocol.receiveFilename cfg.protocolVersion c.sequenceNumber)
        c.socket c.listening ev).result.map Prod.snd
  | _ => none

/-- The size that the connection takes from an event, and checks the space for -/
def actsOnFilesize (cfg : Config) (c : ClientConnection) (ev : Event) : Option Nat :=
  match c.point with
  | .receiveFilesize _ =>
      (reListenIfFailed (ServerProtocol.receiveFilesize cfg.protocolVersion c.sequenceNumber)
        c.socket c.listening ev).result.map Prod.snd
  | _ => none

variable {cfg : Config} {c : ClientConnection} {raw data : Bytes} {A : Address} {now : Time}
  {number : Nat} {isAck isFin : Bool}

/-- What is taken for the name has the number waited for, and is what the buffer makes of the
payload. -/
theorem actsOnFilename_datagram (hraw : Carries raw number isAck isFin data) {n : String}
    (hn : n ∈ c.actsOnFilename cfg (.datagram raw (some A) now)) : number = c.sequenceNumber.value ∧
      decodeUtf8 (data.take (fullBufferSize - sawProtocolHeaderSize)) = .ok n := by
  have taken : ∀ r, (ServerProtocol.receiveFilename cfg.protocolVersion c.sequenceNumber).check
      (raw.take fullBufferSize) (some A) = .ok r → number = c.sequenceNumber.value ∧
        decodeUtf8 (data.take (fullBufferSize - sawProtocolHeaderSize)) = .ok r.2 := by
    intro r hcheck
    rw [check_receiveFilename _ hraw] at hcheck
    cases hdec : decodeUtf8 (data.take (fullBufferSize - sawProtocolHeaderSize)) with
    | error e =>
        rw [hdec] at hcheck
        cases hcheck
    | ok name =>
        rw [hdec, Except.bind] at hcheck
        split at hcheck
        · cases hcheck
        · rename_i heq
          exact ⟨(not_not.mp heq).symm, congrArg (Except.ok ∘ Prod.snd) (Except.ok.inj hcheck)⟩
  unfold actsOnFilename at hn
  split at hn
  case h_3 => cases hn
  all_goals
    obtain ⟨r, hr, rfl⟩ := Option.mem_map.mp hn
    exact taken r (result_datagram hr)

theorem actsOnFilesize_datagram (hraw : Carries raw number isAck isFin data) {n : Nat}
    (hn : n ∈ c.actsOnFilesize cfg (.datagram raw (some A) now)) : number = c.sequenceNumber.value ∧
      n = BigEndian.fromBytes (data.take (commsBufferSize - sawProtocolHeaderSize)) := by
  unfold actsOnFilesize at hn
  split at hn
  case h_2 => cases hn
  obtain ⟨r, hr, rfl⟩ := Option.mem_map.mp hn
  have hcheck := result_datagram hr
  rw [show (ServerProtocol.receiveFilesize cfg.protocolVersion c.sequenceNumber).bufferSize =
    commsBufferSize from rfl, check_receiveFilesize _ hraw] at hcheck
  split at hcheck
  · cases hcheck
  · rename_i heq
    exact ⟨(not_not.mp heq).symm, congrArg Prod.snd (Except.ok.inj hcheck).symm⟩

end Server.ClientConnection

namespace Saw

open Duplex Server

/-- The file of a transfer.  The server's storage may have no file of the name that arrives. -/
def Transfers (ccfg : Client.Config) (scfg : Server.Config) (disk : Disk) (c : Client)
    (content : Bytes) : Prop :=
  match ccfg.task with
  | .upload _ _ => c.file.content = content
  | .download _ name => c.file.pieces = [] ∧ ∀ stored f,
      decodeUtf8 ((encodeUtf8 name).take (fullBufferSize - sawProtocolHeaderSize)) = .ok stored →
        scfg.fileHandler.openFileReadMode disk stored false = .ok f → f.content = content

/-- The name that arrives. -/
theorem exists_stored (name : String) : ∃ stored, ∀ n,
    decodeUtf8 ((encodeUtf8 name).take (fullBufferSize - sawProtocolHeaderSize)) = .ok n →
      n = stored := by
  cases h : decodeUtf8 ((encodeUtf8 name).take (fullBufferSize - sawProtocolHeaderSize)) with
  | ok stored => exact ⟨stored, fun n hn ↦ (Except.ok.inj hn).symm⟩
  | error e => exact ⟨name, fun n hn ↦ (by cases hn)⟩

/-- The first chunks are written; the sender works on the last of them or on the next one, and
completion is reported for the whole file only. -/
def Delivers (content written : Bytes) (working : Option Nat) (reported : Prop) : Prop :=
  ∃ k ≤ total content, written = ((chunks content).take k).flatten ∧
    (∀ n ∈ working, n = k ∨ n = k + 1) ∧ (reported → k = total content)

/-- An end has reported completion, or has entered the closing handshake. -/
def Reported (w : World Client ClientConnection Bytes Bytes) : Prop :=
  w.left.reports ≠ [] ∨ w.right.reports ≠ []

/-- The connection goes by the name: in the file it has open, and in what it makes of the next
datagram. -/
def GoesBy (scfg : Server.Config) (name : String) (w : World Client ClientConnection Bytes Bytes) :
    Prop :=
  (∀ f ∈ w.right.file, scfg.fileHandler.OpenAt (scfg.fileHandler.getFilepath name false) f) ∧
    ∀ raw ∈ w.toRight.head?, ∀ now, ∀ n ∈ w.right.actsOnFilename scfg
      (.datagram raw (some scfg.clientAddress) now), n = name

/-- The connection checks the space for the size, and keeps it with the name. -/
def GoesBySize (scfg : Server.Config) (name : String) (size : Nat)
    (w : World Client ClientConnection Bytes Bytes) : Prop :=
  (∀ n ∈ w.right.filenameForUpload, n = name) ∧ (∀ n ∈ w.right.filesizeForUpload, n = size) ∧
    ∀ raw ∈ w.toRight.head?, ∀ now, ∀ n ∈ w.right.actsOnFilesize scfg
      (.datagram raw (some scfg.clientAddress) now), n = size

/-- What is to hold of a transfer at any moment. -/
def Safe (ccfg : Client.Config) (scfg : Server.Config) (content : Bytes)
    (w : World Client ClientConnection Bytes Bytes) : Prop :=
  match ccfg.task with
  | .upload _ name =>
      Delivers content (w.right.file.elim [] File.written) w.left.workingOn (Reported w) ∧
        GoesBy scfg name w ∧ GoesBySize scfg name content.length w
  | .download _ name =>
      Delivers content w.left.file.written w.right.workingOn (Reported w) ∧ GoesBy scfg name w

theorem delivers_take {content : Bytes} {k : Nat} {working : Option Nat} {reported : Prop}
    (hworking : ∀ n ∈ working, n = k ∨ n = k + 1) (hreported : reported → total content ≤ k)
    (hle : ∀ n ∈ working, n ≤ total content) :
    Delivers content ((chunks content).take k).flatten working reported := by
  rcases Nat.lt_or_ge (total content) k with hk | hk
  · refine ⟨total content, le_refl _, ?_, fun n hn ↦ ?_, fun _ ↦ rfl⟩
    · rw [List.take_of_length_le (le_of_lt hk), List.take_length]
    · have hlast := hle n hn
      rcases hworking n hn with h | h <;> omega
  · exact ⟨k, hk, rfl, hworking, fun h ↦ le_antisymm hk (hreported h)⟩

/-! ## Uploads -/

namespace Upload

variable {ccfg : Client.Config} {scfg : Server.Config} {peer A : Address} {name stored : String}
  {content : Bytes} {r : Round} {c : Client} {d : ClientConnection} {m : Bytes} {now : Time}

theorem Asks.workingOn (h : Asks peer name content r c) {n : Nat} (hn : n ∈ c.workingOn) :
    ∃ i, r = .chunk i ∧ i < total content ∧ n = i + 1 := by
  unfold Client.workingOn at hn
  rw [h.point] at hn
  cases r with
  | start | operation | filename | filesize => cases hn
  | chunk i =>
      rcases chunk_cases content i with hi | hi | hi
      · rw [clientPoint_of_lt peer hi] at hn
        exact ⟨i, rfl, Nat.lt_of_succ_lt hi, (Option.some.inj hn).symm⟩
      · rw [clientPoint_of_last peer hi, h.source] at hn
        exact ⟨i, rfl, by omega, hi ▸ (Option.some.inj hn).symm⟩
      · rw [clientPoint_of_le peer hi] at hn
        cases hn

theorem Quits.workingOn (h : Quits r c) : c.workingOn = none := by
  unfold Client.workingOn
  cases h.leaving with
  | finalizing hp | ended hp => rw [hp]

theorem Stores.written {k : Nat} (h : Stores scfg stored content k d) :
    d.file.elim [] File.written = ((chunks content).take k).flatten := by
  rw [← h.pieces_eq, ClientConnection.pieces]
  cases d.file <;> rfl

/-- Of the copies that can arrive only one of the next request is taken. -/
theorem Answers.goesBy (hname : ∀ n, decodeUtf8 ((encodeUtf8 name).take
      (fullBufferSize - sawProtocolHeaderSize)) = .ok n → n = stored)
    (h : Answers scfg stored content r d) (hm : request name content r m ∨ request name content r.next m)
    {n : String} (hn : n ∈ d.actsOnFilename scfg (.datagram m (some A) now)) : n = stored := by
  cases r with
  | start => exact absurd rfl h.started
  | operation =>
      have hnum : d.sequenceNumber = ⟨0, .stopAndWait⟩ := h.number (by rw [h.point]; simp [serverPoint])
      rcases hm with hm | hm
      · have hnumber := (ClientConnection.actsOnFilename_datagram hm hn).1
        rw [hnum] at hnumber
        cases hnumber
      · exact hname n (ClientConnection.actsOnFilename_datagram hm hn).2
  | filename | filesize =>
      rw [ClientConnection.actsOnFilename, h.point] at hn
      cases hn
  | chunk i =>
      rw [ClientConnection.actsOnFilename, h.point] at hn
      rcases chunk_cases content i with hi | hi | hi
      · rw [serverPoint_of_lt stored hi] at hn
        cases hn
      · rw [serverPoint_of_last stored hi] at hn
        cases hn
      · rw [serverPoint_of_le stored hi] at hn
        cases hn

theorem Answers.goesBySize (h : Answers scfg stored content r d)
    (hm : request name content r m ∨ request name content r.next m) {n : Nat}
    (hn : n ∈ d.actsOnFilesize scfg (.datagram m (some A) now)) : n = content.length := by
  cases r with
  | start => exact absurd rfl h.started
  | filename =>
      have hnum : d.sequenceNumber = ⟨1, .stopAndWait⟩ := h.number (by rw [h.point]; simp [serverPoint])
      rcases hm with hm | hm
      · have hnumber := (ClientConnection.actsOnFilesize_datagram hm hn).1
        rw [hnum] at hnumber
        cases hnumber
      · obtain ⟨hsize, hm⟩ := hm
        rw [(ClientConnection.actsOnFilesize_datagram hm hn).2,
          List.take_of_length_le (by simp [commsBufferSize, sawProtocolHeaderSize])]
        exact BigEndian.fromBytes_toBytes (lt_of_lt_of_eq hsize (by norm_num))
  | operation | filesize =>
      rw [ClientConnection.actsOnFilesize, h.point] at hn
      cases hn
  | chunk i =>
      rw [ClientConnection.actsOnFilesize, h.point] at hn
      rcases chunk_cases content i with hi | hi | hi
      · rw [serverPoint_of_lt stored hi] at hn
        cases hn
      · rw [serverPoint_of_last stored hi] at hn
        cases hn
      · rw [serverPoint_of_le stored hi] at hn
        cases hn

variable {w : World Client ClientConnection Bytes Bytes}

theorem Answers.goes (hname : ∀ n, decodeUtf8 ((encodeUtf8 name).take
      (fullBufferSize - sawProtocolHeaderSize)) = .ok n → n = stored)
    (h : Answers scfg stored content r w.right)
    (htr : ∀ m ∈ w.toRight, request name content r m ∨ request name content r.next m) :
    GoesBy scfg stored w ∧ GoesBySize scfg stored content.length w :=
  ⟨⟨fun f hf ↦ (h.file f hf).1,
      fun m hm _ _ hn ↦ h.goesBy hname (htr m (List.mem_of_mem_head? hm)) hn⟩,
    h.named, h.sized, fun m hm _ _ hn ↦ h.goesBySize (htr m (List.mem_of_mem_head? hm)) hn⟩

/-- A connection that receives neither. -/
theorem Stores.goes {k : Nat} (h : Stores scfg stored content k w.right)
    (hp : w.right.point = .initiateCloseConnection ∨ w.right.point = .ended) :
    GoesBy scfg stored w ∧ GoesBySize scfg stored content.length w := by
  refine ⟨⟨fun f hf ↦ (h.file f hf).1, fun m _ _ n hn ↦ ?_⟩, h.named, h.sized, fun m _ _ n hn ↦ ?_⟩
  · unfold ClientConnection.actsOnFilename at hn
    rcases hp with hp | hp <;> rw [hp] at hn <;> cases hn
  · unfold ClientConnection.actsOnFilesize at hn
    rcases hp with hp | hp <;> rw [hp] at hn <;> cases hn

/-- The rounds of the ends tell what is written and what is worked on. -/
theorem Asks.delivers (h : Asks peer name content r.next w.left) {k : Nat}
    (hk : r.written ≤ k ∧ k ≤ r.next.written) (hw : Stores scfg stored content k w.right)
    (hrep : w.right.reports ≠ [] → total content ≤ k) :
    Delivers content (w.right.file.elim [] File.written) w.left.workingOn (Reported w) := by
  have next : ∀ i, r.next = .chunk i → r.written = i ∧ r.next.written = i + 1 := by
    intro i hi
    rcases Round.eq_of_next_eq_chunk hi with ⟨rfl, rfl⟩ | ⟨j, rfl, rfl⟩
    · exact ⟨rfl, rfl⟩
    · exact ⟨rfl, rfl⟩
  rw [hw.written]
  refine delivers_take (fun n hn ↦ ?_) (fun hr ↦ ?_) fun n hn ↦ ?_
  · obtain ⟨i, hi, -, rfl⟩ := h.workingOn hn
    have hnext := next i hi
    omega
  · rcases hr with hr | hr
    · obtain ⟨i, hi, hle⟩ := h.reports hr
      have hnext := next i hi
      omega
    · exact hrep hr
  · obtain ⟨i, -, hi, rfl⟩ := h.workingOn hn
    exact hi

/-- Nothing is written, and neither end goes on. -/
theorem delivers_nothing {k : Nat} (hleft : w.left.workingOn = none)
    (hreports : w.left.reports = [] ∧ w.right.reports = [])
    (hk : k = 0) (hw : Stores scfg stored content k w.right) :
    Delivers content (w.right.file.elim [] File.written) w.left.workingOn (Reported w) := by
  subst hk
  rw [hw.written, hleft]
  refine delivers_take (fun n hn ↦ (by cases hn)) (fun hr ↦ ?_) fun n hn ↦ (by cases hn)
  exact hr.elim (fun h ↦ absurd hreports.1 h) fun h ↦ absurd hreports.2 h

theorem written_le_next (r : Round) : r.written ≤ r.next.written := by
  cases r with
  | chunk i => exact Nat.le_succ _
  | _ => exact Nat.zero_le _

theorem written_of_next (h : r.next = .filename ∨ r.next = .filesize) : r.written = 0 := by
  cases r with
  | chunk i => rcases h with h | h <;> cases h
  | _ => rfl

theorem safe_of_agrees (h : Setting ccfg scfg name stored content) (hw : (lockstep h).Agrees w) :
    Delivers content (w.right.file.elim [] File.written) w.left.workingOn (Reported w) ∧
      GoesBy scfg stored w ∧ GoesBySize scfg stored content.length w := by
  cases hw with
  | answered r hl hr htr htl =>
      exact ⟨Asks.delivers hl ⟨(written_le_next r), le_refl _⟩ hr.toStores hr.reports,
        hr.goes h.name fun m hm ↦ .inl (htr m hm)⟩
  | asked r hl hr htr htl =>
      exact ⟨Asks.delivers hl ⟨le_refl _, (written_le_next r)⟩ hr.toStores hr.reports,
        hr.goes h.name fun m hm ↦ InOrder.mem htr hm⟩
  | refused r hl hr htr htl =>
      exact ⟨Asks.delivers hl ⟨le_of_eq (written_of_next hr.round), Nat.zero_le _⟩ hr.toStores
        (fun hne ↦ absurd hr.reports hne), hr.toStores.goes (.inl hr.point)⟩
  | silenced r hl hr htr =>
      have hround : r.written = 0 := by
        rcases hl.round with rfl | rfl
        · rfl
        · rfl
      have hreports : w.right.reports = [] := by
        by_contra hne
        exact absurd (hround ▸ hr.reports hne) (Nat.not_le.mpr (total_pos h.nonempty))
      refine ⟨delivers_nothing ?_ ⟨hl.reports, hreports⟩ hround hr.toStores,
        hr.goes h.name fun m hm ↦ .inl (htr m hm)⟩
      rw [Client.workingOn, hl.point]
  | muted r hl hr htl =>
      exact ⟨Asks.delivers hl ⟨le_of_eq (written_of_next (.inl hr.round)), Nat.zero_le _⟩ hr.toStores
        (fun hne ↦ absurd hr.reports hne), hr.toStores.goes (.inr hr.point)⟩
  | halted r hl hr =>
      exact ⟨delivers_nothing hl.workingOn ⟨hl.reports, hr.reports⟩ rfl hr.toStores,
        hr.toStores.goes (hr.point.imp And.left id)⟩

end Upload

/-! ## Downloads -/

namespace Download

variable {ccfg : Client.Config} {scfg : Server.Config} {peer A : Address} {name stored : String}
  {content : Bytes} {disk : Disk} {r : Round} {c : Client} {d : ClientConnection} {m : Bytes}
  {now : Time}

theorem Answers.workingOn (h : Answers scfg stored content disk r d) {n : Nat}
    (hn : n ∈ d.workingOn) : ∃ i, r = .chunk i ∧ i < total content ∧ n = i + 1 := by
  unfold ClientConnection.workingOn at hn
  rw [h.point] at hn
  cases r with
  | start | operation => cases hn
  | chunk i =>
      rcases Nat.lt_trichotomy (i + 1) (total content) with hi | hi | hi
      · rw [serverPoint_of_lt hi] at hn
        exact ⟨i, rfl, Nat.lt_of_succ_lt hi, (Option.some.inj hn).symm⟩
      · rw [serverPoint_of_last hi] at hn
        obtain ⟨f, hf, rfl⟩ := Option.mem_map.mp hn
        rw [(h.reads f hf).2]
        exact ⟨i, rfl, by omega, hi.symm⟩
      · rw [serverPoint_of_le (Nat.le_of_lt_succ hi)] at hn
        cases hn

theorem Answers.goesBy (hname : ∀ n, decodeUtf8 ((encodeUtf8 name).take
      (fullBufferSize - sawProtocolHeaderSize)) = .ok n → n = stored)
    (h : Answers scfg stored content disk r d)
    (hm : request name content r m ∨ request name content r.next m) {n : String}
    (hn : n ∈ d.actsOnFilename scfg (.datagram m (some A) now)) : n = stored := by
  cases r with
  | start => exact absurd rfl h.started
  | operation =>
      have hnum : d.sequenceNumber = ⟨0, .stopAndWait⟩ := h.number (by rw [h.point]; simp [serverPoint])
      rcases hm with hm | hm
      · have hnumber := (ClientConnection.actsOnFilename_datagram hm hn).1
        rw [hnum] at hnumber
        cases hnumber
      · exact hname n (ClientConnection.actsOnFilename_datagram hm hn).2
  | chunk i =>
      rw [ClientConnection.actsOnFilename, h.point] at hn
      rcases Nat.lt_trichotomy (i + 1) (total content) with hi | hi | hi
      · rw [serverPoint_of_lt hi] at hn
        cases hn
      · rw [serverPoint_of_last hi] at hn
        cases hn
      · rw [serverPoint_of_le (Nat.le_of_lt_succ hi)] at hn
        cases hn

variable {w : World Client ClientConnection Bytes Bytes}

theorem Answers.goes (hname : ∀ n, decodeUtf8 ((encodeUtf8 name).take
      (fullBufferSize - sawProtocolHeaderSize)) = .ok n → n = stored)
    (h : Answers scfg stored content disk r w.right)
    (htr : ∀ m ∈ w.toRight, request name content r m ∨ request name content r.next m) :
    GoesBy scfg stored w :=
  ⟨fun f hf ↦ (h.reads f hf).1,
    fun m hm _ _ hn ↦ h.goesBy hname (htr m (List.mem_of_mem_head? hm)) hn⟩

/-- A connection that does not receive a name. -/
theorem Reads.goes (h : Reads scfg stored content w.right)
    (hp : w.right.point = .initiateCloseConnection ∨ w.right.point = .ended) :
    GoesBy scfg stored w := by
  refine ⟨fun f hf ↦ (h f hf).1, fun m _ _ n hn ↦ ?_⟩
  unfold ClientConnection.actsOnFilename at hn
  rcases hp with hp | hp <;> rw [hp] at hn <;> cases hn

/-- What a client has written when it asks. -/
theorem Asks.delivers (h : Asks peer name content r w.left)
    (hworking : ∀ n ∈ w.right.workingOn, n = r.written ∨ n = r.written + 1)
    (hle : ∀ n ∈ w.right.workingOn, n ≤ total content)
    (hrep : w.right.reports ≠ [] → total content ≤ r.written) :
    Delivers content w.left.file.written w.right.workingOn (Reported w) := by
  rw [File.written, h.pieces]
  exact delivers_take hworking (fun hr ↦ hr.elim h.reports hrep) hle

/-- Nothing is written, and the connection sends no chunk. -/
theorem delivers_nothing (hleft : w.left.file.pieces = []) (hright : w.right.workingOn = none)
    (hreports : w.left.reports = [] ∧ w.right.reports = []) :
    Delivers content w.left.file.written w.right.workingOn (Reported w) := by
  rw [File.written, hleft, hright]
  refine ⟨0, Nat.zero_le _, rfl, fun n hn ↦ (by cases hn), fun hr ↦ ?_⟩
  exact hr.elim (fun h ↦ absurd hreports.1 h) fun h ↦ absurd hreports.2 h

theorem workingOn_of_closing (hp : d.point = .initiateCloseConnection ∨ d.point = .ended) :
    d.workingOn = none := by
  unfold ClientConnection.workingOn
  rcases hp with hp | hp <;> rw [hp]

theorem safe_of_agrees (h : Setting ccfg scfg name stored content disk)
    (hw : (lockstep h).Agrees w) :
    Delivers content w.left.file.written w.right.workingOn (Reported w) ∧ GoesBy scfg stored w := by
  cases hw with
  | answered r hl hr htr htl =>
      refine ⟨Asks.delivers hl (fun n hn ↦ ?_) (fun n hn ↦ ?_) fun hne ↦ ?_,
        hr.goes h.name fun m hm ↦ .inl (htr m hm)⟩
      · obtain ⟨i, hi, -, rfl⟩ := Answers.workingOn hr hn
        exact .inr (by rw [show (lockstep h).next r = .chunk i from hi]; rfl)
      · obtain ⟨i, -, hi, rfl⟩ := Answers.workingOn hr hn
        exact hi
      · obtain ⟨i, hi, hle⟩ := hr.reports hne
        rw [show (lockstep h).next r = .chunk i from hi]
        exact hle
  | asked r hl hr htr htl =>
      refine ⟨Asks.delivers hl (fun n hn ↦ ?_) (fun n hn ↦ ?_) fun hne ↦ ?_,
        hr.goes h.name fun m hm ↦ InOrder.mem htr hm⟩
      · obtain ⟨i, rfl, -, rfl⟩ := Answers.workingOn hr hn
        exact .inl rfl
      · obtain ⟨i, -, hi, rfl⟩ := Answers.workingOn hr hn
        exact hi
      · obtain ⟨i, rfl, hle⟩ := hr.reports hne
        exact Nat.le_succ_of_le hle
  | refused r hl hr htr htl =>
      have hnone := workingOn_of_closing (.inl hr.point)
      refine ⟨Asks.delivers hl ?_ ?_ fun hne ↦ absurd hr.reports hne, Reads.goes hr.reads (.inl hr.point)⟩
      · rw [hnone]
        exact fun n hn ↦ (by cases hn)
      · rw [hnone]
        exact fun n hn ↦ (by cases hn)
  | silenced r hl hr htr =>
      obtain rfl := hl.round
      have hreports : w.right.reports = [] := by
        by_contra hne
        obtain ⟨i, hi, -⟩ := hr.reports hne
        cases hi
      refine ⟨delivers_nothing hl.pieces ?_ ⟨hl.reports, hreports⟩,
        hr.goes h.name fun m hm ↦ .inl (htr m hm)⟩
      rw [ClientConnection.workingOn, hr.point]
      rfl
  | muted r hl hr htl =>
      have hnone := workingOn_of_closing (.inr hr.point)
      refine ⟨Asks.delivers hl ?_ ?_ fun hne ↦ absurd hr.reports hne, Reads.goes hr.reads (.inr hr.point)⟩
      · rw [hnone]
        exact fun n hn ↦ (by cases hn)
      · rw [hnone]
        exact fun n hn ↦ (by cases hn)
  | halted r hl hr =>
      have hpoint := hr.point.imp And.left id
      exact ⟨delivers_nothing hl.pieces (workingOn_of_closing hpoint) ⟨hl.reports, hr.reports⟩,
        Reads.goes hr.reads hpoint⟩

end Download

/-! ## Every run -/

/-- The name on the command line -/
def filename (ccfg : Client.Config) : String :=
  match ccfg.task with
  | .upload _ name | .download _ name => name

/-- What the receive buffer holds of the name is the name, or no text at all. -/
def Fits (name : String) : Prop :=
  ∀ n, decodeUtf8 ((encodeUtf8 name).take (fullBufferSize - sawProtocolHeaderSize)) = .ok n → n = name

/-- Of a name that fits, in every run. -/
theorem safe_of_fits (ccfg : Client.Config) (scfg : Server.Config) (disk : Disk) (c : Client)
    (content : Bytes) (w w' : World Client ClientConnection Bytes Bytes) (hcontent : content ≠ [])
    (hfits : Fits (filename ccfg)) (hfile : Transfers ccfg scfg disk c content)
    (hstart : Starts ccfg scfg disk c w)
    (hrun : (system .fifo (Client.patientNode ccfg scfg.address)
      (ClientConnection.patientNode scfg)).Reaches w w') : Safe ccfg scfg content w' := by
  cases htask : ccfg.task with
  | upload src name =>
      have hname : filename ccfg = name := by rw [filename, htask]
      have hsource : c.file.content = content := by simpa [Transfers, htask] using hfile
      have hsetting : Upload.Setting ccfg scfg name name content :=
        ⟨hstart.client.proto, hstart.connection.proto, ⟨src, htask⟩, hcontent, hname ▸ hfits⟩
      have hsafe := Upload.safe_of_agrees hsetting
        ((hsetting.starts hsource hstart).agrees.run hrun)
      simpa [Safe, htask] using hsafe
  | download destination name =>
      have hname : filename ccfg = name := by rw [filename, htask]
      obtain ⟨hpieces, hread⟩ : c.file.pieces = [] ∧ _ := by simpa [Transfers, htask] using hfile
      have hsetting : Download.Setting ccfg scfg name name content disk :=
        ⟨hstart.client.proto, hstart.connection.proto, ⟨destination, htask⟩, hcontent, hread,
          hname ▸ hfits⟩
      have hsafe := Download.safe_of_agrees hsetting
        ((hsetting.starts hpieces hstart).agrees.run hrun)
      simpa [Safe, htask] using hsafe

namespace Local

def uploaderOf (name : String) : Client.Config := { uploader with task := .upload "notes.txt" name }

def shakenUploader : Client := Client.init uploader (.forReading "notes.txt" (some "notes.txt") [7]) (fun _ ↦ none) 0

/-- The thread of a connection starts, with its ACK in flight; the client has asked for it. -/
def upload : World Client ClientConnection Bytes Bytes :=
  ⟨streams.client, streams.connection, [], streams.connection.outbox.to connection.clientAddress⟩

/-- The name is not sent yet. -/
theorem sendOperationIntention_uploaderOf (name : String) :
    Client.sendOperationIntention (uploaderOf name) = Client.sendOperationIntention uploader := rfl

theorem operation_sent : Client.sendOperationIntention uploader 0 connection.address uploadOperation
    shakenUploader = .ok streams.client := rfl

theorem upload_starts (name : String) :
    Starts (uploaderOf name) connection (fun _ ↦ none) shakenUploader upload where
  client := ⟨rfl, rfl, rfl, rfl, 0, streams.client,
    (congrArg (fun send ↦ send 0 connection.address uploadOperation shakenUploader)
      (sendOperationIntention_uploaderOf name)).trans operation_sent, rfl⟩
  connection := ⟨rfl, ⟨[48, 0, 19, 137, 0, 2, 0, 2], rfl, by decide +kernel⟩, 0, rfl⟩
  toRight := rfl
  toLeft := ⟨[], fun _ h ↦ absurd h List.not_mem_nil, rfl⟩

def twoChunks : Bytes := List.replicate 1427 7

def downloader : Client.Config := { uploader with task := .download "notes.txt" "notes.txt" }

def downloadConnection : Server.Config :=
  { connection with initialPacket :=
      ⟨.stopAndWait, 1, true, false, false, 5001, 2, BigEndian.toBytes 2 downloadOperation, none⟩ }

/-- The client before it sends its operation -/
def shaken : Client := Client.init downloader (.forWriting "notes.txt" (some "notes.txt")) (fun _ ↦ none) 0

/-- The thread of the connection starts, with its ACK in flight. -/
def download : World Client ClientConnection Bytes Bytes :=
  let thread := ClientConnection.start downloadConnection (fun _ ↦ some twoChunks) 0
  ⟨Client.swallow (Client.sendOperationIntention downloader 0 connection.address downloadOperation
    shaken), thread, [], thread.outbox.to connection.clientAddress⟩

theorem download_starts :
    Starts downloader downloadConnection (fun _ ↦ some twoChunks) shaken download where
  client := ⟨rfl, rfl, rfl, rfl, 0, download.left, rfl, rfl⟩
  connection := ⟨rfl, ⟨[48, 0, 19, 137, 0, 2, 0, 1], rfl, by decide +kernel⟩, 0, rfl⟩
  toRight := rfl
  toLeft := ⟨[], fun _ h ↦ absurd h List.not_mem_nil, rfl⟩

theorem download_transfers :
    Transfers downloader downloadConnection (fun _ ↦ some twoChunks) shaken twoChunks :=
  ⟨rfl, fun _ _ _ hf ↦ (Option.some.inj (FileHandler.openFileReadMode_eq_ok hf).2).symm⟩

/-- A download of two chunks, each datagram taken as it comes -/
def promptly : List Turn :=
  [.clientTakes 0, .connectionTakes 0, .clientTakes 0, .connectionTakes 0, .clientTakes 0,
    .connectionTakes 0, .connectionTakes 0, .clientTakes 0]

/-- So an upload of one chunk: the name, the size and the chunk with FIN, and their answers. -/
def promptUpload : List Turn :=
  [.clientTakes 0, .connectionTakes 0, .clientTakes 0, .connectionTakes 0, .clientTakes 0,
    .connectionTakes 0, .clientTakes 0, .clientTakes 0, .connectionTakes 0]

theorem promptUpload_played : (promptUpload.foldlM (turn (uploaderOf "notes.txt") connection)
    upload.journaled).any fun w ↦ decide (w.right.1.file.elim [] File.written = [7] ∧
      w.left.1.reports = [.uploadCompleted]) := by decide +kernel

theorem promptly_delivered : (promptly.foldlM (turn downloader downloadConnection)
    download.journaled).any fun w ↦ decide (w.left.1.file.written = twoChunks ∧
      w.left.1.reports = [.downloadCompleted]) := by decide +kernel

end Local

/-- An upload and a download, played until the file is there and completion is reported -/
theorem safe_notes :
    (∃ w, w.right.file.elim [] File.written = [7] ∧ w.left.reports = [.uploadCompleted] ∧
      Safe (Local.uploaderOf "notes.txt") Local.connection [7] w) ∧
    ∃ w, w.left.file.written = Local.twoChunks ∧ w.left.reports = [.downloadCompleted] ∧
      Safe Local.downloader Local.downloadConnection Local.twoChunks w := by
  obtain ⟨u, hu, hdone⟩ := (Option.any_eq_true _ _).mp Local.promptUpload_played
  obtain ⟨d, hd, hdone'⟩ := (Option.any_eq_true _ _).mp Local.promptly_delivered
  obtain ⟨hwritten, hreports⟩ := of_decide_eq_true hdone
  obtain ⟨hwritten', hreports'⟩ := of_decide_eq_true hdone'
  have hfits : Fits "notes.txt" := fun _ ↦ eq_of_decodeUtf8_take (by decide +kernel)
  refine ⟨⟨u.forget, hwritten, hreports, ?_⟩, ⟨d.forget, hwritten', hreports', ?_⟩⟩
  · exact safe_of_fits (Local.uploaderOf "notes.txt") Local.connection (fun _ ↦ none)
      Local.shakenUploader [7] Local.upload u.forget (by decide) hfits rfl
      (Local.upload_starts "notes.txt") (Run.forget (run_of_turns hu)).reaches
  · exact safe_of_fits Local.downloader Local.downloadConnection (fun _ ↦ some Local.twoChunks)
      Local.shaken Local.twoChunks Local.download d.forget (by decide) hfits Local.download_transfers
      Local.download_starts (Run.forget (run_of_turns hd)).reaches

/-! ## A name that does not fit -/

namespace Local

/-- A path in as many nested directories -/
def nested : Nat → String
  | 0 => "xy"
  | n + 1 => nested n ++ "/a"

theorem encodeUtf8_append (s t : String) : encodeUtf8 (s ++ t) = encodeUtf8 s ++ encodeUtf8 t := by
  simp [encodeUtf8]

theorem length_nested (n : Nat) : (encodeUtf8 (nested n)).length = 2 + 2 * n := by
  induction n with
  | zero => decide +kernel
  | succ n ih =>
      rw [nested, encodeUtf8_append, List.length_append, ih,
        show (encodeUtf8 "/a").length = 2 by decide +kernel]
      omega

theorem nested_take (n k : Nat) :
    (encodeUtf8 (nested (n + k))).take (2 + 2 * n) = encodeUtf8 (nested n) := by
  induction k with
  | zero =>
      rw [Nat.add_zero, ← length_nested]
      exact List.take_length
  | succ k ih =>
      rw [← Nat.add_assoc, nested, encodeUtf8_append, List.take_append_of_le_length, ih]
      rw [length_nested]
      omega

/-- Its encoding has 3202 bytes, of which the receive buffer holds 3066. -/
theorem received_nested : decodeUtf8 ((encodeUtf8 (nested 1600)).take
    (fullBufferSize - sawProtocolHeaderSize)) = .ok (nested 1532) :=
  (congrArg decodeUtf8 (nested_take 1532 68)).trans (decodeUtf8_encodeUtf8 _)

end Local

/-- The client takes the ACK, and sends the whole of its name. -/
theorem Local.sends_name {name stored : String} (hlong : (encodeUtf8 name).length < 2 ^ 16)
    (hname : ∀ n, decodeUtf8 ((encodeUtf8 name).take (fullBufferSize - sawProtocolHeaderSize)) = .ok n →
      n = stored) :
    ∃ w' raw, (system .fifo (Client.patientNode (Local.uploaderOf name) Local.connection.address)
        (ClientConnection.patientNode Local.connection)).Reaches Local.upload w' ∧
      w'.right = Local.upload.right ∧ w'.toRight = [raw] ∧
      Carries raw 0 false false (encodeUtf8 name) := by
  have hsetting : Upload.Setting (Local.uploaderOf name) Local.connection name stored [7] :=
    ⟨rfl, rfl, ⟨_, rfl⟩, by decide, hname⟩
  have hstarts := Local.upload_starts name
  obtain ⟨-, ack, hack, hout⟩ := hsetting.connection_starts hstarts.client hstarts.connection
  have htoLeft : Local.upload.toLeft = [ack] :=
    (congrArg (Outbox.to · Local.connection.clientAddress) hout).trans (Outbox.to_cons_self ..)
  have hasks := hsetting.client_starts rfl hstarts.client
  have hev : ∀ now, Upload.Asks Local.connection.address name [7] .filename (Client.step _ _
      (.datagram ack (some Local.connection.address) now)) ∧ _ ∨ _ := fun now ↦
    hasks.operation_confirmed hsetting.client Local.connection.portBound rfl hack
  obtain ⟨-, raw, hraw, hsent⟩ := (hev 0).resolve_right fun h ↦ absurd h.1 (not_le.mpr hlong)
  obtain ⟨packet, -, -, -, hc⟩ := check_confirmation (A := Local.connection.address)
    (s := Local.upload.left.sequenceNumber) hack
  have hok : (ClientProtocol.validateConfirmation Local.upload.left.sequenceNumber none
      (ack.take commsBufferSize) (some Local.connection.address)).map Prod.fst = .ok packet := by
    simpa [hasks.number, Upload.Round.number] using hc
  refine ⟨⟨_, Local.upload.right, [raw], []⟩, raw, Lts.Run.single trivial (.leftTakes (m := ack) (q := [])
    (by rw [htoLeft]; exact .head ack []) ⟨_, .inl ⟨0, rfl⟩, ?_, Prod.ext rfl hsent⟩), rfl, rfl, hraw⟩
  have hlistened : reListenIfFailed ((ClientProtocol.waitForOperationConfirmation
      Local.upload.left.sequenceNumber none).letThrough [.unexpectedFinMessage]) Local.upload.left.socket
      Local.upload.left.listening (.datagram ack (some Local.connection.address) 0) =
        .returned packet := reListen_accepts hok
  show (Client.listened (Local.uploaderOf name) Local.upload.left
    (.datagram ack (some Local.connection.address) 0)).gaveUp = false
  rw [Client.listened, hasks.point, hasks.ack]
  show (reListenIfFailed _ _ _ _).void.gaveUp = false
  rw [hlistened]
  rfl

/-- The connection goes by the beginning of the name. -/
theorem not_safe_nested : ∃ w', (system .fifo
      (Client.patientNode (Local.uploaderOf (Local.nested 1600)) Local.connection.address)
      (ClientConnection.patientNode Local.connection)).Reaches
        Local.upload w' ∧
    Starts (Local.uploaderOf (Local.nested 1600)) Local.connection (fun _ ↦ none)
      Local.shakenUploader Local.upload ∧
    Transfers (Local.uploaderOf (Local.nested 1600)) Local.connection (fun _ ↦ none)
      Local.shakenUploader [7] ∧
    ¬Safe (Local.uploaderOf (Local.nested 1600)) Local.connection [7] w' := by
  obtain ⟨w', raw, hrun, hright, htoRight, hraw⟩ := Local.sends_name
    (by rw [Local.length_nested]; decide) fun n hn ↦ Except.ok.inj (hn.symm.trans Local.received_nested)
  refine ⟨w', hrun, Local.upload_starts _, rfl, fun hsafe ↦ ?_⟩
  have hcheck := check_receiveFilename (A := Local.connection.clientAddress)
    (s := Local.upload.right.sequenceNumber) .stopAndWait hraw
  rw [Local.received_nested] at hcheck
  have htaken : Local.nested 1532 ∈ w'.right.actsOnFilename Local.connection
      (.datagram raw (some Local.connection.clientAddress) 0) := by
    have hlistened : reListenIfFailed (ServerProtocol.receiveFilename Local.connection.protocolVersion
        Local.upload.right.sequenceNumber) Local.upload.right.socket Local.upload.right.listening
        (.datagram raw (some Local.connection.clientAddress) 0) =
          .returned (⟨0, .stopAndWait⟩, Local.nested 1532) := reListen_accepts hcheck
    rw [hright, ClientConnection.actsOnFilename]
    show (reListenIfFailed _ _ _ _).result.map Prod.snd = _
    rw [hlistened]
    rfl
  have hname := hsafe.2.1.2 raw (by rw [htoRight]; rfl) 0 (Local.nested 1532) htaken
  have hlength := congrArg (fun n ↦ (encodeUtf8 n).length) hname
  simp only [Local.length_nested] at hlength
  omega

end Saw

end Rdt
