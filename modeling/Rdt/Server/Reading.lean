import Rdt.Server.Storage

/-!
# Files being read

The file a download reads is, from the moment it is opened, the one that was stored.
-/

namespace Rdt.Server.ClientConnection

open PacketParser ServerProtocol

variable {cfg : Config} {disk d : Disk} {c c' : ClientConnection} {ev : Event} {now : Time}

/-- The storage is `d`, and of a file opened the connection has what is stored there. -/
structure Reads (d : Disk) (c : ClientConnection) : Prop where
  disk : c.disk = d
  content : ∀ file, c.file = some file → file.node.bind d = some file.content

/-- A stretch of `run` that goes on has the same file. -/
def Serves (d : Disk) : Exec → Prop
  | .ok c' => c'.Reads d
  | .error _ => True

theorem Serves.send {isAck isFin : Bool} {data : Bytes} {k : ClientConnection → Exec}
    (hk : ∀ raw, Serves d (k (handed cfg c raw))) :
    Serves d ((ClientConnection.send cfg c isAck isFin data).bind k) := by
  rw [ClientConnection.send_eq_encode]
  cases Protocol.encode cfg.protocolVersion c.sequenceNumber c.ackNumber isAck false isFin
      cfg.address.port data with
  | ok raw => exact hk raw
  | error e => trivial

/-! ## Going on after a receive -/

theorem completeDownload_serves (h : c.Reads d) : Serves d (completeDownload cfg c) :=
  Serves.send fun _ ↦ ⟨h.disk, h.content⟩

theorem closingHandshakeForDownload_serves (h : c.Reads d) (now : Time) (alreadyReceivedFinBack : Bool) :
    Serves d (closingHandshakeForDownload cfg now alreadyReceivedFinBack c) := by
  cases alreadyReceivedFinBack with
  | true => exact completeDownload_serves h
  | false => exact ⟨h.disk, h.content⟩

theorem transmitFile_serves (h : c.Reads d) (now : Time) (total : Nat) (remaining : List Bytes)
    (n : Nat) (isFirst : Bool) : Serves d (transmitFile cfg now total remaining n isFirst c) := by
  induction remaining generalizing c n isFirst with
  | nil => exact closingHandshakeForDownload_serves h now false
  | cons chunk remaining ih =>
      have hstep : (if isFirst = true then c else c.stepSequence).Reads d := by
        cases isFirst <;> exact ⟨h.disk, h.content⟩
      refine Serves.send fun raw ↦ ?_
      have hsent : (handed cfg (if isFirst = true then c else c.stepSequence) raw).Reads d :=
        ⟨hstep.disk, hstep.content⟩
      split
      · exact ih hsent (n + 1) false
      · exact ⟨hstep.disk, hstep.content⟩

variable (cfg) in
theorem onFilenameForDownload_serves (h : c.disk = d) (now : Time) (r : SequenceNumber × String) :
    Serves d (onFilenameForDownload cfg now c r) := by
  unfold onFilenameForDownload
  dsimp only
  split
  · rename_i file ho
    obtain ⟨⟨-, hnode⟩, hcontent⟩ := FileHandler.openFileReadMode_eq_ok ho
    have hstored : file.node.bind d = some file.content := by
      rw [← h, hnode]
      exact hcontent
    have hreads : ∀ file' : File, file'.node = file.node → file'.content = file.content →
        ∀ f, some file' = some f → f.node.bind d = some f.content := by
      rintro file' hnode' hcontent' _ ⟨⟩
      rw [hnode', hcontent', hstored]
    split
    · refine transmitFile_serves ?_ now _ _ 1 true
      exact ⟨h, hreads file rfl rfl⟩
    · refine Serves.send fun raw ↦ ?_
      split
      · exact ⟨h, hreads _ rfl rfl⟩
      · exact ⟨h, hreads _ rfl rfl⟩
  · split
    · exact Serves.send fun _ ↦ trivial
    · trivial

variable (cfg) in
theorem onSender_serves (h : c.Reads d) (now : Time) (r : GoBackNSender.Result) :
    Serves d (onSender cfg now c r) := by
  cases r with
  | running s sent => exact ⟨h.disk, h.content⟩
  | raised e => trivial
  | returned s =>
      refine closingHandshakeForDownload_serves ?_ now _
      refine ⟨h.disk, fun file hfile ↦ ?_⟩
      obtain ⟨opened, hopened, rfl⟩ := Option.map_eq_some_iff.mp hfile
      exact h.content opened hopened

theorem readChunks_file (n : Nat) (file : File) :
    (GoBackNSender.readChunks n file).2.node = file.node ∧
      (GoBackNSender.readChunks n file).2.content = file.content := by
  induction n generalizing file with
  | zero => exact ⟨rfl, rfl⟩
  | succ n ih => exact ih (FileHandler.read file fileChunkSizeGbn).2

theorem splitFileInChunksServer_file (file : File) (size : Nat) :
    (GoBackNSender.splitFileInChunksServer file size).2.node = file.node ∧
      (GoBackNSender.splitFileInChunksServer file size).2.content = file.content :=
  readChunks_file _ _

variable (cfg) in
theorem onFirstPacketAck_serves (h : c.Reads d) (now : Time) : Serves d (onFirstPacketAck cfg now c) := by
  unfold onFirstPacketAck
  split
  · rename_i file ackNumber hfile hack
    refine onSender_serves cfg ?_ now _
    refine ⟨h.disk, fun f hf ↦ ?_⟩
    obtain ⟨hnode, hcontent⟩ := splitFileInChunksServer_file file file.content.length
    simp only [GoBackNSender.splitFileInChunksServer] at hnode hcontent
    rw [← Option.some.inj hf, hnode, hcontent]
    exact h.content file hfile
  · exact h

/-! ## One event -/

theorem listen_serves {α : Type} {op : Operation α} {k : ClientConnection → α → Exec} (h : c.Reads d)
    (hk : ∀ a, Serves d (k c a)) : Serves d (listen c op ev (onSuccess k)) := by
  unfold listen
  cases reListenIfFailed op c.socket c.listening ev with
  | listening r b => exact ⟨h.disk, h.content⟩
  | returned a => exact hk a
  | raised e b => trivial

theorem listenSender_serves (h : c.Reads d) (sender : GoBackNSender) (ev : Event) :
    Serves d (listenSender cfg sender c ev) := by
  unfold listenSender
  split
  · split
    · exact h
    · exact onSender_serves cfg h ev.now _
  · split
    · exact onSender_serves cfg h _ _
    · exact h

theorem onEvent_serves (hp : c.phase = .transmitting) (h : c.Reads d) (ev : Event) :
    Serves d (onEvent cfg c ev) := by
  unfold onEvent
  cases hpoint : c.point with
  | receiveFilenameForDownload =>
      exact listen_serves h fun r ↦ onFilenameForDownload_serves cfg h.disk ev.now r
  | waitForChunkAck remaining chunkNumber totalChunks =>
      exact listen_serves h fun _ ↦ transmitFile_serves h ev.now totalChunks remaining chunkNumber false
  | waitForFirstPacketAck => exact listen_serves h fun _ ↦ onFirstPacketAck_serves cfg h ev.now
  | sendFileGbn sender => exact listenSender_serves h sender ev
  | closingHandshakeForDownload => exact listen_serves h fun _ ↦ completeDownload_serves h
  | receiveFilenameForUpload | receiveFilesize filename | receiveFileChunk | receiveFileGbn receiver
  | closingHandshakeForUpload | initiateCloseConnection | ended =>
      rw [phase, hpoint] at hp
      cases hp

/-- What an exception leaves is no download any more. -/
theorem Serves.handle {x : Exec} (h : Serves d x) (now : Time)
    (hp : (ClientConnection.handle cfg now x).phase = .transmitting) :
    (ClientConnection.handle cfg now x).Reads d := by
  cases x with
  | ok c' => exact h
  | error e =>
      rcases (handle_error_kept now e.2 e.1).1 with hphase | hphase <;> cases hphase.symm.trans hp

/-! ## Runs -/

theorem Does.transmitting (hd : Does cfg c ev c') (hp : c'.phase = .transmitting) :
    c.phase = .transmitting := by
  cases hd with
  | waits hphase => exact hphase.symm.trans hp
  | opens _ _ hphase | accepts _ _ hphase | appends _ _ hphase | finishes _ _ _ hphase
  | completes _ hphase | fails _ _ _ hphase => cases hphase.symm.trans hp
  | refuses _ hphase => rcases hphase with hphase | hphase <;> cases hphase.symm.trans hp
  | transmits hp => exact hp

theorem reads_step (h : c.phase = .transmitting → c.Reads d) (hf : c.phase.Uploads → Fits cfg c)
    (hp : (step cfg c ev).phase = .transmitting) : (step cfg c ev).Reads d := by
  have hbefore := (step_does hf ev).transmitting hp
  have hne : c.point ≠ .initiateCloseConnection := by
    intro hpoint
    rw [phase, hpoint] at hbefore
    cases hbefore
  rw [step_eq_handle hne] at hp ⊢
  refine (onEvent_serves (c := { c with outbox := [] }) hbefore ?_ ev).handle ev.now hp
  exact ⟨(h hbefore).disk, (h hbefore).content⟩

/-- A download reads what was stored. -/
theorem run_reads (cfg : Config) (disk : Disk) (now : Time) (es : List Event)
    (hp : (run cfg disk now es).phase = .transmitting) : (run cfg disk now es).Reads disk := by
  have key : ((run cfg disk now es).phase.Uploads → Fits cfg (run cfg disk now es)) ∧
      ((run cfg disk now es).phase = .transmitting → (run cfg disk now es).Reads disk) := by
    clear hp
    induction es using List.reverseRecOn with
    | nil =>
        have hstarts : Starts cfg disk (run cfg disk now []) := starts cfg disk now
        refine ⟨hstarts.fits, fun _ ↦ ⟨congrArg Store.disk hstarts.store, fun file hfile ↦ ?_⟩⟩
        cases hfile.symm.trans (congrArg Store.file hstarts.store)
    | append_singleton es ev ih =>
        have hrun : run cfg disk now (es ++ [ev]) = step cfg (run cfg disk now es) ev := by simp [run]
        rw [hrun]
        exact ⟨(step_does ih.1 ev).fits ih.1, reads_step ih.2 ih.1⟩
  exact key.2 hp

end Rdt.Server.ClientConnection
