import Rdt.Lib.Transition
import Rdt.Server.Uploading

/-!
# Uploads that complete and uploads that fail

When a completed upload has all its bytes, and when a failed one leaves nothing behind.
-/

namespace Rdt.Server.ClientConnection

open PacketParser ServerProtocol

variable {cfg : Config} {disk : Disk} {c c' : ClientConnection} {ev : Event}

/-- A connection after a sequence of events. -/
def run (cfg : Config) (disk : Disk) (now : Time) (es : List Event) : ClientConnection :=
  es.foldl (step cfg) (start cfg disk now)

/-! ## The start -/

/-- Where `run` gets before its first receive, the storage untouched. -/
structure Starts (cfg : Config) (disk : Disk) (c : ClientConnection) : Prop where
  phase : c.phase ≠ .closing ∧ c.phase ≠ .receiving ∧ ∀ name, c.phase ≠ .sizing name
  store : c.store = ⟨none, disk, none, none⟩
  reports : c.reports = []
  fits : c.phase.Uploads → Fits cfg c

theorem starts_phase {p : Phase}
    (h : p = .naming ∨ p = .refusing ∨ p = .transmitting ∨ p = .halted) :
    p ≠ .closing ∧ p ≠ .receiving ∧ ∀ name, p ≠ .sizing name := by
  rcases h with rfl | rfl | rfl | rfl <;> simp

theorem Starts.handle_error {now : Time} {e : Exn} (hstore : c.store = ⟨none, disk, none, none⟩)
    (hrep : c.reports = []) : Starts cfg disk (handle cfg now (.error (e, c))) := by
  obtain ⟨hphase, hkept, hreports, -⟩ := handle_error_kept now c e
  refine ⟨?_, (hkept (congrArg Store.filenameForUpload hstore)).trans hstore, hreports.trans hrep, ?_⟩
  · exact starts_phase (hphase.elim (fun h ↦ .inr (.inl h)) fun h ↦ .inr (.inr (.inr h)))
  · rcases hphase with h | h <;> rw [h] <;> exact False.elim

/-- `process_operation_intention` and what follows it up to the first receive -/
theorem Starts.operation (now : Time) (hstore : c.store = ⟨none, disk, none, none⟩)
    (hrep : c.reports = []) (hack : cfg.protocolVersion = .goBackN → ∃ n, c.ackNumber = some n) :
    Starts cfg disk (handle cfg now (processOperationIntention cfg now c)) := by
  unfold processOperationIntention
  split
  · exact Starts.handle_error hstore hrep
  · split
    · simp only [sendAck, ClientConnection.send_eq_encode]
      cases Protocol.encode cfg.protocolVersion c.sequenceNumber c.ackNumber true false false
          cfg.address.port [] with
      | error e => exact Starts.handle_error hstore hrep
      | ok raw =>
          refine ⟨starts_phase (.inl rfl), hstore, hrep, fun _ ↦ ⟨fun h ↦ ?_, fun _ h ↦ by cases h⟩⟩
          obtain ⟨n, hn⟩ := hack h
          exact ⟨SequenceNumber.step_value_lt _, n.step, congrArg (Option.map SequenceNumber.step) hn,
            SequenceNumber.step_value_lt n⟩
    · simp only [sendAck, ClientConnection.send_eq_encode]
      cases Protocol.encode cfg.protocolVersion c.sequenceNumber c.ackNumber true false false
          cfg.address.port [] with
      | error e => exact Starts.handle_error hstore hrep
      | ok raw => exact ⟨starts_phase (.inr (.inr (.inl rfl))), hstore, hrep, False.elim⟩

theorem starts (cfg : Config) (disk : Disk) (now : Time) : Starts cfg disk (start cfg disk now) := by
  unfold start
  dsimp only
  split
  · rename_i hproto
    exact Starts.operation now rfl rfl fun h ↦ absurd (hproto.symm.trans h) nofun
  · split
    · exact ⟨starts_phase (.inr (.inr (.inr rfl))), rfl, rfl, False.elim⟩
    · exact Starts.operation now rfl rfl fun _ ↦ ⟨_, rfl⟩

/-- Packets can be composed as long as an upload is under way. -/
theorem Does.fits (hd : Does cfg c ev c') (hf : c.phase.Uploads → Fits cfg c) :
    c'.phase.Uploads → Fits cfg c' := by
  cases hd with
  | waits hphase _ _ hfits => exact fun h ↦ hfits (hf (hphase ▸ h))
  | opens _ _ _ _ _ hfits | accepts _ _ _ _ _ hfits | appends _ _ _ _ _ hfits => exact fun _ ↦ hfits
  | finishes _ _ _ hphase | completes _ hphase | fails _ _ _ hphase =>
      rw [hphase]
      exact False.elim
  | refuses _ hphase => rcases hphase with h | h <;> rw [h] <;> exact False.elim
  | transmits _ hphase => rcases hphase with h | h | h <;> rw [h] <;> exact False.elim

/-! ## Completed uploads -/

/-- The file written has as many bytes as were announced and accepted, and is on disk if it is a
regular one. -/
def Store.Complete (h : FileHandler) (s : Store) : Prop :=
  ∃ file size, s.file = some file ∧ (∀ k ∈ file.node, s.disk k = some file.written) ∧
    s.filesizeForUpload = some size ∧ h.canFileFit size = true ∧ file.written.length = size

/-- The packet that ends the data brings the bytes that were missing. -/
def AllThere (c : ClientConnection) (ev : Event) : Prop :=
  match c.last ev, c.file, c.filesizeForUpload with
  | none, _, _ => True
  | some packet, some file, some size => file.written.length + packet.data.length = size
  | some _, _, _ => False

instance (c : ClientConnection) (ev : Event) : Decidable (AllThere c ev) := by
  unfold AllThere
  split <;> infer_instance

/-- What a connection knows of the upload it reports. -/
structure Counted (cfg : Config) (c : ClientConnection) : Prop where
  fits : c.phase.Uploads → Fits cfg c
  accepted : c.phase = .receiving →
    ∀ size, c.store.filesizeForUpload = some size → cfg.fileHandler.canFileFit size = true
  closing : c.phase = .closing → c.store.Complete cfg.fileHandler
  halted : Report.uploadCompleted ∈ c.reports → c.phase = .halted ∧ c.store.Complete cfg.fileHandler

theorem Store.append_filesizeForUpload (h : FileHandler) (s : Store) (taken : Option Packet) :
    (s.append h taken).filesizeForUpload = s.filesizeForUpload := by
  unfold Store.append
  split <;> rfl

/-- The last packet makes the file complete. -/
theorem AllThere.complete {packet : Packet} {taken : Option Packet} (h : AllThere c ev)
    (hlast : c.last ev = some packet)
    (htaken : taken = some packet ∨ taken = none ∧ packet.data = [])
    (hfit : ∀ size, c.filesizeForUpload = some size → cfg.fileHandler.canFileFit size = true) :
    ((c.store.append cfg.fileHandler taken).close).Complete cfg.fileHandler := by
  unfold AllThere at h
  rw [hlast] at h
  split at h
  · trivial
  · rename_i p file size hp hfile hsize
    obtain rfl := Option.some.inj hp
    have hstore : c.store = ⟨some file, c.disk, c.filenameForUpload, some size⟩ := by
      rw [store, hfile, hsize]
    rcases htaken with rfl | ⟨rfl, hnil⟩
    · refine ⟨_, size, by rw [hstore]; rfl, ?_, by rw [hstore]; rfl, hfit size hsize, ?_⟩
      · rw [hstore]
        exact fun k hk ↦ FileHandler.put_self hk
      · simpa [File.written, FileHandler.close, FileHandler.appendToFile] using h
    · refine ⟨_, size, by rw [hstore]; rfl, ?_, by rw [hstore]; rfl, hfit size hsize, ?_⟩
      · rw [hstore]
        exact fun k hk ↦ FileHandler.put_self hk
      · simpa [File.written, FileHandler.close, hnil] using h
  · exact h.elim

theorem Counted.does (h : Counted cfg c) (hd : Does cfg c ev c') (hall : AllThere c ev) :
    Counted cfg c' := by
  have hfits := hd.fits h.fits
  have hopen : c.phase ≠ .halted → Report.uploadCompleted ∉ c.reports := fun hp hr ↦ hp (h.halted hr).1
  -- the phases that neither receive nor report
  have idle : c'.phase ≠ .receiving → c'.phase ≠ .closing → c.phase ≠ .halted →
      (Report.uploadCompleted ∈ c'.reports → Report.uploadCompleted ∈ c.reports) → Counted cfg c' :=
    fun h₁ h₂ h₃ hrep ↦ ⟨hfits, fun hp ↦ absurd hp h₁, fun hp ↦ absurd hp h₂,
      fun hr ↦ absurd (hrep hr) (hopen h₃)⟩
  cases hd with
  | waits hphase hstore hrep =>
      refine ⟨hfits, ?_, ?_, ?_⟩
      · rw [hphase, hstore]
        exact h.accepted
      · rw [hphase, hstore]
        exact h.closing
      · rw [hrep, hphase, hstore]
        exact h.halted
  | opens hp _ hphase hstore hrep =>
      exact idle (by rw [hphase]; nofun) (by rw [hphase]; nofun) (by rw [hp]; nofun) (hrep ▸ id)
  | accepts hp hfit hphase hstore hrep =>
      refine ⟨hfits, fun _ ↦ ?_, by rw [hphase]; nofun, fun hr ↦ ?_⟩
      · rw [hstore]
        rintro _ ⟨⟩
        exact hfit
      · exact absurd (hrep ▸ hr) (hopen (by rw [hp]; nofun))
  | appends packet hp hphase hstore hrep =>
      refine ⟨hfits, fun _ ↦ ?_, by rw [hphase]; nofun, fun hr ↦ ?_⟩
      · rw [hstore, Store.append_filesizeForUpload]
        exact h.accepted hp
      · exact absurd (hrep ▸ hr) (hopen (by rw [hp]; nofun))
  | finishes hp hlast htaken hphase hstore hrep =>
      refine ⟨hfits, by rw [hphase]; nofun, fun _ ↦ ?_, fun hr ↦ ?_⟩
      · exact hstore ▸ hall.complete hlast htaken (h.accepted hp)
      · rw [hrep] at hr
        exact absurd (by simpa using hr) (hopen (by rw [hp]; nofun))
  | completes hp hphase hstore hrep =>
      exact ⟨hfits, by rw [hphase]; nofun, by rw [hphase]; nofun,
        fun _ ↦ ⟨hphase, hstore ▸ h.closing hp⟩⟩
  | refuses hp hphase hstore hrep =>
      refine idle ?_ ?_ ?_ (hrep ▸ id)
      · rcases hphase with h | h <;> rw [h] <;> nofun
      · rcases hphase with h | h <;> rw [h] <;> nofun
      · rcases hp with h | h | ⟨_, h, _⟩ <;> rw [h] <;> nofun
  | fails hp he _ hphase hstore hrep =>
      exact idle (by rw [hphase]; nofun) (by rw [hphase]; nofun) hp (hrep ▸ id)
  | transmits hp hphase hdisk hname hrep =>
      refine idle ?_ ?_ (by rw [hp]; nofun) hrep.mp
      · rcases hphase with h | h | h <;> rw [h] <;> nofun
      · rcases hphase with h | h | h <;> rw [h] <;> nofun

theorem Starts.counted (h : Starts cfg disk c) : Counted cfg c :=
  ⟨h.fits, fun hp ↦ absurd hp h.phase.2.1, fun hp ↦ absurd hp h.phase.1,
    fun hr ↦ absurd (h.reports ▸ hr) List.not_mem_nil⟩

/-- An upload that is reported completed has as many bytes as were announced, as long as a packet
that ends the data brings all that are missing. -/
theorem complete_of_uploadCompleted (cfg : Config) (disk : Disk) (now : Time) (es : List Event)
    (h : Lts.Admits (step cfg) AllThere (start cfg disk now) es)
    (hdone : Report.uploadCompleted ∈ (run cfg disk now es).reports) :
    (run cfg disk now es).store.Complete cfg.fileHandler := by
  have counted : Counted cfg (run cfg disk now es) := by
    refine h.invariant (I := fun _ c ↦ Counted cfg c) (starts cfg disk now).counted ?_
    intro es c ev _ hc hall
    exact hc.does (step_does hc.fits ev) hall
  exact (counted.halted hdone).2

namespace Local

def fileHandler : FileHandler := ⟨"storage", fun _ ↦ true, some, 2 * minimumFreeGap, fun _ ↦ 0⟩

def clientAddress : Address := ⟨"127.0.0.1", 5001⟩

/-- The header of a Stop-and-Wait packet in front of its data. -/
def saw (flags : UInt8) (data : Bytes) : Bytes := [flags, 0, 19, 137, 0, UInt8.ofNat data.length] ++ data

theorem boundPort_ne_zero : (7001 : UInt16) ≠ 0 := by decide

theorem clientPort_ne_zero : clientAddress.port ≠ 0 := by decide

def upload : Config where
  protocolVersion := .stopAndWait
  address := ⟨"127.0.0.1", 7001⟩
  clientAddress := clientAddress
  fileHandler := fileHandler
  initialPacket := getPacketFromBytes (saw 48 [0, 2])
  portBound := boundPort_ne_zero
  clientReachable := clientPort_ne_zero

def arrives (raw : Bytes) : Event := .datagram raw (some clientAddress) 0

def emptyDisk : Disk := fun _ ↦ none

/-- The name "a" and the size 5. -/
def announcement : List Event := [arrives (saw 0 [97]), arrives (saw 32 [0, 0, 0, 5])]

end Local

theorem complete_of_uploadCompleted_five :
    (run Local.upload Local.emptyDisk 0 (Local.announcement ++
      [Local.arrives (Local.saw 0 [1, 2, 3]), Local.arrives (Local.saw 36 [4, 5]),
        Local.arrives (Local.saw 16 [])])).store.Complete Local.fileHandler :=
  complete_of_uploadCompleted Local.upload Local.emptyDisk 0 _ (by decide +kernel) (by decide +kernel)

/-- An empty packet with a FIN completes an upload of five bytes. -/
theorem not_complete_of_uploadCompleted :
    ¬(Report.uploadCompleted ∈ (run Local.upload Local.emptyDisk 0 (Local.announcement ++
        [Local.arrives (Local.saw 4 []), Local.arrives (Local.saw 48 [])])).reports →
      (run Local.upload Local.emptyDisk 0 (Local.announcement ++
        [Local.arrives (Local.saw 4 []), Local.arrives (Local.saw 48 [])])).store.Complete
          Local.fileHandler) := by
  intro h
  obtain ⟨file, size, hfile, -, hsize, -, hlength⟩ := h (by decide +kernel)
  have hnone : (some file).map (fun f ↦ f.written.length) = some 0 := by
    rw [← hfile]
    decide +kernel
  have hfive : some size = some 5 := by
    rw [← hsize]
    decide +kernel
  cases hfive
  exact absurd (hlength.symm.trans (Option.some.inj hnone)) nofun

/-! ## Failed uploads -/

/-- The file created for a name that was free is all that differs from the storage before. -/
def Store.Created (h : FileHandler) (before : Disk) (name : String) (s : Store) : Prop :=
  h.lookup before (h.getFilepath name false) = none ∧
    (∃ file, s.file = some file ∧ file.node = h.node (h.getFilepath name false)) ∧
    ∃ content, s.disk = before.put (h.node (h.getFilepath name false)) (some content)

/-- The size on disk of the file being written. -/
def Store.sizeOnDisk (s : Store) : Option Nat :=
  s.file.bind fun file ↦ (file.node.bind s.disk).map List.length

/-- From the creation of the file on, the run is ended only by an exception that makes it clean up,
and while the size on disk is not the one announced. -/
def CleansUp (cfg : Config) (c : ClientConnection) (ev : Event) : Prop :=
  match c.phase with
  | .sizing _ => (c.listened cfg ev).exn = none ∧ c.tooBig cfg ev = false
  | .receiving => ∀ e ∈ (c.listened cfg ev).exn,
      e.cls ∉ recoverable ∧ c.store.sizeOnDisk ≠ c.filesizeForUpload
  | .closing => ∀ e ∈ (c.listened cfg ev).exn, closingSwallows cfg e.cls = true
  | .naming | .refusing | .transmitting | .halted => True

instance (cfg : Config) (c : ClientConnection) (ev : Event) : Decidable (CleansUp cfg c ev) := by
  unfold CleansUp
  split <;> infer_instance

/-- What is on disk in each phase. -/
def Store.Tidy (h : FileHandler) (before : Disk) (reports : List Report) (s : Store) : Phase → Prop
  | .naming | .refusing | .transmitting => s.disk = before ∧ s.filenameForUpload = none
  | .sizing name => s.Created h before name ∧ s.filenameForUpload = none
  | .receiving => ∃ name, s.Created h before name ∧ s.filenameForUpload = some name
  | .closing => True
  | .halted => Report.uploadCompleted ∉ reports → s.disk = before

structure Tidy (cfg : Config) (before : Disk) (c : ClientConnection) : Prop where
  fits : c.phase.Uploads → Fits cfg c
  store : c.store.Tidy cfg.fileHandler before c.reports c.phase
  completed : Report.uploadCompleted ∈ c.reports → c.phase = .halted

theorem Store.Created.append {h : FileHandler} {before : Disk} {name : String} {s : Store}
    (hc : s.Created h before name) (taken : Option Packet) : (s.append h taken).Created h before name := by
  obtain ⟨hfree, ⟨file, hfile, hnode⟩, content, hdisk⟩ := hc
  unfold Store.append
  split
  · rename_i packet file' hfile'
    obtain rfl := Option.some.inj (hfile.symm.trans hfile')
    refine ⟨hfree, ⟨_, rfl, hnode⟩, ?_⟩
    rw [FileHandler.flush, FileHandler.node_appendToFile, hnode, hdisk, FileHandler.put_put]
    exact ⟨_, rfl⟩
  · exact ⟨hfree, ⟨file, hfile, hnode⟩, content, hdisk⟩

/-- The cleanup removes a file whose size is not the one announced. -/
theorem Store.Created.abandon {h : FileHandler} {before : Disk} {name : String} {s : Store} {e : Exn}
    (hc : s.Created h before name) (hname : s.filenameForUpload = some name)
    (hcls : e.cls ∉ recoverable) (hsize : s.sizeOnDisk ≠ s.filesizeForUpload) :
    (s.abandon h e).disk = before := by
  obtain ⟨hfree, ⟨file, hfile, hnode⟩, content, hdisk⟩ := hc
  simp only [Store.abandon, if_neg hcls, hname, FileHandler.removeFileIfCorruptedOrIncomplete]
  have hremoved : s.disk.put (h.node (h.getFilepath name false)) none = before := by
    rw [hdisk, FileHandler.put_put, ← hfree, FileHandler.lookup, FileHandler.put_bind]
  cases hlookup : h.lookup s.disk (h.getFilepath name false) with
  | none =>
      rw [FileHandler.lookup] at hlookup
      rw [← hlookup, FileHandler.put_bind] at hremoved
      exact hremoved
  | some content =>
      have hlength : some content.length ≠ s.filesizeForUpload := by
        have hondisk : s.sizeOnDisk = some content.length := by
          rw [Store.sizeOnDisk, hfile, Option.bind_some, hnode]
          exact congrArg (Option.map List.length) hlookup
        rwa [hondisk] at hsize
      cases hannounced : s.filesizeForUpload with
      | none => exact hremoved
      | some size =>
          rw [hannounced] at hlength
          dsimp only
          rw [if_pos fun heq ↦ hlength (congrArg some heq)]
          exact hremoved

theorem Store.abandon_of_unnamed {h : FileHandler} {s : Store} {e : Exn}
    (hname : s.filenameForUpload = none) : s.abandon h e = s := by
  unfold Store.abandon
  rw [hname]
  split <;> rfl

theorem Tidy.does {before : Disk} (h : Tidy cfg before c) (hd : Does cfg c ev c')
    (hclean : CleansUp cfg c ev) : Tidy cfg before c' := by
  have hfits := hd.fits h.fits
  have hopen : c.phase ≠ .halted → Report.uploadCompleted ∉ c.reports :=
    fun hp hr ↦ hp (h.completed hr)
  have htidy := h.store
  have going : c'.store.Tidy cfg.fileHandler before c'.reports c'.phase → c.phase ≠ .halted →
      (Report.uploadCompleted ∈ c'.reports → Report.uploadCompleted ∈ c.reports) → Tidy cfg before c' :=
    fun ht hp hrep ↦ ⟨hfits, ht, fun hr ↦ absurd (hrep hr) (hopen hp)⟩
  cases hd with
  | waits hphase hstore hrep =>
      refine ⟨hfits, ?_, ?_⟩
      · rw [hphase, hstore, hrep]
        exact htidy
      · rw [hphase, hrep]
        exact h.completed
  | opens hp hopens hphase hstore hrep =>
      rw [hp] at htidy
      obtain ⟨hdisk, hname⟩ := htidy
      obtain ⟨hfree, rfl, rfl⟩ := FileHandler.openFileWriteMode_eq_ok hopens
      have hdisk : c.disk = before := hdisk
      rw [hdisk] at hfree hstore
      refine going ?_ (by rw [hp]; nofun) (hrep ▸ id)
      rw [hphase, hstore]
      exact ⟨⟨hfree, ⟨_, rfl, rfl⟩, _, rfl⟩, hname⟩
  | @accepts name size hp hfit hphase hstore hrep =>
      rw [hp] at htidy
      refine going ?_ (by rw [hp]; nofun) (hrep ▸ id)
      rw [hphase, hstore]
      exact ⟨name, htidy.1, rfl⟩
  | appends packet hp hphase hstore hrep =>
      rw [hp] at htidy
      obtain ⟨name, hcreated, hname⟩ := htidy
      refine going ?_ (by rw [hp]; nofun) (hrep ▸ id)
      rw [hphase, hstore]
      refine ⟨name, hcreated.append packet, ?_⟩
      rw [← hname]
      unfold Store.append
      split <;> rfl
  | finishes hp hlast htaken hphase hstore hrep =>
      refine going (by rw [hphase]; trivial) (by rw [hp]; nofun) ?_
      rw [hrep]
      simp
  | completes hp hphase hstore hrep =>
      refine ⟨hfits, ?_, fun _ ↦ hphase⟩
      rw [hphase]
      exact fun hno ↦ absurd (by rw [hrep]; simp) hno
  | refuses hp hphase hstore hrep =>
      have hunnamed : c.store.disk = before ∧ c.store.filenameForUpload = none := by
        rcases hp with hp | hp | ⟨name, hp, hbig⟩
        · rwa [hp] at htidy
        · rwa [hp] at htidy
        · rw [CleansUp, hp] at hclean
          exact absurd (hbig.symm.trans hclean.2) nofun
      refine going ?_ (by rcases hp with h | h | ⟨_, h, _⟩ <;> rw [h] <;> nofun) (hrep ▸ id)
      rw [hstore hunnamed.2]
      rcases hphase with hphase | hphase <;> rw [hphase]
      · exact hunnamed
      · exact fun _ ↦ hunnamed.1
  | @fails e hp he hclosing hphase hstore hrep =>
      refine going ?_ hp (hrep ▸ id)
      rw [hphase]
      intro _
      rw [hstore]
      unfold CleansUp at hclean
      cases hphase' : c.phase with
      | naming | refusing | transmitting =>
          rw [hphase'] at htidy
          rw [Store.abandon_of_unnamed htidy.2]
          exact htidy.1
      | sizing name =>
          rw [hphase'] at hclean
          exact absurd (he.symm.trans hclean.1) nofun
      | receiving =>
          rw [hphase'] at htidy hclean
          obtain ⟨name, hcreated, hname⟩ := htidy
          exact hcreated.abandon hname (hclean e he).1 (hclean e he).2
      | closing =>
          rw [hphase'] at hclean
          exact absurd ((hclosing hphase').symm.trans (hclean e he)) nofun
      | halted => exact absurd hphase' hp
  | transmits hp hphase hdisk hname hrep =>
      rw [hp] at htidy
      have hdisk : c'.store.disk = before := (hdisk htidy.2).trans htidy.1
      refine going ?_ (by rw [hp]; nofun) hrep.mp
      rcases hphase with hphase | hphase | hphase <;> rw [hphase]
      · exact ⟨hdisk, hname.trans htidy.2⟩
      · exact ⟨hdisk, hname.trans htidy.2⟩
      · exact fun _ ↦ hdisk

theorem Starts.tidy (h : Starts cfg disk c) : Tidy cfg disk c := by
  refine ⟨h.fits, ?_, fun hr ↦ absurd (h.reports ▸ hr) List.not_mem_nil⟩
  rw [h.store]
  cases hphase : c.phase with
  | naming | refusing | transmitting => exact ⟨rfl, rfl⟩
  | sizing name => exact absurd hphase (h.phase.2.2 name)
  | receiving => exact absurd hphase h.phase.2.1
  | closing => trivial
  | halted => exact fun _ ↦ rfl

/-- A connection that ends without a completed upload leaves the storage as it was, as long as
what ends it makes it clean up. -/
theorem disk_of_failed (cfg : Config) (disk : Disk) (now : Time) (es : List Event)
    (h : Lts.Admits (step cfg) (CleansUp cfg) (start cfg disk now) es)
    (hended : (run cfg disk now es).point = .ended)
    (hfailed : Report.uploadCompleted ∉ (run cfg disk now es).reports) :
    (run cfg disk now es).disk = disk := by
  have tidy : Tidy cfg disk (run cfg disk now es) := by
    refine h.invariant (I := fun _ c ↦ Tidy cfg disk c) (starts cfg disk now).tidy ?_
    intro es c ev _ hc hclean
    exact hc.does (step_does hc.fits ev) hclean
  have hstore := tidy.store
  rw [phase, hended] at hstore
  exact hstore hfailed

/-- The connection is lost in the middle of the data. -/
theorem disk_of_failed_lost :
    (run Local.upload Local.emptyDisk 0 (Local.announcement ++
      [Local.arrives (Local.saw 0 [1, 2, 3]), .timeout 1000000000])).disk = Local.emptyDisk :=
  disk_of_failed Local.upload Local.emptyDisk 0 _ (by decide +kernel) (by decide +kernel)
    (by decide +kernel)

/-- A connection lost before the size is known leaves an empty file. -/
theorem not_disk_of_failed :
    ¬((run Local.upload Local.emptyDisk 0
        [Local.arrives (Local.saw 0 [97]), .timeout 1000000000]).point = .ended →
      Report.uploadCompleted ∉ (run Local.upload Local.emptyDisk 0
        [Local.arrives (Local.saw 0 [97]), .timeout 1000000000]).reports →
      (run Local.upload Local.emptyDisk 0
        [Local.arrives (Local.saw 0 [97]), .timeout 1000000000]).disk = Local.emptyDisk) := by
  intro h
  have hdisk := congrFun (h (by decide +kernel) (by decide +kernel)) "storage/a"
  exact absurd hdisk (by decide +kernel)

end Rdt.Server.ClientConnection
