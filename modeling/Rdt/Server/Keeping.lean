import Rdt.Lib.Custody
import Rdt.Server.Reading
import Rdt.Server.Threads

/-!
# What the server keeps

The threads of the server hold the files they write, each its own.  So what is stored stays, and what
was uploaded completely is what later downloads read.
-/

namespace Rdt.Server

open AccepterProtocol PacketParser

namespace ClientConnection

variable {cfg : Config} {disk : Disk} {c c' : ClientConnection} {ev : Event}

/-! ## The file a connection writes -/

/-- The regular file being written, from its creation to the end of the closing handshake -/
def Store.held (s : Store) : Phase → Option String
  | .sizing _ | .receiving | .closing => s.file.bind File.node
  | .naming | .refusing | .transmitting | .halted => none

def held (c : ClientConnection) : Option String := c.store.held c.phase

/-- What a connection knows of the file it writes. -/
def Store.Writes (h : FileHandler) (s : Store) : Phase → Prop
  | .naming | .refusing | .transmitting => s.filenameForUpload = none
  | .sizing name => s.filenameForUpload = none ∧
      ∃ file, s.file = some file ∧ file.node = h.node (h.getFilepath name false)
  | .receiving | .closing => ∃ file name, s.file = some file ∧ s.filenameForUpload = some name ∧
      file.node = h.node (h.getFilepath name false)
  | .halted => True

structure Knows (cfg : Config) (c : ClientConnection) : Prop where
  fits : c.phase.Uploads → Fits cfg c
  writes : c.store.Writes cfg.fileHandler c.phase
  completed : Report.uploadCompleted ∈ c.reports → c.phase = .halted

theorem Store.append_of_file (h : FileHandler) {s : Store} {file : File} (hfile : s.file = some file)
    (taken : Option Packet) : s.append h taken = s ∨ ∃ file' x, file'.node = file.node ∧
      s.append h taken = { s with file := some file', disk := s.disk.put file.node (some x) } := by
  cases taken with
  | none => exact .inl rfl
  | some packet =>
      let file' := FileHandler.appendToFile file packet
      refine .inr ⟨file', file'.written.take (h.flushed file'.pieces), rfl, ?_⟩
      simp only [append, hfile]
      rfl

theorem Store.close_append (h : FileHandler) {s : Store} {file : File} (hfile : s.file = some file)
    (taken : Option Packet) : ∃ file', file'.node = file.node ∧ (s.append h taken).close =
      { s with file := some file', disk := s.disk.put file.node (some file'.written) } := by
  rcases s.append_of_file h hfile taken with heq | ⟨file', x, hnode, heq⟩
  · exact ⟨FileHandler.close file, rfl, by rw [heq, close, hfile]; rfl⟩
  · refine ⟨FileHandler.close file', hnode, ?_⟩
    rw [heq, close]
    simp only [FileHandler.closeOnDisk, hnode, FileHandler.put_put]
    rfl

/-- The cleanup removes at most the file named. -/
theorem Store.abandon_disk (h : FileHandler) (s : Store) (e : Exn) : (s.abandon h e).disk = s.disk ∨
    ∃ name, s.filenameForUpload = some name ∧
      (s.abandon h e).disk = s.disk.put (h.node (h.getFilepath name false)) none := by
  unfold abandon
  split
  · exact .inl rfl
  · split
    · rename_i name hname
      have hcases := h.removeFileIfCorruptedOrIncomplete_cases s.disk name s.filesizeForUpload false
      exact hcases.imp id fun hremoved ↦ ⟨name, hname, hremoved⟩
    · exact .inl rfl

/-! What becomes of a regular file becomes of it on disk; of a device nothing does. -/

theorem acts_put {node : Option String} {x : Bytes} :
    Custody.Acts disk node (disk.put node (some x)) node := by
  cases node with
  | none => exact .rests rfl rfl
  | some k => exact .writes rfl rfl rfl

theorem acts_put_free {h : FileHandler} {path : String} {x : Bytes} (hfree : h.lookup disk path = none) :
    Custody.Acts disk none (disk.put (h.node path) (some x)) (h.node path) := by
  cases hnode : h.node path with
  | none => exact .rests rfl rfl
  | some k => exact .takes ((FileHandler.lookup_eq hnode).symm.trans hfree) rfl rfl rfl

theorem acts_put_none {node : Option String} : Custody.Acts disk node (disk.put node none) none := by
  cases node with
  | none => exact .rests rfl rfl
  | some k => exact .removes rfl rfl rfl

/-- What an event does to the file system it does to the file of the connection. -/
theorem Does.acts (hd : Does cfg c ev c') (h : c.store.Writes cfg.fileHandler c.phase) :
    Custody.Acts c.disk c.held c'.disk c'.held := by
  have same : c'.store = c.store → c'.disk = c.disk := congrArg Store.disk
  have writes : ∀ (file : File) {x : Bytes}, c.held = file.node → c'.held = file.node →
      c'.disk = c.disk.put file.node (some x) → Custody.Acts c.disk c.held c'.disk c'.held := by
    intro file x hheld hheld' hdisk
    rw [hheld, hheld', hdisk]
    exact acts_put
  cases hd with
  | waits hphase hstore => exact .rests (same hstore) (by rw [held, held, hphase, hstore])
  | @opens name _ _ hp hopen hphase hstore =>
      obtain ⟨hfree, rfl, rfl⟩ := FileHandler.openFileWriteMode_eq_ok hopen
      have hnone : c.held = none := by
        rw [held, hp]
        rfl
      have htaken : c'.held = cfg.fileHandler.node (cfg.fileHandler.getFilepath name false) := by
        rw [held, hphase, hstore]
        rfl
      have hdisk : c'.disk = c.disk.put (cfg.fileHandler.node (cfg.fileHandler.getFilepath name false))
          (some []) := congrArg Store.disk hstore
      rw [hnone, htaken, hdisk]
      exact acts_put_free hfree
  | accepts hp _ hphase hstore =>
      refine .rests (congrArg Store.disk hstore) ?_
      rw [held, held, hphase, hstore, hp]
      rfl
  | appends packet hp hphase hstore =>
      rw [hp] at h
      obtain ⟨file, name, hfile, -, -⟩ := h
      rcases c.store.append_of_file cfg.fileHandler hfile packet with heq | ⟨file', x, hnode, heq⟩
      · rw [heq] at hstore
        exact .rests (same hstore) (by rw [held, held, hphase, hstore, hp])
      · rw [heq] at hstore
        refine writes file ?_ ?_ (congrArg Store.disk hstore)
        · rw [held, hp, Store.held, hfile]
          rfl
        · rw [held, hphase, hstore, ← hnode]
          rfl
  | @finishes packet taken hp _ _ hphase hstore =>
      rw [hp] at h
      obtain ⟨file, name, hfile, -, -⟩ := h
      obtain ⟨file', hnode, heq⟩ := c.store.close_append cfg.fileHandler hfile taken
      rw [heq] at hstore
      refine writes file ?_ ?_ (congrArg Store.disk hstore)
      · rw [held, hp, Store.held, hfile]
        rfl
      · rw [held, hphase, hstore, ← hnode]
        rfl
  | completes _ hphase hstore => exact .leaves (same hstore) (by rw [held, hphase]; rfl)
  | refuses hp hphase hstore =>
      have hname : c.filenameForUpload = none := by
        rcases hp with hp | hp | ⟨name, hp, -⟩
        · rw [hp] at h
          exact h
        · rw [hp] at h
          exact h
        · rw [hp] at h
          exact h.1
      refine .leaves (same (hstore hname)) ?_
      rcases hphase with hphase | hphase <;> rw [held, hphase] <;> rfl
  | @fails e hp _ _ hphase hstore =>
      have hleft : c'.held = none := by
        rw [held, hphase]
        rfl
      have unnamed : c.filenameForUpload = none → Custody.Acts c.disk c.held c'.disk c'.held := by
        intro hname
        exact .leaves (same (hstore.trans (Store.abandon_of_unnamed hname))) hleft
      have named : (∃ file name, c.file = some file ∧ c.filenameForUpload = some name ∧
          file.node = cfg.fileHandler.node (cfg.fileHandler.getFilepath name false)) →
          c.held = c.file.bind File.node → Custody.Acts c.disk c.held c'.disk c'.held := by
        rintro ⟨file, name, hfile, hname, hnode⟩ hheld
        have hdisk : c'.disk = (c.store.abandon cfg.fileHandler e).disk := congrArg Store.disk hstore
        rcases c.store.abandon_disk cfg.fileHandler e with heq | ⟨name', hname', heq⟩
        · exact .leaves (hdisk.trans heq) hleft
        · obtain rfl : name = name' := Option.some.inj (hname.symm.trans hname')
          rw [hheld, hfile, Option.bind_some, hleft, hdisk.trans heq, ← hnode]
          exact acts_put_none
      cases hphase' : c.phase with
      | naming | refusing | transmitting =>
          rw [hphase'] at h
          exact unnamed h
      | sizing name =>
          rw [hphase'] at h
          exact unnamed h.1
      | receiving | closing =>
          rw [hphase'] at h
          exact named h (by rw [held, hphase']; rfl)
      | halted => exact absurd hphase' hp
  | transmits hp hphase hdisk =>
      rw [hp] at h
      refine .leaves (hdisk h) ?_
      rcases hphase with hphase | hphase | hphase <;> rw [held, hphase] <;> rfl

theorem Does.writes (hd : Does cfg c ev c') (h : c.store.Writes cfg.fileHandler c.phase) :
    c'.store.Writes cfg.fileHandler c'.phase := by
  cases hd with
  | waits hphase hstore =>
      rw [hphase, hstore]
      exact h
  | opens hp hopen hphase hstore =>
      obtain ⟨-, rfl, -⟩ := FileHandler.openFileWriteMode_eq_ok hopen
      rw [hp] at h
      rw [hphase, hstore]
      exact ⟨h, _, rfl, rfl⟩
  | @accepts name size hp _ hphase hstore =>
      rw [hp] at h
      obtain ⟨-, file, hfile, hnode⟩ := h
      rw [hphase, hstore]
      exact ⟨file, name, hfile, rfl, hnode⟩
  | appends packet hp hphase hstore =>
      rw [hp] at h
      obtain ⟨file, name, hfile, hname, hnode⟩ := h
      rw [hphase, hstore]
      rcases c.store.append_of_file cfg.fileHandler hfile packet with heq | ⟨file', x, hnode', heq⟩
      · rw [heq]
        exact ⟨file, name, hfile, hname, hnode⟩
      · rw [heq]
        exact ⟨file', name, rfl, hname, hnode'.trans hnode⟩
  | @finishes packet taken hp _ _ hphase hstore =>
      rw [hp] at h
      obtain ⟨file, name, hfile, hname, hnode⟩ := h
      obtain ⟨file', hnode', heq⟩ := c.store.close_append cfg.fileHandler hfile taken
      rw [hphase, hstore, heq]
      exact ⟨file', name, rfl, hname, hnode'.trans hnode⟩
  | completes _ hphase | fails _ _ _ hphase =>
      rw [hphase]
      trivial
  | refuses hp hphase hstore =>
      have hname : c.filenameForUpload = none := by
        rcases hp with hp | hp | ⟨name, hp, -⟩
        · rw [hp] at h
          exact h
        · rw [hp] at h
          exact h
        · rw [hp] at h
          exact h.1
      rw [hstore hname]
      rcases hphase with hphase | hphase <;> rw [hphase]
      · exact hname
      · trivial
  | transmits hp hphase _ hname =>
      rw [hp] at h
      rcases hphase with hphase | hphase | hphase <;> rw [hphase]
      · exact hname.trans h
      · exact hname.trans h
      · trivial

/-- The report of a completed upload comes last. -/
theorem Does.reported (hd : Does cfg c ev c') (h : Report.uploadCompleted ∈ c.reports → c.phase = .halted)
    (hr : Report.uploadCompleted ∈ c'.reports) : c'.phase = .halted ∧ c'.store = c.store ∧
      (Report.uploadCompleted ∈ c.reports ∨ c.phase = .closing) := by
  have never : Report.uploadCompleted ∈ c.reports → c.phase ≠ .halted →
      c'.phase = .halted ∧ c'.store = c.store ∧
        (Report.uploadCompleted ∈ c.reports ∨ c.phase = .closing) :=
    fun hr hp ↦ absurd (h hr) hp
  cases hd with
  | waits hphase hstore hrep =>
      rw [hrep] at hr
      exact ⟨hphase.trans (h hr), hstore, .inl hr⟩
  | opens hp _ _ _ hrep | accepts hp _ _ _ hrep | appends _ hp _ _ hrep =>
      exact never (hrep ▸ hr) (by rw [hp]; simp)
  | finishes hp _ _ _ _ hrep =>
      rw [hrep] at hr
      exact never (by simpa using hr) (by rw [hp]; simp)
  | completes hp hphase hstore => exact ⟨hphase, hstore, .inr hp⟩
  | refuses hp _ _ hrep =>
      refine never (hrep ▸ hr) ?_
      rcases hp with hp | hp | ⟨name, hp, -⟩ <;> rw [hp] <;> simp
  | fails hp _ _ _ _ hrep => exact never (hrep ▸ hr) hp
  | transmits hp _ _ _ hrep => exact never (hrep.mp hr) (by rw [hp]; simp)

theorem Knows.does (h : Knows cfg c) (hd : Does cfg c ev c') : Knows cfg c' :=
  ⟨hd.fits h.fits, hd.writes h.writes, fun hr ↦ (hd.reported h.completed hr).1⟩

theorem Starts.knows (h : Starts cfg disk c) : Knows cfg c := by
  refine ⟨h.fits, ?_, fun hr ↦ absurd (h.reports ▸ hr) List.not_mem_nil⟩
  rw [h.store]
  cases hphase : c.phase with
  | naming | refusing | transmitting => rfl
  | sizing name => exact absurd hphase (h.phase.2.2 name)
  | receiving => exact absurd hphase h.phase.2.1
  | closing => exact absurd hphase h.phase.1
  | halted => trivial

theorem run_knows (cfg : Config) (disk : Disk) (now : Time) (es : List Event) :
    Knows cfg (run cfg disk now es) := by
  induction es using List.reverseRecOn with
  | nil => exact (starts cfg disk now).knows
  | append_singleton es ev ih =>
      rw [run_append]
      exact ih.does (step_does ih.fits ev)

theorem Knows.withDisk (h : Knows cfg c) (d : Disk) : Knows cfg (c.withDisk d) := by
  refine ⟨fun hp ↦ ⟨(h.fits hp).1, (h.fits hp).2⟩, ?_, h.completed⟩
  have hwrites := h.writes
  show Store.Writes cfg.fileHandler (c.withDisk d).store c.phase
  cases hphase : c.phase with
  | naming | sizing name | refusing | transmitting | receiving | closing =>
      rw [hphase] at hwrites
      exact hwrites
  | halted => trivial

/-- All that was written of the file is on disk, if it is a regular one. -/
def OnDisk (c : ClientConnection) (disk : Disk) : Prop :=
  ∃ file, c.file = some file ∧ ∀ k ∈ file.node, disk k = some file.written

/-- When the closing handshake begins, the file has been closed. -/
theorem Does.onDisk (hd : Does cfg c ev c') (h : c.store.Writes cfg.fileHandler c.phase)
    (hclosing : c'.phase = .closing) : c.phase = .closing ∧ c'.store = c.store ∨ c'.OnDisk c'.disk := by
  cases hd with
  | waits hphase hstore => exact .inl ⟨hphase.symm.trans hclosing, hstore⟩
  | opens _ _ hphase | accepts _ _ hphase | appends _ _ hphase | completes _ hphase
  | fails _ _ _ hphase => cases hphase.symm.trans hclosing
  | @finishes packet taken hp _ _ _ hstore =>
      rw [hp] at h
      obtain ⟨file, name, hfile, -, -⟩ := h
      obtain ⟨file', hnode, heq⟩ := c.store.close_append cfg.fileHandler hfile taken
      rw [heq] at hstore
      refine .inr ⟨file', congrArg Store.file hstore, fun k hk ↦ ?_⟩
      have hdisk : c'.disk = c.disk.put file.node (some file'.written) :=
        congrArg Store.disk hstore
      rw [hdisk, ← hnode, FileHandler.put_self hk]
  | refuses _ hphase => rcases hphase with hphase | hphase <;> cases hphase.symm.trans hclosing
  | transmits _ hphase =>
      rcases hphase with hphase | hphase | hphase <;> cases hphase.symm.trans hclosing

end ClientConnection

/-! ## The server -/

namespace Accepter

variable {cfg : AccepterConfig} {disk : Disk} {a a' : Accepter} {e : ServerEvent}

/-- The storage, and who writes what -/
def custody (a : Accepter) : Custody.State String String Bytes where
  store := a.disk
  held key := (a.clients.find? fun e ↦ e.1 == key).bind fun e ↦ e.2.thread.held

theorem held_of_mem (hk : a.clients.Keyed) {key : String} {c : Connection} (h : (key, c) ∈ a.clients) :
    a.custody.held key = c.thread.held := by
  obtain ⟨b, hfind⟩ := Option.isSome_iff_exists.mp
    (List.find?_isSome (p := fun e ↦ e.1 == key) |>.mpr ⟨_, h, beq_self_eq_true key⟩)
  obtain rfl : b = (key, c) := hk.eq_of_key (List.mem_of_find?_eq_some hfind) h
    (by simpa using List.find?_some hfind)
  simp only [custody, hfind]
  rfl

theorem held_of_not_mem {key : String} (h : key ∉ a.clients.map Prod.fst) :
    a.custody.held key = none := by
  have hfind : (a.clients.find? fun e ↦ e.1 == key) = none := by
    refine List.find?_eq_none.mpr fun b hb heq ↦ h ?_
    exact (beq_iff_eq.mp heq) ▸ List.mem_map_of_mem hb
  simp only [custody, hfind]
  rfl

/-- Who holds something is in the pool. -/
theorem mem_of_held (hk : a.clients.Keyed) {key path : String} (h : a.custody.held key = some path) :
    ∃ c, (key, c) ∈ a.clients ∧ c.thread.held = some path := by
  by_cases hmem : key ∈ a.clients.map Prod.fst
  · obtain ⟨⟨_, c⟩, hc, rfl⟩ := List.mem_map.mp hmem
    exact ⟨c, hc, (held_of_mem hk hc).symm.trans h⟩
  · cases (held_of_not_mem hmem).symm.trans h

/-- The pool of a run -/
structure Manned (a : Accepter) : Prop where
  keyed : a.clients.Keyed
  knows : ∀ b ∈ a.clients, ClientConnection.Knows b.2.cfg b.2.thread

theorem run_manned (cfg : AccepterConfig) (disk : Disk) (es : List ServerEvent) :
    (run cfg disk es).Manned := by
  refine ⟨run_keyed cfg disk es, fun b hb ↦ ?_⟩
  obtain ⟨before, raw, B, now, bound, after, moment, -, -, -, -, -, -, heq⟩ :=
    (run_among cfg disk es b hb).alone.since
  rw [heq]
  exact (ClientConnection.run_knows b.2.cfg (run cfg disk moment).disk now _).withDisk _

/-- What a thread does in its turn. -/
theorem Manned.does (h : a.Manned) {key : String} {c : Connection} (hc : (key, c) ∈ a.clients)
    (ev : Event) :
    ClientConnection.Does c.cfg (c.thread.withDisk a.disk) ev (a.turn c ev).thread :=
  ClientConnection.step_does ((h.knows _ hc).withDisk a.disk).fits ev

theorem Manned.acts (h : a.Manned) {key : String} {c : Connection} (hc : (key, c) ∈ a.clients)
    (ev : Event) : Custody.Acts a.disk c.thread.held (a.turn c ev).thread.disk (a.turn c ev).thread.held :=
  (h.does hc ev).acts ((h.knows _ hc).withDisk a.disk).writes

variable (cfg) in
theorem createConnection_starts (c A : Peer) (packet : Packet) (disk : Disk) (now : Time) :
    ClientConnection.Starts (createConnection cfg c A packet disk now).cfg disk
      (createConnection cfg c A packet disk now).thread :=
  ClientConnection.starts _ disk now

theorem held_createConnection (c A : Peer) (packet : Packet) (disk : Disk) (now : Time) :
    (createConnection cfg c A packet disk now).thread.held = none := by
  have hstarts := createConnection_starts cfg c A packet disk now
  generalize createConnection cfg c A packet disk now = con at hstarts
  rw [ClientConnection.held]
  obtain ⟨hclosing, hreceiving, hsizing⟩ := hstarts.phase
  cases hphase : con.thread.phase with
  | naming | refusing | transmitting | halted => rfl
  | sizing name => exact absurd hphase (hsizing name)
  | receiving => exact absurd hphase hreceiving
  | closing => exact absurd hphase hclosing

/-- A turn is of no consequence to what the others hold. -/
theorem held_turn (h : a.Manned) (h' : a'.Manned) {key key' : String} {c : Connection} (hne : key' ≠ key)
    (hclients : a'.clients = a.clients.map fun e ↦ if e.1 = key then (key, c) else e) :
    a'.custody.held key' = a.custody.held key' := by
  by_cases hkey : key' ∈ a.clients.map Prod.fst
  · obtain ⟨b, hb, rfl⟩ := List.mem_map.mp hkey
    have hb' : b ∈ a'.clients := by
      rw [hclients]
      exact List.mem_map.mpr ⟨b, hb, if_neg hne⟩
    rw [held_of_mem h.keyed hb, held_of_mem h'.keyed hb']
  · rw [held_of_not_mem hkey, held_of_not_mem]
    rw [hclients, List.map_map]
    intro hmem
    obtain ⟨b, hb, heq⟩ := List.mem_map.mp hmem
    dsimp only [Function.comp] at heq
    split at heq
    · exact hne heq.symm
    · exact hkey (heq ▸ List.mem_map_of_mem hb)

/-- Who holds what after an event -/
theorem Turns.custody (ht : Turns cfg a e a') (h : a.Manned) (h' : a'.Manned) :
    Custody.Step a.custody a'.custody := by
  cases ht with
  | rests hnone hclients hdisk =>
      refine .forgets hdisk fun key ↦ .inl ?_
      simp only [Accepter.custody, hclients]
  | @runs key ev c he hmem hclients hdisk =>
      have hmem' : (key, a.turn c ev) ∈ a'.clients := by
        rw [hclients]
        exact List.mem_map.mpr ⟨(key, c), hmem, if_pos rfl⟩
      refine .acts key ?_ fun key' hne ↦ held_turn h h' hne hclients
      rw [held_of_mem h.keyed hmem, held_of_mem h'.keyed hmem']
      show Custody.Acts a.disk c.thread.held a'.disk (a.turn c ev).thread.held
      rw [hdisk]
      exact h.acts hmem ev
  | @adds raw B A c bound now _ _ he hcompletes hpoint hclients hdisk =>
      refine .forgets hdisk fun key ↦ ?_
      cases hheld : a'.custody.held key with
      | none => exact .inr rfl
      | some path =>
          obtain ⟨b, hb, hpath⟩ := mem_of_held h'.keyed hheld
          rw [hclients] at hb
          rcases ClientPool.mem_add.mp hb with heq | ⟨hb, -⟩
          · cases heq
            cases (held_createConnection ..).symm.trans hpath
          · rw [held_of_mem h.keyed (List.mem_of_mem_filter hb), hpath]
            exact .inl rfl

/-! ## Runs -/

theorem run_step (cfg : AccepterConfig) (disk : Disk) (es : List ServerEvent) (e : ServerEvent) :
    Custody.Step (run cfg disk es).custody (run cfg disk (es ++ [e])).custody :=
  (run_turns cfg disk es e).custody (run_manned cfg disk es) (run_manned cfg disk (es ++ [e]))

theorem run_custody (cfg : AccepterConfig) (disk : Disk) (es es' : List ServerEvent) :
    Relation.ReflTransGen Custody.Step (run cfg disk es).custody (run cfg disk (es ++ es')).custody := by
  induction es' using List.reverseRecOn with
  | nil =>
      rw [List.append_nil]
  | append_singleton es' e ih =>
      rw [← List.append_assoc]
      exact ih.tail (run_step cfg disk (es ++ es') e)

theorem run_exclusive (cfg : AccepterConfig) (disk : Disk) (es : List ServerEvent) :
    Custody.Exclusive (run cfg disk es).custody := by
  induction es using List.reverseRecOn with
  | nil => exact .of_idle fun key ↦ held_of_not_mem List.not_mem_nil
  | append_singleton es e ih => exact ih.step (run_step cfg disk es e)

namespace Local

open ClientConnection.Local (saw)

def completion : List ServerEvent := [fromAlice (saw 36 [4, 5]), fromAlice (saw 16 [])]

def secondAddress : Peer := ⟨⟨"127.0.0.1", 7002⟩, by decide⟩

def fromBob (raw : Bytes) : ServerEvent := .welcoming (.datagram raw (some bob) 0) secondAddress

/-- The ACK with which Bob begins a download, and what he asks for then: "a" -/
def operation : ServerEvent := fromBob (saw 48 [0, 1])

def asksForA : ServerEvent :=
  .connection secondAddress.toCombined (.datagram (saw 0 [97]) (some bob) 0)

def download : List ServerEvent := [fromBob syn, operation, asksForA]

def server (es : List ServerEvent) : Accepter := run (accepter .stopAndWait) (fun _ ↦ none) es

theorem completion_pos : 0 < (server (upload ++ completion)).clients.length := by decide +kernel

theorem download_pos : 0 < (server (upload ++ completion ++ download)).clients.length := by
  decide +kernel

end Local

/-- No two connections write one regular file, whatever they call it, and every one being written is
on disk. -/
theorem one_writer (cfg : AccepterConfig) (disk : Disk) (es : List ServerEvent) :
    ∀ b ∈ (run cfg disk es).clients, ∀ k, b.2.thread.held = some k →
      (run cfg disk es).disk k ≠ none ∧
        ∀ b' ∈ (run cfg disk es).clients, b'.2.thread.held = some k → b' = b := by
  have hk := run_keyed cfg disk es
  have hexclusive := run_exclusive cfg disk es
  intro b hb k hheld
  have hb' := (held_of_mem hk hb).trans hheld
  refine ⟨hexclusive.stored _ _ hb', fun b' hmem hheld' ↦ hk.eq_of_key hmem hb ?_⟩
  exact hexclusive.unique _ _ _ ((held_of_mem hk hmem).trans hheld') hb'

theorem one_writer_upload : (Local.server Local.upload).disk "storage/a" ≠ none ∧
    ∀ b' ∈ (Local.server Local.upload).clients, b'.2.thread.held = some "storage/a" →
      b' = (Local.server Local.upload).clients.get ⟨0, Local.upload_pos⟩ :=
  one_writer (Local.accepter .stopAndWait) (fun _ ↦ none) Local.upload _ (List.get_mem _ _) "storage/a"
    (by decide +kernel)

/-- Nothing that was stored before is changed or removed. -/
theorem stored_stays (cfg : AccepterConfig) (disk : Disk) (es : List ServerEvent) {path : String}
    {content : Bytes} (h : disk path = some content) : (run cfg disk es).disk path = some content := by
  have hsettled : Custody.Settled (run cfg disk []).custody path content := ⟨h, fun _ hheld ↦ (by cases hheld)⟩
  exact (hsettled.reaches (run_custody cfg disk [] es)).stored

theorem stored_stays_seven : (run (Local.accepter .stopAndWait) (fun _ ↦ some [7])
    (Local.upload ++ Local.completion)).disk "storage/a" = some [7] :=
  stored_stays (Local.accepter .stopAndWait) (fun _ ↦ some [7]) _ rfl

/-- What a completed upload left is settled; in its closing handshake it is on disk already. -/
structure Stored (a : Accepter) : Prop where
  closing : ∀ b ∈ a.clients, b.2.thread.phase = .closing → b.2.thread.OnDisk a.disk
  completed : ∀ b ∈ a.clients, Report.uploadCompleted ∈ b.2.thread.reports →
    ∃ file, b.2.thread.file = some file ∧ ∀ k ∈ file.node, Custody.Settled a.custody k file.written

theorem held_of_closing {c : ClientConnection} {file : File} (hp : c.phase = .closing)
    (hfile : c.file = some file) : c.held = file.node := by
  rw [ClientConnection.held, hp, ClientConnection.Store.held, ClientConnection.store, hfile]
  rfl

variable {key : String} {c : Connection} {ev : Event}

/-- A connection that enters its closing handshake, or stays in it, has its file on disk. -/
theorem Stored.turn_closing (h : a.Stored) (hm : a.Manned) (hmem : (key, c) ∈ a.clients)
    (hp : (a.turn c ev).thread.phase = .closing) :
    (a.turn c ev).thread.OnDisk (a.turn c ev).thread.disk := by
  have hknows := (hm.knows _ hmem).withDisk a.disk
  rcases (hm.does hmem ev).onDisk hknows.writes hp with ⟨hp', hstore⟩ | hon
  · obtain ⟨file, hfile, hon⟩ := h.closing _ hmem hp'
    refine ⟨file, (congrArg ClientConnection.Store.file hstore).trans hfile, ?_⟩
    have hdisk : (a.turn c ev).thread.disk = a.disk := congrArg ClientConnection.Store.disk hstore
    rw [hdisk]
    exact hon
  · exact hon

/-- A connection that reports its upload completed has left it settled. -/
theorem Stored.turn_completed (h : a.Stored) (hm : a.Manned) (hm' : a'.Manned)
    (hexclusive : Custody.Exclusive a.custody) (hmem : (key, c) ∈ a.clients)
    (hclients : a'.clients = a.clients.map fun e ↦ if e.1 = key then (key, a.turn c ev) else e)
    (hdisk : a'.disk = (a.turn c ev).thread.disk) (hstep : Custody.Step a.custody a'.custody)
    (hr : Report.uploadCompleted ∈ (a.turn c ev).thread.reports) :
    ∃ file, (a.turn c ev).thread.file = some file ∧
      ∀ k ∈ file.node, Custody.Settled a'.custody k file.written := by
  have hknows := (hm.knows _ hmem).withDisk a.disk
  have hmem' : (key, a.turn c ev) ∈ a'.clients := by
    rw [hclients]
    exact List.mem_map.mpr ⟨(key, c), hmem, if_pos rfl⟩
  obtain ⟨hp, hstore, hbefore⟩ := (hm.does hmem ev).reported hknows.completed hr
  have hfile' : (a.turn c ev).thread.file = c.thread.file :=
    congrArg ClientConnection.Store.file hstore
  have hdisk' : a'.disk = a.disk := hdisk.trans (congrArg ClientConnection.Store.disk hstore)
  rw [hfile']
  rcases hbefore with hr' | hp'
  · obtain ⟨file, hfile, hsettled⟩ := h.completed _ hmem hr'
    exact ⟨file, hfile, fun k hk ↦ (hsettled k hk).step hstep⟩
  · obtain ⟨file, hfile, hon⟩ := h.closing _ hmem hp'
    refine ⟨file, hfile, fun k hk ↦ hexclusive.settled (i := key) ?_ ?_ ?_ ?_⟩
    · rw [held_of_mem hm.keyed hmem]
      exact (held_of_closing hp' hfile).trans hk
    · rw [held_of_mem hm'.keyed hmem', ClientConnection.held, hp]
      exact (Option.some_ne_none _).symm
    · exact fun key' hne ↦ held_turn hm hm' hne hclients
    · show a'.disk k = some file.written
      rw [hdisk']
      exact hon k hk

theorem Stored.turns (h : a.Stored) (hm : a.Manned) (hm' : a'.Manned)
    (hexclusive : Custody.Exclusive a.custody) (ht : Turns cfg a e a') : a'.Stored := by
  have hstep : Custody.Step a.custody a'.custody := ht.custody hm hm'
  have completed : ∀ b ∈ a.clients, Report.uploadCompleted ∈ b.2.thread.reports →
      ∃ file, b.2.thread.file = some file ∧
        ∀ k ∈ file.node, Custody.Settled a'.custody k file.written := by
    intro b hb hr
    obtain ⟨file, hfile, hsettled⟩ := h.completed b hb hr
    exact ⟨file, hfile, fun k hk ↦ (hsettled k hk).step hstep⟩
  cases ht with
  | rests hnone hclients hdisk =>
      refine ⟨?_, by rwa [hclients]⟩
      rw [hclients, hdisk]
      exact h.closing
  | @runs key ev c he hmem hclients hdisk =>
      refine ⟨fun b hb hp ↦ ?_, fun b hb hr ↦ ?_⟩
      · rw [hclients] at hb
        obtain ⟨b', hb', rfl⟩ := List.mem_map.mp hb
        rw [hdisk]
        by_cases hkey : b'.1 = key
        · rw [if_pos hkey] at hp ⊢
          exact h.turn_closing hm hmem hp
        · rw [if_neg hkey] at hp ⊢
          obtain ⟨file, hfile, hon⟩ := h.closing b' hb' hp
          refine ⟨file, hfile, fun k hk ↦ (hm.acts hmem ev).stays ?_ (hon k hk)⟩
          have hheld := hexclusive.apart (j := b'.1) (i := key) (k := k)
          rw [held_of_mem hm.keyed hb', held_of_mem hm.keyed hmem] at hheld
          exact hheld ((held_of_closing hp hfile).trans hk) hkey
      · rw [hclients] at hb
        obtain ⟨b', hb', rfl⟩ := List.mem_map.mp hb
        by_cases hkey : b'.1 = key
        · rw [if_pos hkey] at hr ⊢
          exact h.turn_completed hm hm' hexclusive hmem hclients hdisk hstep hr
        · rw [if_neg hkey] at hr ⊢
          exact completed b' hb' hr
  | @adds raw B A c bound now _ _ he hcompletes hpoint hclients hdisk =>
      have hstarts := createConnection_starts cfg c A (getPacketFromBytes (raw.take commsBufferSize))
        a.disk now
      refine ⟨fun b hb hp ↦ ?_, fun b hb hr ↦ ?_⟩
      · rw [hclients] at hb
        rw [hdisk]
        rcases ClientPool.mem_add.mp hb with rfl | ⟨hb, -⟩
        · exact absurd hp hstarts.phase.1
        · exact h.closing b (List.mem_of_mem_filter hb) hp
      · rw [hclients] at hb
        rcases ClientPool.mem_add.mp hb with rfl | ⟨hb, -⟩
        · exact absurd (hstarts.reports ▸ hr) List.not_mem_nil
        · exact completed b (List.mem_of_mem_filter hb) hr

theorem run_stored (cfg : AccepterConfig) (disk : Disk) (es : List ServerEvent) :
    (run cfg disk es).Stored := by
  induction es using List.reverseRecOn with
  | nil => exact ⟨fun _ hb ↦ absurd hb List.not_mem_nil, fun _ hb ↦ absurd hb List.not_mem_nil⟩
  | append_singleton es e ih =>
      exact ih.turns (run_manned cfg disk es) (run_manned cfg disk (es ++ [e]))
        (run_exclusive cfg disk es) (run_turns cfg disk es e)

/-- What an upload reported completed has written to a regular file is on disk from then on. -/
theorem completed_stays (cfg : AccepterConfig) (disk : Disk) (es : List ServerEvent) :
    ∀ b ∈ (run cfg disk es).clients, Report.uploadCompleted ∈ b.2.thread.reports →
      ∃ file, b.2.thread.file = some file ∧
        ∀ k ∈ file.node, ∀ es', (run cfg disk (es ++ es')).disk k = some file.written := by
  intro b hb hr
  obtain ⟨file, hfile, hsettled⟩ := (run_stored cfg disk es).completed b hb hr
  exact ⟨file, hfile, fun k hk es' ↦ ((hsettled k hk).reaches (run_custody cfg disk es es')).stored⟩

theorem completed_stays_five :
    ∃ file, ((Local.server (Local.upload ++ Local.completion)).clients.get
        ⟨0, Local.completion_pos⟩).2.thread.file = some file ∧ ∀ es',
      (Local.server (Local.upload ++ Local.completion ++ es')).disk "storage/a" = some file.written := by
  obtain ⟨file, hfile, hstays⟩ := completed_stays (Local.accepter .stopAndWait) (fun _ ↦ none)
    (Local.upload ++ Local.completion) _ (List.get_mem _ ⟨0, Local.completion_pos⟩) (by decide +kernel)
  refine ⟨file, hfile, hstays "storage/a" ?_⟩
  have hnode : (some file).bind File.node = some "storage/a" := by
    rw [← hfile]
    decide +kernel
  exact hnode

/-- What an upload reported completed has written to a regular file is what the connections accepted
after that read of it, if they download it. -/
theorem read_after_completed (cfg : AccepterConfig) (disk : Disk) (es es₁ es₂ : List ServerEvent)
    (e : ServerEvent) : ∀ b ∈ (run cfg disk es).clients, Report.uploadCompleted ∈ b.2.thread.reports →
      ∀ b' ∈ (run cfg disk (es ++ es₁ ++ e :: es₂)).clients,
        (run cfg disk (es ++ es₁)).accepts e = some b'.1 → b'.2.thread.phase = .transmitting →
          ∀ file, b'.2.thread.file = some file → ∃ written, b.2.thread.file = some written ∧
            ∀ k ∈ written.node, file.node = some k → file.content = written.written := by
  intro b hb hr b' hb' haccepts hp file hfile
  obtain ⟨written, hwritten, hstays⟩ := completed_stays cfg disk es b hb hr
  obtain ⟨before, raw, B, now, bound, after, moment, -, hbefore, -, -, hmoment, -, heq⟩ :=
    (among_of_accepts (List.prefix_append es es₁) haccepts es₂ hb').alone.since
  obtain ⟨later, rfl⟩ := hbefore.trans hmoment
  generalize hd : (run cfg disk (es ++ later)).disk = d at heq
  generalize hrun : ClientConnection.run b'.2.cfg d now (after.filterMap (ServerEvent.addressed b'.1)) = c
    at heq
  rw [heq] at hp hfile
  have hreads : c.Reads d := by
    rw [← hrun] at hp ⊢
    exact ClientConnection.run_reads b'.2.cfg d now _ hp
  refine ⟨written, hwritten, fun k hk hnode ↦ ?_⟩
  have hcontent := hreads.content file hfile
  rw [hnode, Option.bind_some, ← hd, hstays k hk later] at hcontent
  exact (Option.some.inj hcontent).symm

theorem read_after_completed_five :
    ∃ file, ((Local.server (Local.upload ++ Local.completion ++ Local.download)).clients.get
        ⟨0, Local.download_pos⟩).2.thread.file = some file ∧ ∃ written,
      ((Local.server (Local.upload ++ Local.completion)).clients.get
        ⟨0, Local.completion_pos⟩).2.thread.file = some written ∧ file.content = written.written := by
  have hopen : ((Local.server (Local.upload ++ Local.completion ++ Local.download)).clients.get
      ⟨0, Local.download_pos⟩).2.thread.file.isSome = true := by decide +kernel
  obtain ⟨file, hfile⟩ := Option.isSome_iff_exists.mp hopen
  obtain ⟨written, hwritten, hsame⟩ := read_after_completed (Local.accepter .stopAndWait) (fun _ ↦ none)
    (Local.upload ++ Local.completion) [Local.fromBob Local.syn] [Local.asksForA] Local.operation _
    (List.get_mem _ ⟨0, Local.completion_pos⟩) (by decide +kernel) _
    (List.get_mem _ ⟨0, Local.download_pos⟩) (by decide +kernel) (by decide +kernel) file hfile
  refine ⟨file, hfile, written, hwritten, hsame "storage/a" ?_ ?_⟩
  · have hnode : (some written).bind File.node = some "storage/a" := by
      rw [← hwritten]
      decide +kernel
    exact hnode
  · have hnode : (some file).bind File.node = some "storage/a" := by
      rw [← hfile]
      decide +kernel
    exact hnode

end Accepter

end Rdt.Server
