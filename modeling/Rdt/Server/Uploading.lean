import Rdt.Server.Connection

/-!
# What one event does to the storage

The phases of a connection, and all that a step can make of its file, the storage and the
reports.
-/

namespace Rdt

namespace GoBackNReceiver

/-- The number of the packet `receive_file` waits for. -/
def expected (r : GoBackNReceiver) : Nat :=
  match r.point with
  | .receiveFirstChunk => r.ackNumber.value + 1
  | .receiveLoop => r.sqnNumber.value

theorem mem_chunkReplies {r : GoBackNReceiver} {packet : Packet} {reply : Reply}
    (h : reply ∈ r.chunkReplies packet) : reply = .sendAck r.sqnNumber r.ackNumber := by
  unfold chunkReplies at h
  split at h
  · exact List.mem_singleton.mp h
  · exact absurd h List.not_mem_nil

/-- What a packet makes of the receiver: the replies carry its numbers, its numbers still fit, and
it returns on the FIN it waits for, having taken all the data of it. -/
theorem onPacket_spec (r : GoBackNReceiver) {packet : Packet}
    (hlen : packet.payloadLength = 0 → packet.data = []) :
    (∀ reply ∈ (r.onPacket packet).replies, reply = .resendLast ∨
        reply = .sendAck r.sqnNumber r.ackNumber) ∧
      (r.sqnNumber.value < 2 ^ 32 ∧ r.ackNumber.value < 2 ^ 32 →
        (r.onPacket packet).receiver.sqnNumber.value < 2 ^ 32 ∧
          (r.onPacket packet).receiver.ackNumber.value < 2 ^ 32) ∧
      ((r.onPacket packet).finished = true → packet.isFin = true ∧
        packet.sequenceNumber = r.expected ∧ ((r.onPacket packet).appended = some packet ∨
          (r.onPacket packet).appended = none ∧ packet.data = [])) := by
  unfold onPacket expected
  cases r.point with
  | receiveFirstChunk =>
      dsimp only [onFirstPacket]
      split
      · rename_i hnum
        refine ⟨fun reply h ↦ .inr (mem_chunkReplies h),
          fun _ ↦ ⟨SequenceNumber.step_value_lt _, SequenceNumber.step_value_lt _⟩, fun hfin ↦ ?_⟩
        refine ⟨hfin, hnum, ?_⟩
        by_cases hpos : 0 < packet.payloadLength
        · exact .inl (if_pos ⟨hfin, hpos⟩)
        · exact .inr ⟨if_neg fun h ↦ hpos h.2, hlen (by omega)⟩
      · refine ⟨fun reply h ↦ ?_, id, nofun⟩
        rcases List.mem_append.mp h with h | h
        · exact .inr (mem_chunkReplies h)
        · exact .inl (List.mem_singleton.mp h)
  | receiveLoop =>
      dsimp only [onLoopPacket]
      split
      · rename_i hnum
        refine ⟨fun reply h ↦ .inr (mem_chunkReplies h), fun h ↦ ?_, fun hfin ↦ ⟨hfin, hnum.symm, .inl rfl⟩⟩
        split
        · exact h
        · exact ⟨SequenceNumber.step_value_lt _, SequenceNumber.step_value_lt _⟩
      · exact ⟨fun reply h ↦ .inr (List.mem_singleton.mp h), id, nofun⟩

end GoBackNReceiver

namespace Server.ClientConnection

open PacketParser ServerProtocol

/-- The part of a connection the storage depends on. -/
structure Store where
  file : Option File
  disk : Disk
  filenameForUpload : Option String
  filesizeForUpload : Option Nat

namespace Store

variable (h : FileHandler) (s : Store)

/-- The data of a packet is written, if there is one and a file. -/
def append (taken : Option Packet) : Store :=
  match taken, s.file with
  | some packet, some file =>
      { s with
        file := some (FileHandler.appendToFile file packet)
        disk := h.flush s.disk (FileHandler.appendToFile file packet) }
  | _, _ => s

def close : Store :=
  match s.file with
  | some file =>
      { s with file := some (FileHandler.close file), disk := FileHandler.closeOnDisk s.disk file }
  | none => s

/-- What an exception in `run` leaves behind. -/
def abandon (e : Exn) : Store :=
  if e.cls ∈ recoverable then s
  else match s.filenameForUpload with
    | some filename =>
        { s with disk := h.removeFileIfCorruptedOrIncomplete s.disk filename s.filesizeForUpload false }
    | none => s

end Store

def store (c : ClientConnection) : Store :=
  ⟨c.file, c.disk, c.filenameForUpload, c.filesizeForUpload⟩

inductive Phase where
  | naming
  | sizing (filename : String)
  | receiving
  | closing
  | refusing
  | transmitting
  | halted
deriving DecidableEq

/-- The upload is under way. -/
def Phase.Uploads : Phase → Prop
  | .naming | .sizing _ | .receiving => True
  | .closing | .refusing | .transmitting | .halted => False

def phase (c : ClientConnection) : Phase :=
  match c.point with
  | .receiveFilenameForUpload => .naming
  | .receiveFilesize filename => .sizing filename
  | .receiveFileChunk | .receiveFileGbn _ => .receiving
  | .closingHandshakeForUpload => .closing
  | .initiateCloseConnection => .refusing
  | .receiveFilenameForDownload | .waitForChunkAck _ _ _ | .waitForFirstPacketAck
  | .sendFileGbn _ | .closingHandshakeForDownload => .transmitting
  | .ended => .halted

/-- The number of the data packet the connection waits for. -/
def expectedNumber (c : ClientConnection) : Option Nat :=
  match c.point with
  | .receiveFileChunk => some c.sequenceNumber.value
  | .receiveFileGbn receiver => some receiver.expected
  | _ => none

/-- The packet that ends the data: it has a FIN and the number waited for. -/
def last (c : ClientConnection) (ev : Event) : Option Packet :=
  match ev with
  | .datagram raw (some _) _ =>
      let packet := getPacketFromBytes (raw.take fullBufferSize)
      if raw ≠ [] ∧ packet.isFin ∧ c.expectedNumber = some packet.sequenceNumber then some packet
      else none
  | _ => none

/-- The event announces a size that is refused. -/
def tooBig (cfg : Config) (c : ClientConnection) (ev : Event) : Bool :=
  match reListenIfFailed (receiveFilesize cfg.protocolVersion c.sequenceNumber) c.socket c.listening
      ev with
  | .returned r => !cfg.fileHandler.canFileFit r.2
  | _ => false

/-- The numbers fit their header fields. -/
structure Fits (cfg : Config) (c : ClientConnection) : Prop where
  numbers : cfg.protocolVersion = .goBackN →
    c.sequenceNumber.value < 2 ^ 32 ∧ ∃ n, c.ackNumber = some n ∧ n.value < 2 ^ 32
  receiver : ∀ r, c.point = .receiveFileGbn r →
    r.sqnNumber.value < 2 ^ 32 ∧ r.ackNumber.value < 2 ^ 32

/-- All that one event can do to the storage. -/
inductive Does (cfg : Config) (c : ClientConnection) (ev : Event) (c' : ClientConnection) : Prop
  | waits (hphase : c'.phase = c.phase) (hstore : c'.store = c.store)
      (hrep : c'.reports = c.reports) (hfits : Fits cfg c → Fits cfg c')
  | opens {name : String} {file : File} {disk : Disk} (hp : c.phase = .naming)
      (hopen : cfg.fileHandler.openFileWriteMode c.disk name false = .ok (file, disk))
      (hphase : c'.phase = .sizing name)
      (hstore : c'.store = { c.store with file := some file, disk })
      (hrep : c'.reports = c.reports) (hfits : Fits cfg c')
  | accepts {name : String} {size : Nat} (hp : c.phase = .sizing name)
      (hfit : cfg.fileHandler.canFileFit size = true) (hphase : c'.phase = .receiving)
      (hstore : c'.store =
        { c.store with filenameForUpload := some name, filesizeForUpload := some size })
      (hrep : c'.reports = c.reports) (hfits : Fits cfg c')
  | appends (packet : Option Packet) (hp : c.phase = .receiving) (hphase : c'.phase = .receiving)
      (hstore : c'.store = c.store.append cfg.fileHandler packet) (hrep : c'.reports = c.reports)
      (hfits : Fits cfg c')
  | finishes {packet : Packet} {taken : Option Packet} (hp : c.phase = .receiving)
      (hlast : c.last ev = some packet)
      (htaken : taken = some packet ∨ taken = none ∧ packet.data = [])
      (hphase : c'.phase = .closing) (hstore : c'.store = (c.store.append cfg.fileHandler taken).close)
      (hrep : c'.reports = c.reports ++ [.connectionFinalizationReceived])
  | completes (hp : c.phase = .closing) (hphase : c'.phase = .halted) (hstore : c'.store = c.store)
      (hrep : c'.reports = c.reports ++ [.uploadCompleted])
  | refuses (hp : c.phase = .naming ∨ c.phase = .refusing ∨ ∃ name, c.phase = .sizing name ∧
        c.tooBig cfg ev = true)
      (hphase : c'.phase = .refusing ∨ c'.phase = .halted)
      (hstore : c.filenameForUpload = none → c'.store = c.store) (hrep : c'.reports = c.reports)
  | fails {e : Exn} (hp : c.phase ≠ .halted) (he : (c.listened cfg ev).exn = some e)
      (hclosing : c.phase = .closing → closingSwallows cfg e.cls = false) (hphase : c'.phase = .halted)
      (hstore : c'.store = c.store.abandon cfg.fileHandler e) (hrep : c'.reports = c.reports)
  | transmits (hp : c.phase = .transmitting)
      (hphase : c'.phase = .transmitting ∨ c'.phase = .refusing ∨ c'.phase = .halted)
      (hdisk : c.filenameForUpload = none → c'.disk = c.disk)
      (hname : c'.filenameForUpload = c.filenameForUpload)
      (hrep : Report.uploadCompleted ∈ c'.reports ↔ Report.uploadCompleted ∈ c.reports)

variable {cfg : Config} {c : ClientConnection} {ev : Event}

theorem Does.of_outbox {o : Outbox} {c' : ClientConnection}
    (h : Does cfg { c with outbox := o } ev c') : Does cfg c ev c' := by
  cases h with
  | waits hphase hstore hrep hfits => exact .waits hphase hstore hrep fun h ↦ hfits ⟨h.1, h.2⟩
  | opens hp hopen hphase hstore hrep hfits => exact .opens hp hopen hphase hstore hrep hfits
  | accepts hp hfit hphase hstore hrep hfits => exact .accepts hp hfit hphase hstore hrep hfits
  | appends packet hp hphase hstore hrep hfits =>
      exact .appends packet hp hphase hstore hrep hfits
  | finishes hp hlast htaken hphase hstore hrep =>
      exact .finishes hp hlast htaken hphase hstore hrep
  | completes hp hphase hstore hrep => exact .completes hp hphase hstore hrep
  | refuses hp hphase hstore hrep => exact .refuses hp hphase hstore hrep
  | fails hp he hclosing hphase hstore hrep => exact .fails hp he hclosing hphase hstore hrep
  | transmits hp hphase hdisk hname hrep => exact .transmits hp hphase hdisk hname hrep

/-! ## What the functions of the connection do to the store -/

@[simp] theorem store_appendTaken (taken : Option Packet) :
    (appendTaken cfg c taken).store = c.store.append cfg.fileHandler taken := by
  cases taken with
  | none => rfl
  | some packet =>
      cases hf : c.file <;> simp [appendTaken, appendToFile, Store.append, store, hf]

@[simp] theorem store_closeWritten : c.closeWritten.store = c.store.close := by
  cases hf : c.file <;> simp [closeWritten, Store.close, store, hf]

/-- An exception of the receive ends the connection. -/
theorem handle_fails {now : Time} {c₁ : ClientConnection} {e : Exn}
    (hp : c.phase ≠ .halted) (he : (c.listened cfg ev).exn = some e) (hne : e.cls ≠ .connectionClosingNeeded)
    (hclosing : c.phase = .closing → closingSwallows cfg e.cls = false)
    (hstore : c₁.store = c.store) (hrep : c₁.reports = c.reports) :
    Does cfg c ev (handle cfg now (.error (e, c₁))) := by
  have hcleanup : ∀ c₂ : ClientConnection, c₂.store = c.store → e.cls ∉ recoverable →
      (fileCleanupAfterError cfg c₂).finish.store = c.store.abandon cfg.fileHandler e := by
    intro c₂ h₂ hcls
    rw [Store.abandon, if_neg hcls, ← h₂, fileCleanupAfterError]
    cases c₂ with
    | mk =>
      dsimp only [store]
      split <;> rfl
  simp only [handle, if_neg hne]
  split
  · rename_i hcls
    exact .fails hp he hclosing rfl (by rw [Store.abandon, if_pos hcls, ← hstore]; rfl) hrep
  · rename_i hcls
    refine .fails hp he hclosing rfl (hcleanup _ (by rw [← hstore]; rfl) hcls) ?_
    rw [← hrep, fileCleanupAfterError]
    split <;> rfl

/-- A receive of an upload whose exceptions `run` gets. -/
theorem listen_does {α : Type} {op : Operation α} {k : ClientConnection → α → Exec}
    (hl : c.listened cfg ev = (reListenIfFailed op c.socket c.listening ev).void)
    (hraises : ∀ {e}, op.Raises e → e.cls ∈ receiveRaises) (hphase : c.phase ≠ .closing)
    (hp : c.phase ≠ .halted) (hk : ∀ a, reListenIfFailed op c.socket c.listening ev = .returned a →
      Does cfg c ev (handle cfg ev.now (k c a))) :
    Does cfg c ev (handle cfg ev.now (listen c op ev (onSuccess k))) := by
  have fails : ∀ e b, reListenIfFailed op c.socket c.listening ev = .raised e b → op.Raises e →
      Does cfg c ev (handle cfg ev.now (.error (e, c.retransmit b))) := by
    intro e b h he
    exact handle_fails hp (by rw [hl, h]; rfl) (receiveRaises_ne (hraises he))
      (fun h ↦ absurd h hphase) rfl rfl
  have hspec := reListens op c.socket c.listening ev
  unfold listen
  cases h : reListenIfFailed op c.socket c.listening ev with
  | listening r b => exact .waits rfl rfl rfl fun hf ↦ ⟨hf.1, hf.2⟩
  | returned a => exact hk a h
  | raised e b =>
      rw [h] at hspec
      cases hspec with
      | letThrough he => exact fails e false h he.raises
      | exhausted he => exact fails e true h he.raises

/-! ## Sending -/

theorem send_eq (h : cfg.protocolVersion = .goBackN →
      c.sequenceNumber.value < 2 ^ 32 ∧ ∃ n, c.ackNumber = some n ∧ n.value < 2 ^ 32)
    (isAck isFin : Bool) : ∃ raw, send cfg c isAck isFin [] = .ok (handed cfg c raw) := by
  obtain ⟨raw, hraw⟩ := Protocol.encode_ok cfg.protocolVersion h isAck false isFin cfg.address.port
    (show ([] : Bytes).length < 2 ^ 16 by decide)
  exact ⟨raw, by rw [send_eq_encode, hraw]⟩

/-! ## Point by point -/

theorem store_fileCleanupAfterError (h : c.filenameForUpload = none) :
    (fileCleanupAfterError cfg c).store = c.store := by
  simp [fileCleanupAfterError, h]

theorem initiateCloseConnection_phase (now : Time) (c : ClientConnection) :
    ((initiateCloseConnection cfg now c).phase = .refusing ∨
        (initiateCloseConnection cfg now c).phase = .halted) ∧
      (initiateCloseConnection cfg now c).store = c.store ∧
      (initiateCloseConnection cfg now c).reports = c.reports := by
  simp only [initiateCloseConnection, sendFin, ClientConnection.send_eq_encode]
  cases Protocol.encode cfg.protocolVersion c.stepSequence.stepAck.sequenceNumber
      c.stepSequence.stepAck.ackNumber false false true cfg.address.port [] with
  | error e => exact ⟨.inr rfl, rfl, rfl⟩
  | ok raw => exact ⟨.inl rfl, rfl, rfl⟩

/-- Whatever the exception, nothing is lost as long as there is no name to clean up. -/
theorem handle_error_kept (now : Time) (c : ClientConnection) (e : Exn) :
    ((handle cfg now (.error (e, c))).phase = .refusing ∨
        (handle cfg now (.error (e, c))).phase = .halted) ∧
      (c.filenameForUpload = none → (handle cfg now (.error (e, c))).store = c.store) ∧
      (handle cfg now (.error (e, c))).reports = c.reports ∧
      (handle cfg now (.error (e, c))).filenameForUpload = c.filenameForUpload := by
  unfold handle
  dsimp only
  split
  · obtain ⟨hphase, hstore, hrep⟩ := initiateCloseConnection_phase now c
    exact ⟨hphase, fun _ ↦ hstore, hrep, congrArg Store.filenameForUpload hstore⟩
  · split
    · exact ⟨.inr rfl, fun _ ↦ rfl, rfl, rfl⟩
    · refine ⟨.inr rfl, fun h ↦ store_fileCleanupAfterError (c := { c with state := _ }) h, ?_⟩
      simp only [fileCleanupAfterError, finish]
      split <;> exact ⟨rfl, rfl⟩

theorem onFilenameForUpload_does (hp : c.point = .receiveFilenameForUpload) (hf : Fits cfg c)
    (now : Time) {r : SequenceNumber × String} (hr : r.1 = ⟨c.sequenceNumber.value, cfg.protocolVersion⟩) :
    Does cfg c ev (handle cfg now (onFilenameForUpload cfg now c r)) := by
  have hphase : c.phase = .naming := by rw [phase, hp]
  unfold onFilenameForUpload
  dsimp only
  cases hopen : cfg.fileHandler.openFileWriteMode c.disk r.2 false with
  | ok opened =>
      obtain ⟨file, disk⟩ := opened
      obtain ⟨raw, hsend⟩ := send_eq
        (c := { c with sequenceNumber := r.1, file := some file, disk })
        (fun h ↦ by rw [hr]; exact hf.numbers h) true false
      simp only [sendAck, hsend]
      exact .opens hphase hopen rfl rfl rfl
        ⟨fun h ↦ ⟨SequenceNumber.step_value_lt _, (hf.numbers h).2⟩, nofun⟩
  | error e =>
      dsimp only
      split
      · obtain ⟨h₁, h₂, h₃, -⟩ := handle_error_kept now
          { c with sequenceNumber := r.1, state := .unrecoverableBadState }
          ExnClass.connectionClosingNeeded.exn
        exact .refuses (.inl hphase) h₁ h₂ h₃
      · obtain ⟨h₁, h₂, h₃, -⟩ := handle_error_kept now { c with sequenceNumber := r.1 } e
        exact .refuses (.inl hphase) h₁ h₂ h₃

theorem onFilesize_does {filename : String} (hp : c.point = .receiveFilesize filename)
    (hf : Fits cfg c) (now : Time) {r : SequenceNumber × Nat}
    (hr : reListenIfFailed (receiveFilesize cfg.protocolVersion c.sequenceNumber) c.socket
      c.listening ev = .returned r) (hnum : r.1 = ⟨c.sequenceNumber.value, cfg.protocolVersion⟩) :
    Does cfg c ev (handle cfg now (onFilesize cfg now filename c r)) := by
  have hphase : c.phase = .sizing filename := by rw [phase, hp]
  unfold onFilesize
  dsimp only
  split
  · rename_i hfit
    have hstepped : cfg.protocolVersion = .goBackN → r.1.value < 2 ^ 32 ∧
        ∃ n, c.ackNumber.map SequenceNumber.step = some n ∧ n.value < 2 ^ 32 := by
      intro h
      obtain ⟨hn, m, hack, -⟩ := hf.numbers h
      exact ⟨by rw [hnum]; exact hn, m.step, by rw [hack]; rfl, SequenceNumber.step_value_lt m⟩
    obtain ⟨raw, hsend⟩ := send_eq
      (c := { c with sequenceNumber := r.1, ackNumber := c.ackNumber.map SequenceNumber.step })
      hstepped true false
    simp only [sendAck, stepAck, hsend, bind, Except.bind, pure, Except.pure, handle, startReception]
    split
    · rename_i hproto hack
      obtain ⟨hn, m, hm, hlt⟩ := hstepped hproto
      refine .accepts hphase hfit rfl rfl rfl ⟨fun h ↦ hstepped h, ?_⟩
      rintro _ ⟨⟩
      exact ⟨hn, Option.some.inj (hm.symm.trans hack) ▸ hlt⟩
    · exact .accepts hphase hfit rfl rfl rfl
        ⟨fun h ↦ ⟨SequenceNumber.step_value_lt _, (hstepped h).2⟩, fun _ h ↦ by cases h⟩
  · rename_i hfit
    obtain ⟨h₁, h₂, h₃, -⟩ := handle_error_kept now
      { { c with sequenceNumber := r.1 }.stepAck with state := .unrecoverableBadState }
      ExnClass.connectionClosingNeeded.exn
    exact .refuses (.inr (.inr ⟨filename, hphase, by simp [tooBig, hr, hfit]⟩)) h₁ h₂ h₃

/-- The last chunk is written: the connection confirms the FIN and sends its own. -/
theorem closingHandshakeForUpload_does {packet : Packet} {taken : Option Packet} (now : Time)
    (hphase : c.phase = .receiving) (hlast : c.last ev = some packet)
    (htaken : taken = some packet ∨ taken = none ∧ packet.data = []) {c₁ : ClientConnection}
    (hstore : c₁.store = c.store.append cfg.fileHandler taken) (hrep : c₁.reports = c.reports)
    (hf : cfg.protocolVersion = .goBackN →
      c₁.sequenceNumber.value < 2 ^ 32 ∧ ∃ n, c₁.ackNumber = some n ∧ n.value < 2 ^ 32) :
    Does cfg c ev (handle cfg now (closingHandshakeForUpload cfg now c₁.closeWritten)) := by
  have hnum : c₁.closeWritten.sequenceNumber = c₁.sequenceNumber ∧
      c₁.closeWritten.ackNumber = c₁.ackNumber ∧ c₁.closeWritten.reports = c₁.reports := by
    unfold closeWritten
    split <;> exact ⟨rfl, rfl, rfl⟩
  obtain ⟨raw, hack⟩ := send_eq
    (c := c₁.closeWritten.report .connectionFinalizationReceived)
    (by simpa [report, hnum] using hf) true false
  obtain ⟨raw', hfin⟩ := send_eq
    (c := handed cfg (c₁.closeWritten.report .connectionFinalizationReceived) raw)
    (by simpa [handed, report, hnum] using hf) false true
  simp only [closingHandshakeForUpload, sendAck, hack, sendFin, hfin, bind, Except.bind, pure,
    Except.pure, finallyDone, handle]
  refine .finishes hphase hlast htaken rfl ?_ ?_
  · rw [← hstore, ← store_closeWritten]
    rfl
  · rw [← hrep, ← hnum.2.2]
    rfl

theorem appendToFile_frame (cfg : Config) (c : ClientConnection) (packet : Packet) :
    (appendToFile cfg c packet).sequenceNumber = c.sequenceNumber ∧
      (appendToFile cfg c packet).ackNumber = c.ackNumber ∧
      (appendToFile cfg c packet).reports = c.reports ∧
      (appendToFile cfg c packet).point = c.point := by
  unfold appendToFile
  split <;> exact ⟨rfl, rfl, rfl, rfl⟩

theorem onFileChunk_does (hp : c.point = .receiveFileChunk) (hf : Fits cfg c) (now : Time)
    {r : SequenceNumber × Packet} (hnum : r.1 = ⟨c.sequenceNumber.value, cfg.protocolVersion⟩)
    (hlast : r.2.isFin = true → c.last ev = some r.2) :
    Does cfg c ev (handle cfg now (onFileChunk cfg now c r)) := by
  have hphase : c.phase = .receiving := by rw [phase, hp]
  have hfits : cfg.protocolVersion = .goBackN → r.1.value < 2 ^ 32 ∧
      ∃ n, c.ackNumber = some n ∧ n.value < 2 ^ 32 := fun h ↦ by rw [hnum]; exact hf.numbers h
  unfold onFileChunk
  dsimp only
  cases hfin : r.2.isFin with
  | true =>
      obtain ⟨hs, ha, hr, -⟩ := appendToFile_frame cfg { c with sequenceNumber := r.1 } r.2
      refine closingHandshakeForUpload_does now hphase (hlast hfin) (.inl rfl) ?_ hr ?_
      · exact store_appendTaken (c := { c with sequenceNumber := r.1 }) (some r.2)
      · rw [hs, ha]
        exact hfits
  | false =>
      obtain ⟨raw, hsend⟩ := send_eq (c := { c with sequenceNumber := r.1 }) hfits true false
      obtain ⟨-, ha, hr, -⟩ := appendToFile_frame cfg (handed cfg { c with sequenceNumber := r.1 } raw) r.2
      simp only [Bool.false_eq_true, if_false, sendAck, hsend, bind, Except.bind, pure, Except.pure, handle]
      refine .appends (some r.2) hphase rfl ?_ hr ⟨fun h ↦ ⟨SequenceNumber.step_value_lt _, ?_⟩,
        fun _ h ↦ by cases h⟩
      · exact store_appendTaken (c := handed cfg { c with sequenceNumber := r.1 } raw) (some r.2)
      · show ∃ n, (appendToFile cfg _ r.2).ackNumber = some n ∧ _
        rw [ha]
        exact (hfits h).2

variable (cfg) in
/-- The replies of the receiver are all sent. -/
theorem sendReplies_eq {receiver : GoBackNReceiver}
    (hf : receiver.sqnNumber.value < 2 ^ 32 ∧ receiver.ackNumber.value < 2 ^ 32)
    {replies : List GoBackNReceiver.Reply}
    (hreplies : ∀ reply ∈ replies, reply = .resendLast ∨
      reply = .sendAck receiver.sqnNumber receiver.ackNumber) (c : ClientConnection) :
    ∃ outbox, replies.foldlM (sendReply cfg receiver) c = (.ok { c with outbox } : Exec) := by
  induction replies generalizing c with
  | nil => exact ⟨c.outbox, rfl⟩
  | cons reply replies ih =>
      have hone : ∃ outbox, sendReply cfg receiver c reply = .ok { c with outbox } := by
        rcases hreplies reply List.mem_cons_self with rfl | rfl
        · exact ⟨_, rfl⟩
        · obtain ⟨raw, hraw⟩ := Protocol.encode_ok .goBackN
            (fun _ ↦ ⟨hf.1, receiver.ackNumber, rfl, hf.2⟩) true false false cfg.address.port
            (show ([] : Bytes).length < 2 ^ 16 by decide)
          exact ⟨_, by rw [sendReply, hraw]⟩
      obtain ⟨outbox, hone⟩ := hone
      obtain ⟨outbox', hrest⟩ := ih (fun r hr ↦ hreplies r (List.mem_cons_of_mem reply hr))
        { c with outbox }
      exact ⟨outbox', by rw [List.foldlM_cons, hone]; exact hrest⟩

theorem onGbnPacket_does {receiver : GoBackNReceiver} (hp : c.point = .receiveFileGbn receiver)
    (hf : Fits cfg c) (now : Time) {packet : Packet}
    (hlen : packet.payloadLength = 0 → packet.data = [])
    (hlast : packet.isFin = true → packet.sequenceNumber = receiver.expected →
      c.last ev = some packet) :
    Does cfg c ev (handle cfg now (onGbnPacket cfg now receiver c packet)) := by
  have hphase : c.phase = .receiving := by rw [phase, hp]
  obtain ⟨hreplies, hbounds, hfinished⟩ := receiver.onPacket_spec hlen
  have hnum := hbounds (hf.receiver receiver hp)
  obtain ⟨outbox, hsent⟩ := sendReplies_eq cfg (hf.receiver receiver hp) hreplies c
  simp only [onGbnPacket, hsent, bind, Except.bind, pure, Except.pure]
  generalize hc₁ : appendTaken cfg _ (receiver.onPacket packet).appended = c₁
  have hstore : c₁.store = c.store.append cfg.fileHandler (receiver.onPacket packet).appended := by
    rw [← hc₁, store_appendTaken]
    rfl
  have hframe : c₁.sequenceNumber = (receiver.onPacket packet).receiver.sqnNumber ∧
      c₁.ackNumber = some (receiver.onPacket packet).receiver.ackNumber ∧ c₁.reports = c.reports ∧
      c₁.point = .receiveFileGbn (receiver.onPacket packet).receiver := by
    subst hc₁
    cases (receiver.onPacket packet).appended with
    | none => exact ⟨rfl, rfl, rfl, rfl⟩
    | some p =>
        obtain ⟨h₁, h₂, h₃, h₄⟩ := appendToFile_frame cfg _ p
        exact ⟨h₁, h₂, h₃, h₄⟩
  obtain ⟨hsqn, hack, hrep, hpoint⟩ := hframe
  have hfits : cfg.protocolVersion = .goBackN →
      c₁.sequenceNumber.value < 2 ^ 32 ∧ ∃ n, c₁.ackNumber = some n ∧ n.value < 2 ^ 32 :=
    fun _ ↦ ⟨by rw [hsqn]; exact hnum.1, _, hack, hnum.2⟩
  cases hfin : (receiver.onPacket packet).finished with
  | true =>
      obtain ⟨hisfin, hexpected, htaken⟩ := hfinished hfin
      exact closingHandshakeForUpload_does now hphase (hlast hisfin hexpected) htaken hstore hrep hfits
  | false =>
      refine .appends _ hphase (by simp [phase, hpoint, handle]) hstore hrep ⟨hfits, ?_⟩
      intro r hr
      obtain rfl := Point.receiveFileGbn.inj (hpoint.symm.trans hr)
      exact hnum

theorem receiver_does {receiver : GoBackNReceiver} (hp : c.point = .receiveFileGbn receiver)
    (hf : Fits cfg c) (ev : Event) :
    Does cfg c ev (handle cfg ev.now (listenReceiver cfg receiver c ev)) := by
  have hphase : c.phase = .receiving := by rw [phase, hp]
  have hclosing : c.phase = .closing → ∀ e, closingSwallows cfg e = false := by
    rw [hphase]
    nofun
  have hlive : c.phase ≠ .halted := by
    rw [hphase]
    nofun
  unfold listenReceiver
  cases ev with
  | proceed now => exact .waits rfl rfl rfl id
  | timeout now =>
      exact handle_fails hlive (by simp only [listened, hp]; rfl) nofun
        (fun h ↦ hclosing h _) rfl rfl
  | osError now =>
      exact handle_fails hlive (by simp only [listened, hp]; rfl) nofun
        (fun h ↦ hclosing h _) rfl rfl
  | datagram raw source now =>
      dsimp only [SocketGbn.recvfrom, ServerProtocolGbn.receiveFileChunk,
        ServerProtocolGbn.validateInboundPacket]
      cases hin : Protocol.validateInboundPacket .missingClientAddress (raw.take fullBufferSize) source with
      | error e =>
          refine handle_fails hlive ?_ ?_ (fun h ↦ hclosing h _) rfl rfl
          · simp only [listened, hp, SocketGbn.recvfrom, ServerProtocolGbn.receiveFileChunk,
              ServerProtocolGbn.validateInboundPacket, hin]
            rfl
          · exact receiveRaises_ne (validateInboundPacket_error hin)
      | ok received =>
          obtain ⟨hraw, hsource, hpacket⟩ := Protocol.validateInboundPacket_eq_ok.mp hin
          obtain ⟨packet, address⟩ := received
          dsimp only at hsource hpacket
          subst hsource hpacket
          have hne : raw ≠ [] := by
            rintro rfl
            exact hraw (by simp)
          refine onGbnPacket_does hp hf now data_eq_nil_of_payloadLength fun hfin hexpected ↦ ?_
          exact if_pos ⟨hne, hfin, by rw [expectedNumber, hp, hexpected]⟩

theorem closing_does (hp : c.point = .closingHandshakeForUpload) (ev : Event) :
    Does cfg c ev (handle cfg ev.now (listen c
      ((waitForAck c.sequenceNumber).letThrough [.connectionLost]) ev (onClosingUpload cfg))) := by
  have hphase : c.phase = .closing := by rw [phase, hp]
  have hl : c.listened cfg ev = reListenIfFailed
      ((waitForAck c.sequenceNumber).letThrough [.connectionLost]) c.socket c.listening ev := by
    rw [listened, hp]
  have raised : ∀ e b, ((waitForAck c.sequenceNumber).letThrough [.connectionLost]).Raises e →
      (c.listened cfg ev).exn = some e →
      Does cfg c ev (handle cfg ev.now (onClosingUpload cfg (c.retransmit b) (.error e))) := by
    intro e b he hexn
    unfold onClosingUpload
    dsimp only
    split
    · exact .completes hphase rfl rfl rfl
    · rename_i hswallow
      exact handle_fails (by rw [hphase]; nofun) hexn (receiveRaises_ne (waitForAck_raises he))
        (fun _ ↦ Bool.eq_false_iff.mpr hswallow) rfl rfl
  have hspec := reListens ((waitForAck c.sequenceNumber).letThrough [.connectionLost]) c.socket
    c.listening ev
  unfold listen
  cases h : reListenIfFailed ((waitForAck c.sequenceNumber).letThrough [.connectionLost]) c.socket
      c.listening ev with
  | listening r b => exact .waits rfl rfl rfl fun hf ↦ ⟨hf.1, hf.2⟩
  | returned a => exact .completes hphase rfl rfl rfl
  | raised e b =>
      rw [h] at hspec hl
      cases hspec with
      | letThrough he => exact raised e false he.raises (by rw [hl]; rfl)
      | exhausted he => exact raised e true he.raises (by rw [hl]; rfl)

/-- Inside `initiate_close_connection` an event changes nothing, or ends the connection. -/
theorem refusing_does (hp : c.point = .initiateCloseConnection) (ev : Event) :
    Does cfg c ev (swallow (listen c (waitForFinOrAck c.sequenceNumber) ev (onSuccess (onFinOrAck cfg)))) := by
  have hphase : c.phase = .refusing := by rw [phase, hp]
  unfold listen
  cases reListenIfFailed (waitForFinOrAck c.sequenceNumber) c.socket c.listening ev with
  | listening r b => exact .waits rfl rfl rfl fun hf ↦ ⟨hf.1, hf.2⟩
  | returned a =>
      simp only [onSuccess, onFinOrAck, sendAck, ClientConnection.send_eq_encode]
      cases Protocol.encode cfg.protocolVersion c.stepSequence.stepAck.sequenceNumber
          c.stepSequence.stepAck.ackNumber true false false cfg.address.port [] with
      | error e => exact .refuses (.inr (.inl hphase)) (.inr rfl) (fun _ ↦ rfl) rfl
      | ok raw => exact .refuses (.inr (.inl hphase)) (.inr rfl) (fun _ ↦ rfl) rfl
  | raised e b => exact .refuses (.inr (.inl hphase)) (.inr rfl) (fun _ ↦ rfl) rfl

/-! ## Downloads -/

/-- A download leaves the storage alone and completes no upload. -/
structure Keeps (c c' : ClientConnection) : Prop where
  disk : c'.disk = c.disk
  name : c'.filenameForUpload = c.filenameForUpload
  completed : Report.uploadCompleted ∈ c'.reports ↔ Report.uploadCompleted ∈ c.reports

/-- A stretch of a download. -/
def Transmits (c : ClientConnection) : Exec → Prop
  | .ok c' => Keeps c c' ∧ (c'.phase = .transmitting ∨ c'.phase = .halted)
  | .error (_, c') => Keeps c c'

theorem Keeps.refl (c : ClientConnection) : Keeps c c := ⟨rfl, rfl, Iff.rfl⟩

theorem Keeps.send {c₁ : ClientConnection} (h : Keeps c c₁) {isAck isFin : Bool} {data : Bytes}
    {k : ClientConnection → Exec} (hk : ∀ c₂, Keeps c c₂ → Transmits c (k c₂)) :
    Transmits c (ClientConnection.send cfg c₁ isAck isFin data >>= k) := by
  rw [ClientConnection.send_eq_encode]
  cases Protocol.encode cfg.protocolVersion c₁.sequenceNumber c₁.ackNumber isAck false isFin
      cfg.address.port data with
  | error e => exact h
  | ok raw => exact hk _ ⟨h.disk, h.name, h.completed⟩

theorem Keeps.closingHandshake {c₁ : ClientConnection} (h : Keeps c c₁) (now : Time)
    (alreadyReceivedFinBack : Bool) :
    Transmits c (closingHandshakeForDownload cfg now alreadyReceivedFinBack c₁) := by
  unfold closingHandshakeForDownload
  split
  · have hreport : Keeps c (c₁.report .fileTransferComplete).stepSequence := by
      refine ⟨h.disk, h.name, ?_⟩
      simpa [report, stepSequence] using h.completed
    refine hreport.send fun c₂ h₂ ↦ ⟨⟨h₂.disk, h₂.name, ?_⟩, .inr rfl⟩
    · simpa [report, finish] using h₂.completed
  · exact ⟨⟨h.disk, h.name, h.completed⟩, .inl rfl⟩

theorem Keeps.transmitFile {c₁ : ClientConnection} (h : Keeps c c₁) (now : Time) (total : Nat)
    (chunks : List Bytes) (number : Nat) (first : Bool) :
    Transmits c (ClientConnection.transmitFile cfg now total chunks number first c₁) := by
  induction chunks generalizing c₁ number first with
  | nil => exact h.closingHandshake now false
  | cons chunk chunks ih =>
      have hstep : Keeps c (if first = true then c₁ else c₁.stepSequence) := by
        split
        · exact h
        · exact ⟨h.disk, h.name, h.completed⟩
      unfold ClientConnection.transmitFile
      refine hstep.send fun c₂ h₂ ↦ ?_
      split
      · exact ih h₂ _ _
      · exact ⟨⟨h₂.disk, h₂.name, h₂.completed⟩, .inl rfl⟩

theorem Keeps.onFilename {c₁ : ClientConnection} (h : Keeps c c₁) (now : Time)
    (r : SequenceNumber × String) : Transmits c (onFilenameForDownload cfg now c₁ r) := by
  have hstep : Keeps c { c₁ with sequenceNumber := r.1 }.stepAck := ⟨h.disk, h.name, h.completed⟩
  unfold onFilenameForDownload
  have hopened : ∀ file, Keeps c { { c₁ with sequenceNumber := r.1 }.stepAck with file := some file } :=
    fun _ ↦ ⟨hstep.disk, hstep.name, hstep.completed⟩
  dsimp only
  split
  · split
    · exact (hopened _).transmitFile now _ _ _ _
    · refine (hopened _).send fun c₂ h₂ ↦ ?_
      split
      · exact h₂.closingHandshake now false
      · exact ⟨⟨h₂.disk, h₂.name, h₂.completed⟩, .inl rfl⟩
  · split
    · exact hstep.send fun c₂ h₂ ↦ ⟨h₂.disk, h₂.name, h₂.completed⟩
    · exact hstep

theorem Keeps.onSender {c₁ : ClientConnection} (h : Keeps c c₁) (now : Time)
    (result : GoBackNSender.Result) : Transmits c (ClientConnection.onSender cfg now c₁ result) := by
  unfold ClientConnection.onSender
  split
  · exact ⟨⟨h.disk, h.name, h.completed⟩, .inl rfl⟩
  · refine Keeps.closingHandshake (?_ : Keeps c _) now _
    exact ⟨h.disk, h.name, h.completed⟩
  · exact h

theorem Keeps.onFirstPacketAck {c₁ : ClientConnection} (h : Keeps c c₁)
    (hphase : c₁.phase = .transmitting) (now : Time) :
    Transmits c (ClientConnection.onFirstPacketAck cfg now c₁) := by
  unfold ClientConnection.onFirstPacketAck
  split
  · refine Keeps.onSender (?_ : Keeps c _) now _
    exact ⟨h.disk, h.name, h.completed⟩
  · exact ⟨h, .inl hphase⟩

/-- A receive of a download. -/
theorem Keeps.listen {α : Type} {op : Operation α} {k : ClientConnection → α → Exec}
    (hphase : c.phase = .transmitting) (hk : ∀ a, Transmits c (k c a)) (ev : Event) :
    Transmits c (ClientConnection.listen c op ev (onSuccess k)) := by
  unfold ClientConnection.listen
  cases reListenIfFailed op c.socket c.listening ev with
  | listening r b => exact ⟨⟨rfl, rfl, Iff.rfl⟩, .inl hphase⟩
  | returned a => exact hk a
  | raised e b => exact ⟨rfl, rfl, Iff.rfl⟩

theorem Transmits.does {x : Exec} {now : Time} (h : Transmits c x) (hp : c.phase = .transmitting) :
    Does cfg c ev (handle cfg now x) := by
  cases x with
  | ok c' =>
      obtain ⟨hkeeps, hphase⟩ := h
      exact .transmits hp (hphase.imp_right .inr) (fun _ ↦ hkeeps.disk) hkeeps.name hkeeps.completed
  | error r =>
      obtain ⟨e, c'⟩ := r
      have h : Keeps c c' := h
      obtain ⟨hphase, hstore, hrep, hname⟩ := handle_error_kept now c' e
      refine .transmits hp (.inr hphase) (fun hnone ↦ ?_) (hname.trans h.name) (hrep ▸ h.completed)
      exact (congrArg Store.disk (hstore (h.name.trans hnone))).trans h.disk

theorem listenSender_transmits {sender : GoBackNSender} (hp : c.point = .sendFileGbn sender)
    (ev : Event) : Transmits c (listenSender cfg sender c ev) := by
  have hphase : c.phase = .transmitting := by rw [phase, hp]
  have hstays : Transmits c (.ok c) := ⟨Keeps.refl c, .inl hphase⟩
  unfold listenSender
  split
  · split
    · exact hstays
    · exact (Keeps.refl c).onSender ev.now _
  · split
    · exact (Keeps.refl c).onSender _ _
    · exact hstays

/-- Every step is one of these. -/
theorem step_does (hf : c.phase.Uploads → Fits cfg c) (ev : Event) : Does cfg c ev (step cfg c ev) := by
  refine Does.of_outbox (o := []) ?_
  have hf : Phase.Uploads (phase { c with outbox := [] }) → Fits cfg { c with outbox := [] } :=
    fun h ↦ ⟨(hf h).1, (hf h).2⟩
  unfold step
  generalize { c with outbox := [] } = c at hf
  dsimp only
  unfold onEvent
  cases hp : c.point with
  | receiveFilenameForUpload =>
      have hphase : c.phase = .naming := by rw [phase, hp]
      refine listen_does (by rw [listened, hp]) receiveFilename_raises (by rw [hphase]; nofun)
        (by rw [hphase]; nofun) fun r hr ↦ ?_
      obtain ⟨raw, source, -, hc⟩ := returned_check hr
      exact onFilenameForUpload_does hp (hf (by rw [hphase]; trivial)) ev.now
        (receiveFilename_eq_ok.mp hc).2.2.2.2
  | receiveFilesize filename =>
      have hphase : c.phase = .sizing filename := by rw [phase, hp]
      refine listen_does (by rw [listened, hp]) receiveFilesize_raises (by rw [hphase]; nofun)
        (by rw [hphase]; nofun) fun r hr ↦ ?_
      obtain ⟨raw, source, -, hc⟩ := returned_check hr
      obtain ⟨-, -, -, rfl⟩ := receiveFilesize_eq_ok.mp hc
      exact onFilesize_does hp (hf (by rw [hphase]; trivial)) ev.now hr rfl
  | receiveFileChunk =>
      have hphase : c.phase = .receiving := by rw [phase, hp]
      refine listen_does (by rw [listened, hp]) receiveFileChunk_raises (by rw [hphase]; nofun)
        (by rw [hphase]; nofun) fun r hr ↦ ?_
      obtain ⟨raw, source, hrecv, hc⟩ := returned_check hr
      obtain ⟨hraw, hsource, hnum, rfl⟩ := receiveFileChunk_eq_ok.mp hc
      obtain ⟨raw, now, rfl, rfl⟩ := ReListen.recvfrom_packet hrecv
      obtain ⟨address, rfl⟩ := Option.isSome_iff_exists.mp hsource
      refine onFileChunk_does hp (hf (by rw [hphase]; trivial)) now rfl fun hfin ↦ if_pos ⟨?_, hfin, ?_⟩
      · rintro rfl
        exact hraw rfl
      · rw [expectedNumber, hp]
        exact congrArg some hnum.symm
  | receiveFileGbn receiver =>
      exact receiver_does hp (hf (by rw [phase, hp]; trivial)) ev
  | closingHandshakeForUpload => exact closing_does hp ev
  | initiateCloseConnection => exact refusing_does hp ev
  | receiveFilenameForDownload =>
      have hphase : c.phase = .transmitting := by rw [phase, hp]
      exact (Keeps.listen hphase (fun r ↦ (Keeps.refl c).onFilename ev.now r) ev).does hphase
  | waitForChunkAck remaining chunkNumber totalChunks =>
      have hphase : c.phase = .transmitting := by rw [phase, hp]
      exact (Keeps.listen hphase (fun _ ↦ (Keeps.refl c).transmitFile ev.now _ _ _ _) ev).does hphase
  | waitForFirstPacketAck =>
      have hphase : c.phase = .transmitting := by rw [phase, hp]
      exact (Keeps.listen hphase (fun _ ↦ (Keeps.refl c).onFirstPacketAck hphase ev.now) ev).does hphase
  | sendFileGbn sender =>
      exact (listenSender_transmits hp ev).does (by rw [phase, hp])
  | closingHandshakeForDownload =>
      have hphase : c.phase = .transmitting := by rw [phase, hp]
      exact (Keeps.listen hphase (fun _ ↦ (Keeps.refl c).closingHandshake ev.now true) ev).does hphase
  | ended => exact .waits rfl rfl rfl id

end Server.ClientConnection

end Rdt
