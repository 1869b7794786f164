import Rdt.Gbn.Receiving

/-!
# Where a Go-Back-N transfer starts

Both ends have just entered `send_file` and `receive_file` with one number `σ`, which a step
gave and a step leads on from.  What was sent before may still be in flight; its numbers are
`σ` at most.
-/

namespace Rdt.Gbn

open Duplex SlidingWindow

variable {content : Bytes} {σ : Nat} {ccfg : Client.Config} {scfg : Server.Config}

/-- A datagram for the receiving end from the phases before. -/
def StaleData (σ : Nat) (raw : Bytes) : Prop :=
  ∃ d, toData raw = some d ∧ d.number ≤ σ ∧ d.last = false

/-- A datagram for the sending end from the phases before. -/
def StaleReply (σ : Nat) (raw : Bytes) : Prop :=
  ∃ r, toReply raw = some r ∧ r.number ≤ σ ∧ r.ack ≤ σ ∧ r.bare = false

/-- The chunks of a file. -/
def chunksOf (content : Bytes) : List Bytes := FileHandler.successiveReads fileChunkSizeGbn content

def totalChunks (content : Bytes) : Nat := (chunksOf content).length

theorem totalChunks_pos (h : content ≠ []) : 0 < totalChunks content := by
  rw [totalChunks, chunksOf, FileHandler.length_successiveReads]
  exact FileHandler.getNumberOfChunks_pos (by decide) (List.length_pos_iff.mpr h)

theorem flatten_chunksOf (content : Bytes) : (chunksOf content).flatten = content :=
  FileHandler.flatten_successiveReads (by decide) content

/-! ## Upload -/

/-- A client enters `send_file`. -/
structure ClientEntersSendFile (cfg : Client.Config) (peer : Address) (content : Bytes) (σ : Nat)
    (c' : Client) : Prop where
  proto : cfg.protocolVersion = .goBackN
  task : ∃ src name, cfg.task = .upload src name
  enters : ∃ (c : Client) (now : Time), Client.sendFile cfg now c = .ok c' ∧
    c.sequenceNumber = ⟨σ, .goBackN⟩ ∧ c.ackNumber = some ⟨σ, .goBackN⟩ ∧
    c.file.content = content ∧ c.file.position = 0 ∧ c.serverAddress = peer ∧ c.reports = []

/-- A connection enters `receive_file`, having acknowledged the file size. -/
structure ServerEntersReceiveFile (cfg : Server.Config) (σ : Nat) (c' : Server.ClientConnection) :
    Prop where
  proto : cfg.protocolVersion = .goBackN
  enters : ∃ (c : Server.ClientConnection) (now : Time) (filename : String) (size : Nat)
    (m : SequenceNumber),
    Server.ClientConnection.onFilesize cfg now filename c (⟨σ, .goBackN⟩, size) = .ok c' ∧
    c.ackNumber = some m ∧ m.step = ⟨σ, .goBackN⟩ ∧
    (∃ path node, c.file = some (.forWriting path node)) ∧ c.reports = []

structure UploadStarts (ccfg : Client.Config) (scfg : Server.Config) (content : Bytes) (σ : Nat)
    (w : World Client Server.ClientConnection Bytes Bytes) : Prop where
  agree : 0 < σ ∧ σ ≤ maxSequenceNumber
  client : ClientEntersSendFile ccfg scfg.address content σ w.left
  server : ServerEntersReceiveFile scfg σ w.right
  toRight : ∀ raw ∈ w.toRight, StaleData σ raw
  toLeft : ∀ raw ∈ w.toLeft, StaleReply σ raw

/-- The client of an upload and its connection, over channels of discipline `D`. -/
def uploadSystem (D : Discipline) (ccfg : Client.Config) (scfg : Server.Config) :
    Lts (World Client Server.ClientConnection Bytes Bytes) (Label Bytes Bytes) :=
  system D (Client.node ccfg scfg.address) (Server.ClientConnection.node scfg)

/-! ## Download -/

/-- A connection enters `send_file`: its first chunk is acknowledged. -/
structure ServerEntersSendFile (cfg : Server.Config) (content : Bytes) (σ : Nat)
    (c' : Server.ClientConnection) : Prop where
  proto : cfg.protocolVersion = .goBackN
  enters : ∃ (c : Server.ClientConnection) (now : Time) (path : String)
    (node : Option String),
    Server.ClientConnection.onFirstPacketAck cfg now c = .ok c' ∧
    c.sequenceNumber = ⟨σ, .goBackN⟩ ∧ c.ackNumber = some ⟨σ, .goBackN⟩ ∧
    c.file = some (FileHandler.read (.forReading path node content) fileChunkSizeGbn).2 ∧ c.reports = []

/-- A client enters `receive_file` with the first chunk, which is not the last one. -/
structure ClientEntersReceiveFile (cfg : Client.Config) (peer : Address) (content : Bytes) (σ : Nat)
    (c' : Client) : Prop where
  proto : cfg.protocolVersion = .goBackN
  task : ∃ dst name, cfg.task = .download dst name
  enters : ∃ (c : Client) (now : Time) (packet : Packet) (path : String)
    (node : Option String),
    Client.receiveFile cfg now c packet = .ok c' ∧ packet.isFin = false ∧
    packet.data = content.take fileChunkSizeGbn ∧
    c.sequenceNumber = ⟨σ, .goBackN⟩ ∧ c.ackNumber = some ⟨σ, .goBackN⟩ ∧
    c.file = .forWriting path node ∧ c.serverAddress = peer ∧ c.reports = []

structure DownloadStarts (ccfg : Client.Config) (scfg : Server.Config) (content : Bytes) (σ : Nat)
    (w : World Server.ClientConnection Client Bytes Bytes) : Prop where
  agree : 0 < σ ∧ σ ≤ maxSequenceNumber
  server : ServerEntersSendFile scfg content σ w.left
  client : ClientEntersReceiveFile ccfg scfg.address content σ w.right
  toRight : ∀ raw ∈ w.toRight, StaleData σ raw
  toLeft : ∀ raw ∈ w.toLeft, StaleReply σ raw

/-- The connection of a download and its client, over channels of discipline `D`. -/
def downloadSystem (D : Discipline) (ccfg : Client.Config) (scfg : Server.Config) :
    Lts (World Server.ClientConnection Client Bytes Bytes) (Label Bytes Bytes) :=
  system D (Server.ClientConnection.node scfg) (Client.node ccfg scfg.address)

/-! ## Transfers that start -/

namespace Local

def handler : FileHandler := ⟨"storage", fun _ ↦ true, some, 2 * minimumFreeGap, fun _ ↦ 0⟩

def clientAddress : Address := ⟨"127.0.0.1", 5001⟩

def connectionAddress : Address := ⟨"127.0.0.1", 7001⟩

def client (task : Client.Task) : Client.Config :=
  ⟨.goBackN, ⟨"127.0.0.1", 7000⟩, clientAddress, handler, task⟩

def uploader : Client.Config := client (.upload "notes.txt" "notes.txt")

def downloader : Client.Config := client (.download "notes.txt" "notes.txt")

/-- A connection whose first packet, with the operation, has the numbers 1 and 1. -/
def connection (operation : Nat) : Server.Config :=
  ⟨.goBackN, connectionAddress, clientAddress, handler,
    ⟨.goBackN, 1, true, false, false, 5001, 2, BigEndian.toBytes 2 operation, some 1⟩, by decide,
    by decide⟩

/-- A client between two receives, with the numbers `n` and `n`. -/
def clientAt (n : Nat) (file : File) (point : Client.Point) : Client :=
  ⟨.new, connectionAddress, file, fun _ ↦ none, ⟨n, .goBackN⟩, some ⟨n, .goBackN⟩, false, .start 0,
    point, [], []⟩

/-- A connection between two receives, with the numbers `n` and `m`. -/
def connectionAt (n m : Nat) (file : File) (point : Server.Point) : Server.ClientConnection :=
  ⟨.new, .readyToReceive, some file, fun _ ↦ none, ⟨n, .goBackN⟩, some ⟨m, .goBackN⟩, none, none,
    .start 0, point, [], []⟩

/-- The client gets the confirmation of the file size while the connection, which has sent it,
waits for the first chunk. -/
def upload (content : Bytes) : World Client Server.ClientConnection Bytes Bytes where
  left := Client.swallow (Client.sendFile uploader 0
    (clientAt 3 (.forReading "notes.txt" (some "notes.txt") content) .informFilesize))
  right := Server.ClientConnection.swallow (Server.ClientConnection.onFilesize
    (connection uploadOperation) 0 "notes.txt"
    (connectionAt 3 2 (.forWriting "storage/notes.txt" (some "storage/notes.txt"))
      (.receiveFilesize "notes.txt"))
    (⟨3, .goBackN⟩, 0))
  toRight := []
  toLeft := []

def firstChunk (content : Bytes) : Packet :=
  ⟨.goBackN, 2, true, false, false, 7001, fileChunkSizeGbn, content.take fileChunkSizeGbn, some 2⟩

/-- The connection gets the acknowledgement of the first chunk, which the client has taken. -/
def download (content : Bytes) : World Server.ClientConnection Client Bytes Bytes where
  left := Server.ClientConnection.swallow (Server.ClientConnection.onFirstPacketAck
    (connection downloadOperation) 0
    (connectionAt 2 2 (FileHandler.read
      (.forReading "storage/notes.txt" (some "storage/notes.txt") content) fileChunkSizeGbn).2
      .waitForFirstPacketAck))
  right := Client.swallow (Client.receiveFile downloader 0
    (clientAt 2 (.forWriting "notes.txt" (some "notes.txt")) .informNameToDownload) (firstChunk content))
  toRight := []
  toLeft := []

end Local

/-! ## The window they start -/

/-- An upload leaves all chunks to `send_file`. -/
abbrev uploadTransfer (content : Bytes) (σ : Nat) : Transfer UInt8 := transfer content 0 (σ + 1)

/-- A download has had its first chunk acknowledged. -/
abbrev downloadTransfer (content : Bytes) (σ : Nat) : Transfer UInt8 := transfer content 1 σ

/-- `send_file` of the client up to its first packet -/
theorem sendFile_eq {cfg : Client.Config} {c : Client} {a : SequenceNumber} {now : Time}
    (hproto : cfg.protocolVersion = .goBackN) (hack : c.ackNumber = some a)
    (hpos : c.file.position = 0) (hcontent : c.file.content ≠ []) :
    Client.sendFile cfg now c = .ok
      { c with
        file := (GoBackNSender.splitFileInChunksClient c.file c.file.content.length).2
        sequenceNumber := c.sequenceNumber.step
        ackNumber := some a.step
        socket := c.socket.resetState
        point := .sendFileGbn
          (GoBackNSender.initClient c.sequenceNumber a (chunksOf c.file.content))
        outbox := c.outbox ++ [] } := by
  have hlt : (GoBackNSender.initClient c.sequenceNumber a (chunksOf c.file.content)).base <
      (GoBackNSender.initClient c.sequenceNumber a (chunksOf c.file.content)).totalChunks :=
    totalChunks_pos hcontent
  simp only [Client.sendFile, hproto, hack, GoBackNSender.splitFileInChunksClient_eq hpos]
  rw [loop_eq, if_pos ⟨hlt, rfl⟩]
  rfl

theorem ClientEntersSendFile.sends {cfg : Client.Config} {peer : Address} {c : Client}
    (h : ClientEntersSendFile cfg peer content σ c) (hσ : σ ≤ maxSequenceNumber)
    (hcontent : content ≠ []) :
    ClientSends (uploadTransfer content σ) peer c (Sender.start (uploadTransfer content σ)) := by
  obtain ⟨c, now, hrun, hseq, hack, rfl, hpos, hpeer, hrep⟩ := h.enters
  rw [sendFile_eq h.proto hack hpos hcontent] at hrun
  obtain rfl := Except.ok.inj hrun
  refine ⟨fun hu ↦ ?_, hpeer, .sending rfl ⟨⟨rfl, rfl, ?_, ?_, rfl⟩, rfl, fun _ h ↦ (by cases h), rfl⟩⟩
  · exact absurd (hrep ▸ hu) List.not_mem_nil
  · exact SequenceNumber.stepGbn_of_le hσ
  · rw [hseq]
    exact SequenceNumber.stepGbn_of_le hσ

theorem ServerEntersReceiveFile.receives {cfg : Server.Config} {c : Server.ClientConnection}
    (h : ServerEntersReceiveFile cfg σ c) :
    ServerReceives c (Receiver.start (uploadTransfer content σ)) := by
  obtain ⟨c, now, filename, size, m, hrun, hack, hm, ⟨path, node, hfile⟩, hrep⟩ := h.enters
  unfold Server.ClientConnection.onFilesize at hrun
  dsimp only at hrun
  split at hrun
  · have hack' : ({ c with sequenceNumber := ⟨σ, .goBackN⟩ } : Server.ClientConnection).stepAck.ackNumber =
        some ⟨σ, .goBackN⟩ := by
      simp [Server.ClientConnection.stepAck, hack, hm]
    rcases server_send h.proto hack' true false with ⟨raw, hok, henc⟩ | herr
    · rw [Server.ClientConnection.sendAck, hok] at hrun
      simp only [bind, Except.bind, pure, Except.pure, Server.ClientConnection.startReception, h.proto,
        Server.ClientConnection.stepAck, hack, Option.map_some, hm] at hrun
      obtain rfl := Except.ok.inj hrun
      refine ⟨⟨_, hfile, rfl⟩, fun hu ↦ ?_, .receiving rfl ⟨rfl, rfl, rfl, ?_⟩⟩
      · exact absurd (hrep ▸ hu) (List.not_mem_nil)
      · rintro _ ⟨⟩ -
        exact (of_encode henc).2
    · rw [Server.ClientConnection.sendAck, herr] at hrun
      cases hrun
  · cases hrun

/-- `send_file` of the connection up to its first packet -/
theorem onFirstPacketAck_eq {cfg : Server.Config} {c : Server.ClientConnection} {a : SequenceNumber}
    {now : Time} {f : File} (hack : c.ackNumber = some a) (hfile : c.file = some f)
    (hpos : f.position = min f.content.length fileChunkSizeGbn)
    (hcontent : 1 < totalChunks f.content) :
    Server.ClientConnection.onFirstPacketAck cfg now c = .ok
      { c with
        file := some (GoBackNSender.splitFileInChunksServer f f.content.length).2
        ackNumber := some a.step
        socket := c.socket.resetState
        point := .sendFileGbn (GoBackNSender.initServer c.sequenceNumber a (chunksOf f.content))
        outbox := c.outbox ++ [] } := by
  simp only [Server.ClientConnection.onFirstPacketAck, hack, hfile,
    GoBackNSender.splitFileInChunksServer_eq hpos]
  rw [loop_eq, if_pos ⟨hcontent, rfl⟩]
  rfl

theorem ServerEntersSendFile.sends {cfg : Server.Config} {c : Server.ClientConnection}
    (h : ServerEntersSendFile cfg content σ c) (hσ : σ ≤ maxSequenceNumber)
    (hcontent : 1 < totalChunks content) :
    ServerSends (downloadTransfer content σ) c (Sender.start (downloadTransfer content σ)) := by
  obtain ⟨c, now, path, node, hrun, hseq, hack, hfile, hrep⟩ := h.enters
  rw [onFirstPacketAck_eq hack hfile (by simp [FileHandler.read, File.forReading]) hcontent] at hrun
  obtain rfl := Except.ok.inj hrun
  refine ⟨fun hu ↦ ?_, .sending rfl ⟨⟨rfl, rfl, ?_, ?_, rfl⟩, rfl, fun _ h ↦ (by cases h), rfl⟩⟩
  · exact absurd (hrep ▸ hu) List.not_mem_nil
  · exact SequenceNumber.stepGbn_of_le hσ
  · exact congrArg SequenceNumber.value hseq

theorem successiveReads_take_one {n : Nat} {bs : Bytes}
    (h : 0 < (FileHandler.successiveReads n bs).length) :
    (FileHandler.successiveReads n bs).take 1 = [bs.take n] := by
  rw [FileHandler.length_successiveReads] at h
  obtain ⟨k, hk⟩ := Nat.exists_eq_succ_of_ne_zero (Nat.pos_iff_ne_zero.mp h)
  rw [FileHandler.successiveReads, hk, Nat.succ_eq_add_one, List.range_succ_eq_map]
  simp

theorem ClientEntersReceiveFile.receives {cfg : Client.Config} {peer : Address} {c : Client}
    (h : ClientEntersReceiveFile cfg peer content σ c) (hcontent : content ≠ []) :
    ClientReceives peer c (Receiver.start (downloadTransfer content σ)) := by
  obtain ⟨c, now, packet, path, node, hrun, hfin, hdata, hseq, hack, hfile, hpeer, hrep⟩ := h.enters
  have hpositive := totalChunks_pos hcontent
  have hne : packet.data ≠ [] := by
    rw [hdata]
    simp [hcontent, fileChunkSizeGbn, historicalMtu, maxIpHeaderSize, udpHeaderSize,
      gbnProtocolHeaderSize]
  have hreceived : received (FileHandler.appendToFile c.file packet) =
      (chunksOf content).take 1 := by
    rw [received_appendToFile, hfile, push_of_ne_nil hne, hdata]
    exact (successiveReads_take_one hpositive).symm
  cases hsend : Client.sendAck cfg c with
  | error e => simp [Client.receiveFile, hfin, hsend, bind, Except.bind] at hrun
  | ok d =>
      obtain ⟨-, raw, henc, rfl⟩ := (Client.send_eq_ok cfg).mp hsend
      rw [h.proto, hack] at henc
      simp only [Client.receiveFile, hfin, hsend, Client.appendToFile, Client.handed, h.proto, hack,
        bind, Except.bind, pure, Except.pure, Bool.false_eq_true, if_false] at hrun
      obtain rfl := Except.ok.inj hrun
      refine ⟨hreceived, fun hu ↦ ?_, hpeer, .receiving rfl ⟨hseq, rfl, rfl, ?_⟩⟩
      · exact absurd (hrep ▸ hu) List.not_mem_nil
      · rintro _ ⟨⟩ -
        rw [hseq] at henc
        exact (of_encode henc).2

/-- The start of the window, with what is in flight in `w`. -/
def windowWorld {τ υ : Type} (P : Transfer UInt8) (w : World τ υ Bytes Bytes) :
    World Sender (Receiver UInt8) (Option (Data UInt8)) (Option Reply) :=
  ⟨.start P, .start P, w.toRight.map toData, w.toLeft.map toReply⟩

/-- The ends of an upload and the window they follow. -/
abbrev UploadFollows (hc : ccfg.protocolVersion = .goBackN)
    (ht : ∃ src name, ccfg.task = .upload src name) (hs : scfg.protocolVersion = .goBackN)
    (content : Bytes) (σ : Nat) (w : World Client Server.ClientConnection Bytes Bytes)
    (v : World Sender (Receiver UInt8) (Option (Data UInt8)) (Option Reply)) : Prop :=
  Related (clientRefines content 0 (σ + 1) scfg.address scfg.portBound hc ht) (serverTakes content 0 (σ + 1) hs) w v

/-- The ends of a download and the window they follow. -/
abbrev DownloadFollows (hs : scfg.protocolVersion = .goBackN)
    (hc : ccfg.protocolVersion = .goBackN) (ht : ∃ dst name, ccfg.task = .download dst name)
    (content : Bytes) (σ : Nat) (w : World Server.ClientConnection Client Bytes Bytes)
    (v : World Sender (Receiver UInt8) (Option (Data UInt8)) (Option Reply)) : Prop :=
  Related (serverRefines content 1 σ hs) (clientTakes content 1 σ scfg.address scfg.portBound hc ht) w v

theorem UploadStarts.follows {w : World Client Server.ClientConnection Bytes Bytes}
    (h : UploadStarts ccfg scfg content σ w) (hcontent : content ≠ []) :
    UploadFollows h.client.proto h.client.task h.server.proto content σ w
      (windowWorld (uploadTransfer content σ) w) :=
  ⟨.inl (h.client.sends h.agree.2 hcontent), .inl h.server.receives, rfl, rfl⟩

theorem DownloadStarts.follows {w : World Server.ClientConnection Client Bytes Bytes}
    (h : DownloadStarts ccfg scfg content σ w) (hcontent : 1 < totalChunks content) :
    DownloadFollows h.server.proto h.client.proto h.client.task content σ w
      (windowWorld (downloadTransfer content σ) w) :=
  ⟨.inl (h.server.sends h.agree.2 hcontent), .inl (h.client.receives (by
    rintro rfl
    exact absurd hcontent (by decide))), rfl, rfl⟩

theorem stale_windowWorld {τ υ : Type} {first offset : Nat} {w : World τ υ Bytes Bytes}
    (hσ : σ < offset + first) (hr : ∀ raw ∈ w.toRight, StaleData σ raw)
    (hl : ∀ raw ∈ w.toLeft, StaleReply σ raw) :
    Stale (transfer content first offset) (windowWorld (transfer content first offset) w) where
  toRight m hm := by
    obtain ⟨raw, hraw, rfl⟩ := List.mem_map.mp hm
    obtain ⟨d, hd, hle, hlast⟩ := hr raw hraw
    exact ⟨d, hd, lt_of_le_of_lt hle hσ, hlast⟩
  toLeft m hm := by
    obtain ⟨raw, hraw, rfl⟩ := List.mem_map.mp hm
    obtain ⟨r, hr, hn, ha, hb⟩ := hl raw hraw
    exact ⟨r, hr, lt_of_le_of_lt hn hσ, lt_of_le_of_lt ha hσ, hb⟩

/-! ## Both kinds of transfer do start -/

theorem Local.upload_starts {content : Bytes} (h : content ≠ []) :
    UploadStarts Local.uploader (Local.connection uploadOperation) content 3
      (Local.upload content) := by
  refine ⟨by decide, ⟨rfl, ⟨_, _, rfl⟩, Local.clientAt 3
    (.forReading "notes.txt" (some "notes.txt") content) .informFilesize, 0, ?_, rfl, rfl, rfl, rfl,
    rfl, rfl⟩, ⟨rfl, Local.connectionAt 3 2
    (.forWriting "storage/notes.txt" (some "storage/notes.txt")) (.receiveFilesize "notes.txt"), 0,
    "notes.txt", 0, ⟨2, .goBackN⟩, rfl, rfl, rfl, ⟨_, _, rfl⟩, rfl⟩, nofun, nofun⟩
  rw [Local.upload, sendFile_eq rfl rfl rfl h]
  rfl

theorem Local.download_starts {content : Bytes} (h : 1 < totalChunks content) :
    DownloadStarts Local.downloader (Local.connection downloadOperation) content 2
      (Local.download content) := by
  refine ⟨by decide, ⟨rfl, Local.connectionAt 2 2 (FileHandler.read
    (.forReading "storage/notes.txt" (some "storage/notes.txt") content) fileChunkSizeGbn).2
    .waitForFirstPacketAck, 0, "storage/notes.txt", some "storage/notes.txt", ?_, rfl, rfl, rfl, rfl⟩,
    ⟨rfl, ⟨_, _, rfl⟩, Local.clientAt 2 (.forWriting "notes.txt" (some "notes.txt"))
    .informNameToDownload, 0, Local.firstChunk content, "notes.txt", some "notes.txt", rfl, rfl, rfl, rfl,
    rfl, rfl, rfl, rfl⟩, nofun, nofun⟩
  rw [Local.download, onFirstPacketAck_eq rfl rfl (by simp [FileHandler.read, File.forReading]) h]
  rfl

/-- A schedule of the upload that leads where `p` holds -/
theorem Local.exists_upload (content : Bytes)
    (ok : World Client Server.ClientConnection Bytes Bytes → Label Bytes Bytes → Prop)
    [∀ w ℓ, Decidable (ok w ℓ)] (moves : List Move)
    {p : World Client Server.ClientConnection Bytes Bytes → Prop} [DecidablePred p]
    (h : (moves.foldlM (play (Client.react Local.uploader Local.connectionAddress)
      (Server.ClientConnection.react (Local.connection uploadOperation)) Local.connectionAddress
      Local.clientAddress ok) (Local.upload content)).any (p ·)) :
    ∃ w', (uploadSystem .fifo Local.uploader (Local.connection uploadOperation)).Run ok
      (Local.upload content) w' ∧ p w' := exists_run h

theorem Local.exists_download (content : Bytes)
    (ok : World Server.ClientConnection Client Bytes Bytes → Label Bytes Bytes → Prop)
    [∀ w ℓ, Decidable (ok w ℓ)] (moves : List Move)
    {p : World Server.ClientConnection Client Bytes Bytes → Prop} [DecidablePred p]
    (h : (moves.foldlM (play (Server.ClientConnection.react (Local.connection downloadOperation))
      (Client.react Local.downloader Local.connectionAddress) Local.clientAddress
      Local.connectionAddress ok) (Local.download content)).any (p ·)) :
    ∃ w', (downloadSystem .fifo Local.downloader (Local.connection downloadOperation)).Run ok
      (Local.download content) w' ∧ p w' := exists_run h

/-! ## The numbers of a transfer -/

section Numbers

variable {first offset : Nat} {exact : Prop}

theorem total_transfer : (transfer content first offset).total = totalChunks content := rfl

theorem offset_transfer : (transfer content first offset).offset = offset := rfl

theorem chunks_ne_nil : ∀ c ∈ (transfer content first offset).chunks, c ≠ [] :=
  fun _ hc ↦ FileHandler.ne_nil_of_mem_successiveReads (by decide) hc

theorem window_pos : 0 < (transfer content first offset).window := by
  show 0 < windowSize
  decide

/-- The number of the last chunk is no more than the largest one. -/
theorem counted (hfirst : first < totalChunks content) (hoffset : 0 < offset)
    (h : offset + totalChunks content ≤ maxSequenceNumber + 2) :
    (transfer content first offset).Counted where
  first_lt := hfirst
  window_pos := window_pos
  nonempty := chunks_ne_nil
  offset_pos := Nat.add_pos_left hoffset first
  next v hv := SequenceNumber.stepGbn_of_le (by rw [total_transfer] at hv; omega)
  number v hv := SequenceNumber.stepGbn_of_le (by
    rw [total_transfer, offset_transfer] at hv
    omega)

/-- The number after the last chunk's is one more. -/
theorem numbered (hfirst : first < totalChunks content) (hoffset : 0 < offset)
    (h : offset + totalChunks content ≤ maxSequenceNumber + 1) :
    (transfer content first offset).Numbered exact where
  toCounted := counted hfirst hoffset (Nat.le_succ_of_le h)
  after := .inl (by
    rw [total_transfer, offset_transfer]
    refine (SequenceNumber.stepGbn_of_le ?_).trans ?_ <;> omega)

/-- It may be the one that starts over. -/
theorem numbered_exact (hexact : exact) (hfirst : first < totalChunks content)
    (hoffset : 0 < offset) (hpos : 1 < offset + first)
    (h : offset + totalChunks content ≤ maxSequenceNumber + 2) :
    (transfer content first offset).Numbered exact := by
  by_cases hle : offset + totalChunks content ≤ maxSequenceNumber + 1
  · exact numbered hfirst hoffset hle
  · refine ⟨counted hfirst hoffset h, .inr ⟨hexact, ?_⟩⟩
    have hnum : offset + totalChunks content - 1 = maxSequenceNumber + 1 := by omega
    rw [total_transfer, offset_transfer, hnum]
    exact hpos

theorem overflows (hfirst : offset + first ≤ maxSequenceNumber + 1)
    (h : maxSequenceNumber + 2 < offset + totalChunks content) :
    (transfer content first offset).Overflows (maxSequenceNumber + 1) where
  bump_le := SequenceNumber.stepGbn_le
  last := h
  first := hfirst

end Numbers

end Rdt.Gbn
