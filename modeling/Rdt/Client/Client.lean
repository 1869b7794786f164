import Rdt.Common.GoBackN
import Rdt.Client.Protocol

/-!
# `Client` with `UploadClient` and `DownloadClient`

The thread `client_start` as a machine, as for a connection of the server.
-/

namespace Rdt

open PacketParser ClientProtocol

namespace Client

/-- The lines a client prints unconditionally. -/
inductive Report where
  | uploadCompleted
  | downloadCompleted
deriving DecidableEq, Repr

/-- Where `handle_connection_finalization` is called from. -/
inductive Finalization where
  | sendOperationIntention
  | performDownload
  | exceptClause
deriving DecidableEq, Repr

inductive Point where
  | handshake
  | sendOperationIntention (serverAddress : Address)
  | informFilename
  | informFilesize
  | sendFileSaw (remaining : List Bytes) (chunkNumber totalChunks : Nat)
  | sendFileGbn (sender : GoBackNSender)
  | initiateCloseConnection
  | informNameToDownload
  | receiveFileSaw
  | receiveFileGbn (receiver : GoBackNReceiver)
  | handleConnectionFinalization (caller : Finalization)
  | ended
deriving DecidableEq, Repr

/-- The two subclasses, with the names given on the command line. -/
inductive Task where
  | upload (srcFilepath filenameInServer : String)
  | download (fileDestination filenameForDownload : String)
deriving DecidableEq, Repr

structure Config where
  protocolVersion : ProtocolType
  serverAddress : Address
  myAddress : Address
  fileHandler : FileHandler
  task : Task

end Client

/-- The attributes of a client.  `disk` is its own storage, `outbox` what the last step
handed over for sending, `reports` what was printed so far. -/
structure Client where
  socket : SocketSaw
  serverAddress : Address
  file : File
  disk : Disk
  sequenceNumber : SequenceNumber
  ackNumber : Option SequenceNumber
  downloadCompleted : Bool
  listening : ReListen
  point : Client.Point
  outbox : Outbox
  reports : List Client.Report

namespace Client

/-- A stretch of the thread: an exception comes with the state it leaves behind. -/
abbrev Exec := Except (Exn × Client) Client

variable (cfg : Config)

/-! ## Sending, numbers, blocking -/

/-- A packet that does not get out is saved for retransmission all the same. -/
def send (c : Client) (isAck isSyn isFin : Bool) (port : UInt16) (data : Bytes) : Exec :=
  match Protocol.encode cfg.protocolVersion c.sequenceNumber c.ackNumber isAck isSyn isFin port
      data with
  | .error e => .error (e, c)
  | .ok raw =>
      let c := { c with socket := c.socket.saveState (some raw) c.serverAddress }
      match sendto c.serverAddress with
      | .error e => .error (e, c)
      | .ok peer => .ok { c with outbox := c.outbox ++ [(raw, peer.toAddress)] }

/-- A packet handed over and kept for retransmission. -/
def handed (c : Client) (raw : Bytes) : Client :=
  { c with
    socket := c.socket.saveState (some raw) c.serverAddress
    outbox := c.outbox ++ [(raw, c.serverAddress)] }

/-- A packet is packed, or is not; what was kept for retransmission may not get out. -/
theorem send_cases (c : Client) (isAck isSyn isFin : Bool) (port : UInt16) (data : Bytes) :
    (∃ e, Protocol.encode cfg.protocolVersion c.sequenceNumber c.ackNumber isAck isSyn isFin port
        data = .error e ∧ send cfg c isAck isSyn isFin port data = .error (e, c)) ∨
      ∃ raw, Protocol.encode cfg.protocolVersion c.sequenceNumber c.ackNumber isAck isSyn isFin port
          data = .ok raw ∧
        (send cfg c isAck isSyn isFin port data = .ok (handed c raw) ∨
          send cfg c isAck isSyn isFin port data = .error (ExnClass.socketShutdown.exn,
            { c with socket := c.socket.saveState (some raw) c.serverAddress })) := by
  unfold send
  cases Protocol.encode cfg.protocolVersion c.sequenceNumber c.ackNumber isAck isSyn isFin port data with
  | error e => exact .inl ⟨e, rfl, rfl⟩
  | ok raw =>
      refine .inr ⟨raw, rfl, ?_⟩
      by_cases h : c.serverAddress.port = 0
      · right
        simp only [sendto, h, dite_true]
      · left
        simp only [sendto_eq h]
        rfl

/-- What can be packed can be sent, if the server's address is one that can be sent to. -/
theorem send_eq_encode {c : Client} (h : c.serverAddress.port ≠ 0) (isAck isSyn isFin : Bool)
    (port : UInt16) (data : Bytes) :
    send cfg c isAck isSyn isFin port data =
      match Protocol.encode cfg.protocolVersion c.sequenceNumber c.ackNumber isAck isSyn isFin port
          data with
      | .error e => .error (e, c)
      | .ok raw => .ok (handed c raw) := by
  unfold send
  simp only [sendto_eq h]
  rfl

theorem send_eq_ok {c c' : Client} {isAck isSyn isFin : Bool} {port : UInt16} {data : Bytes} :
    send cfg c isAck isSyn isFin port data = .ok c' ↔ c.serverAddress.port ≠ 0 ∧
      ∃ raw, Protocol.encode cfg.protocolVersion c.sequenceNumber c.ackNumber isAck isSyn isFin port
        data = .ok raw ∧ c' = handed c raw := by
  by_cases h : c.serverAddress.port = 0
  · unfold send
    simp only [sendto, h, dite_true]
    cases Protocol.encode cfg.protocolVersion c.sequenceNumber c.ackNumber isAck isSyn isFin port data <;>
      simp
  · rw [send_eq_encode cfg h]
    cases Protocol.encode cfg.protocolVersion c.sequenceNumber c.ackNumber isAck isSyn isFin port data with
    | error e => simp
    | ok raw => simp [h, eq_comm]

def requestConnection (c : Client) : Exec := send cfg c false true false cfg.myAddress.port []

def sendAck (c : Client) : Exec := send cfg c true false false cfg.myAddress.port []

/-- Unlike its siblings this one puts the server's port into the packet. -/
def sendFin (c : Client) : Exec := send cfg c false false true c.serverAddress.port []

def sendFileChunkSaw (c : Client) (chunk : Bytes) (isLastChunk : Bool) : Exec :=
  send cfg c false false isLastChunk cfg.myAddress.port chunk

def stepSequence (c : Client) : Client := { c with sequenceNumber := c.sequenceNumber.step }

/-- `if GO_BACK_N: self.ack_number.step()`; under Stop-and-Wait there is no number. -/
def stepAck (c : Client) : Client :=
  { c with ackNumber := c.ackNumber.map SequenceNumber.step }

/-- A wrapped receive is entered at `point`. -/
def block (c : Client) (point : Point) (now : Time) : Client :=
  { c with point, listening := .start now }

def report (c : Client) (r : Report) : Client := { c with reports := c.reports ++ [r] }

def finish (c : Client) : Client := { c with point := .ended }

def raise (c : Client) (e : ExnClass) : Exec := .error (e.exn, c)

/-- The retransmission of the wrapped receive, if there is one; it goes where the packet has gone. -/
def retransmit (c : Client) (retransmit : Bool) : Client :=
  { c with outbox := c.outbox ++ if retransmit then c.socket.retransmission else [] }

/-- One event in a wrapped receive; `k` goes on from its outcome. -/
def listen {α : Type} (c : Client) (op : Operation α) (ev : Event)
    (k : Client → Except Exn α → Exec) : Exec :=
  match reListenIfFailed op c.socket c.listening ev with
  | .listening r retransmit => .ok { c.retransmit retransmit with listening := r }
  | .returned a => k c (.ok a)
  | .raised e retransmit => k (c.retransmit retransmit) (.error e)

/-- A continuation that leaves exceptions alone. -/
def onSuccess {α : Type} (k : Client → α → Exec) (c : Client) : Except Exn α → Exec
  | .ok a => k c a
  | .error e => .error (e, c)

/-! ## Finalization -/

/-- `file_cleanup_after_error` of the two subclasses -/
def fileCleanupAfterError (c : Client) : Client :=
  match cfg.task with
  | .upload _ _ => { c with file := FileHandler.close c.file }
  | .download fileDestination _ =>
      let disk := if c.file.closed then c.disk else FileHandler.closeOnDisk c.disk c.file
      { c with
        file := FileHandler.close c.file
        disk :=
          if c.downloadCompleted then disk
          else cfg.fileHandler.removeFileIfCorruptedOrIncomplete disk fileDestination none true }

/-- `inform_filename`, and the first lines of `inform_name_to_download` -/
def informFilename (now : Time) (point : Point) (filename : String) (c : Client) : Exec := do
  let c ← send cfg c.stepSequence.stepAck false false false cfg.myAddress.port
    (encodeUtf8 filename)
  return c.block point now

/-- `inform_size_and_name` or `inform_name_to_download` -/
def informName (now : Time) (c : Client) : Exec :=
  match cfg.task with
  | .upload _ filenameInServer => informFilename cfg now .informFilename filenameInServer c
  | .download _ filenameForDownload =>
      informFilename cfg now .informNameToDownload filenameForDownload c

/-- How the caller of `handle_connection_finalization` goes on -/
def finalized (now : Time) (caller : Finalization) (c : Client) : Exec :=
  match caller with
  | .sendOperationIntention => informName cfg now c
  | .performDownload => .ok c.finish
  | .exceptClause => .ok (fileCleanupAfterError cfg c).finish

/-- `handle_connection_finalization` up to its receive -/
def sendFinalization (now : Time) (caller : Finalization) (c : Client) : Exec := do
  let c ← sendAck cfg c
  let c ← sendFin cfg c
  return c.stepSequence.block (.handleConnectionFinalization caller) now

/-- A send that fails is all there is of it. -/
def handleConnectionFinalization (now : Time) (caller : Finalization) (c : Client) : Exec :=
  match sendFinalization cfg now caller c with
  | .ok c => .ok c
  | .error (e, c) => if e.cls = .socketShutdown then finalized cfg now caller c else .error (e, c)

variable {cfg} in
theorem sendFinalization_error {now : Time} {caller : Finalization} {c : Client} {e : Exn × Client}
    (h : c.serverAddress.port ≠ 0) (he : sendFinalization cfg now caller c = .error e) :
    e.1.cls ≠ .socketShutdown := by
  have packed : ∀ {d : Client} {isAck isFin : Bool} {port : UInt16}, d.serverAddress.port ≠ 0 →
      send cfg d isAck false isFin port [] = .error e → e.1.cls ≠ .socketShutdown := by
    intro d isAck isFin port hd hsend
    rw [send_eq_encode cfg hd] at hsend
    split at hsend
    · rename_i e' hraw
      obtain rfl := Except.error.inj hsend
      rcases Protocol.encode_error hraw with rfl | rfl
      · exact ExnClass.noConfusion
      · exact ExnClass.noConfusion
    · cases hsend
  unfold sendFinalization at he
  rcases except_bind_eq_error.mp he with hack | ⟨c₁, hack, he⟩
  · exact packed h hack
  obtain ⟨-, raw, -, rfl⟩ := (send_eq_ok cfg).mp hack
  rcases except_bind_eq_error.mp he with hfin | ⟨c₂, -, he⟩
  · exact packed (d := c.handed raw) h hfin
  · cases he

variable {cfg} in
/-- To an address that can be sent to the packets get out, if they can be packed. -/
theorem handleConnectionFinalization_eq {c : Client} (h : c.serverAddress.port ≠ 0) (now : Time)
    (caller : Finalization) :
    handleConnectionFinalization cfg now caller c = sendFinalization cfg now caller c := by
  unfold handleConnectionFinalization
  split
  · rename_i hok
    exact hok.symm
  · rename_i herr
    rw [if_neg (sendFinalization_error h herr), herr]

/-! ## Upload -/

def sendOperationIntention (now : Time) (serverAddress : Address) (opCode : Nat) (c : Client) :
    Exec := do
  let c ← send cfg c.stepSequence.stepAck true false false cfg.myAddress.port
    (BigEndian.toBytes 2 opCode)
  return c.block (.sendOperationIntention serverAddress) now

/-- `to_bytes(4)` raises `OverflowError` on a larger size. -/
def informFilesize (now : Time) (c : Client) : Exec :=
  let c := c.stepSequence.stepAck
  let filesize := c.file.content.length
  if filesize < 256 ^ 4 then do
    let c ← send cfg c false false false cfg.myAddress.port (BigEndian.toBytes 4 filesize)
    return c.block .informFilesize now
  else raise c .overflowError

/-- `initiate_close_connection` from its receive on, and the end of `perform_upload` -/
def completeUpload (c : Client) : Exec := do
  let c ← sendAck cfg (c.report .uploadCompleted).stepSequence
  return c.finish

def initiateCloseConnection (now : Time) (alreadyReceivedFinBack : Bool) (c : Client) : Exec :=
  if alreadyReceivedFinBack then completeUpload cfg c
  else .ok (c.block .initiateCloseConnection now)

def onFinOrAck (c : Client) : Except Exn Unit → Exec
  | .ok _ => completeUpload cfg c
  | .error e =>
      if e.cls ∈ [ExnClass.messageIsNotAck, .messageNotFinNorAck, .invalidAckNumber] then
        .ok c.finish
      else .error (e, c)

/-- The loop of `send_file_saw` from a read on; the last chunk is not waited for. -/
def sendFileSaw (now : Time) (totalChunks : Nat) : List Bytes → Nat → Client → Exec
  | [], _, c => initiateCloseConnection cfg now false { c with file := FileHandler.close c.file }
  | chunk :: remaining, chunkNumber, c => do
      let isLastChunk := chunkNumber = totalChunks
      let c ← sendFileChunkSaw cfg c.stepSequence chunk isLastChunk
      if isLastChunk then sendFileSaw now totalChunks remaining (chunkNumber + 1) c
      else return c.block (.sendFileSaw remaining (chunkNumber + 1) totalChunks) now

/-- How the client goes on with `GoBackNSender.send_file`, which sends where the client has sent before. -/
def onSender (now : Time) (c : Client) : GoBackNSender.Result → Exec
  | .running s sent =>
      .ok
        { c with
          point := .sendFileGbn s
          outbox := c.outbox ++ (sent.map fun raw ↦ (raw, c.serverAddress)).toList }
  | .returned s =>
      initiateCloseConnection cfg now s.alreadyReceivedFinBack
        { c with
          sequenceNumber := s.returnedSequenceNumber
          ackNumber := some s.ackNumber
          file := FileHandler.close c.file
          socket := c.socket.saveState s.lastRawPacket c.serverAddress }
  | .raised e => .error (e, c)

/-- `send_file` -/
def sendFile (now : Time) (c : Client) : Exec :=
  match cfg.protocolVersion, c.ackNumber with
  | .goBackN, some ackNumber =>
      let (chunks, file) := GoBackNSender.splitFileInChunksClient c.file c.file.content.length
      let sender := GoBackNSender.initClient c.sequenceNumber ackNumber chunks
      onSender cfg now
        { c with
          file
          sequenceNumber := sender.offsetInitialSeqNumber
          ackNumber := some sender.ackNumber
          socket := c.socket.resetState }
        (sender.loop false)
  | _, _ =>
      let chunks := FileHandler.successiveReads fileChunkSizeSaw c.file.content
      sendFileSaw cfg now (FileHandler.getNumberOfChunks c.file.content.length fileChunkSizeSaw)
        chunks 1 c

/-- An event in `GoBackNSender.send_file`: running code proceeds, a receive gets a datagram
or fails. -/
def listenSender (sender : GoBackNSender) (c : Client) (ev : Event) : Exec :=
  match sender.point with
  | .waitForAck startTime =>
      match SocketGbn.recvfrom commsBufferSize ev with
      | none => .ok c
      | some received =>
          onSender cfg ev.now c (sender.awaitAckPhaseClient
            (received.bind fun r ↦ ClientProtocolGbn.waitForAck r.1 r.2) (ev.now - startTime))
  | _ =>
      match ev with
      | .proceed now => onSender cfg now c (sender.proceed cfg.myAddress.port now)
      | _ => .ok c

/-- The confirmation of the filename or the filesize; a refusal becomes `refused`. -/
def onConfirmation (refused : ExnClass) (k : Client → Exec) (c : Client) :
    Except Exn Packet → Exec
  | .ok _ => k c
  | .error e =>
      if e.cls = .unexpectedFinMessage ∨ e.cls = .messageIsNotAck then raise c refused
      else .error (e, c)

/-! ## Download -/

/-- `file_handler.append_to_file(self.file, packet)` -/
def appendToFile (c : Client) (packet : Packet) : Client :=
  let file := FileHandler.appendToFile c.file packet
  { c with file, disk := cfg.fileHandler.flush c.disk file }

/-- The same of the packet a receiver takes, if it takes one. -/
def appendTaken (c : Client) : Option Packet → Client
  | some packet => appendToFile cfg c packet
  | none => c

/-- The end of `receive_file_saw` and `receive_file_gbn`, and the call after it -/
def completeDownload (now : Time) (c : Client) : Exec :=
  handleConnectionFinalization cfg now .performDownload
    { c.report .downloadCompleted with
      downloadCompleted := true
      file := FileHandler.close c.file
      disk := FileHandler.closeOnDisk c.disk c.file }

/-- A chunk was appended; `receive_single_chunk` steps the number before the next one. -/
def afterChunk (now : Time) (isFin : Bool) (c : Client) : Exec :=
  if isFin then completeDownload cfg now c
  else .ok (c.stepSequence.block .receiveFileSaw now)

/-- `receive_file_saw` up to its loop, or `receive_file_gbn` up to `receive_file` -/
def receiveFile (now : Time) (c : Client) (packet : Packet) : Exec := do
  let c ← if packet.isFin then .ok c else sendAck cfg c
  let c := appendToFile cfg c packet
  match cfg.protocolVersion, c.ackNumber with
  | .goBackN, some ackNumber =>
      if packet.isFin then completeDownload cfg now c
      else
        let receiver := GoBackNReceiver.init c.sequenceNumber ackNumber c.socket.lastRawPacket
        return { c with socket := c.socket.resetState }.block (.receiveFileGbn receiver) now
  | _, _ => afterChunk cfg now packet.isFin c

/-- `receive_single_chunk` -/
def onFileChunk (now : Time) (c : Client) (r : SequenceNumber × Packet) : Exec := do
  let c := { c with sequenceNumber := r.1 }
  let c ← if r.2.isFin then .ok c else sendAck cfg c
  afterChunk cfg now r.2.isFin (appendToFile cfg c r.2)

/-- The answer to the filename: the first chunk, which is the last one if it has a FIN. -/
def onDownloadAnswer (now : Time) (c : Client) : Except Exn Packet → Exec
  | .ok packet => receiveFile cfg now c packet
  | .error e =>
      if e.cls = .unexpectedFinMessage then
        match e.packet with
        | some packet =>
            if 0 < packet.payloadLength then receiveFile cfg now c packet
            else raise c .fileDoesNotExist
        | none => raise c .attributeError
      else if e.cls = .messageIsNotAck then raise c .fileDoesNotExist
      else .error (e, c)

/-- What the receiver sends: the Go-Back-N protocol class saves nothing. -/
def sendReply (receiver : GoBackNReceiver) (c : Client) (reply : GoBackNReceiver.Reply) : Exec :=
  match reply with
  | .sendAck sequenceNumber ackNumber =>
      match Protocol.encode .goBackN sequenceNumber (some ackNumber) true false false
          cfg.myAddress.port [] with
      | .error e => .error (e, c)
      | .ok raw => .ok { c with outbox := c.outbox ++ [(raw, c.serverAddress)] }
  | .resendLast =>
      .ok { c with outbox := c.outbox ++
          (receiver.lastTransmittedPacket.map fun raw ↦ (raw, c.serverAddress)).toList }

/-- A packet in `GoBackNReceiver.receive_file`, whose numbers are those of the client. -/
def onGbnPacket (now : Time) (receiver : GoBackNReceiver) (c : Client) (packet : Packet) :
    Exec := do
  let o := receiver.onPacket packet
  let c ← o.replies.foldlM (sendReply cfg receiver) c
  let c := appendTaken cfg
    { c with
      sequenceNumber := o.receiver.sqnNumber
      ackNumber := some o.receiver.ackNumber
      point := .receiveFileGbn o.receiver }
    o.appended
  if o.finished then completeDownload cfg now c else return c

/-- An event in `GoBackNReceiver.receive_file`, whose socket has no timeout. -/
def listenReceiver (receiver : GoBackNReceiver) (c : Client) (ev : Event) : Exec :=
  match ev with
  | .datagram raw source now =>
      match ClientProtocolGbn.receiveFileChunk (raw.take fullBufferSize) source with
      | .error e => .error (e, c)
      | .ok packet => onGbnPacket cfg now receiver c packet
  | .osError _ => raise c .socketShutdown
  | .timeout _ | .proceed _ => .ok c

/-! ## `perform_upload`, `perform_download` and `client_start` -/

/-- The exceptions that make a client close the connection in its turn. -/
def closesConnection (e : ExnClass) : Bool :=
  match cfg.task with
  | .upload _ _ => e == .fileAlreadyExists || e == .fileTooBig || e == .connectionLost
  | .download _ _ => e == .fileDoesNotExist || e == .connectionLost || e == .socketShutdown

/-- Nothing is left to do for an exception that gets out of an `except` clause. -/
def swallow : Exec → Client
  | .ok c => c
  | .error (_, c) => c.finish

/-- The `except` clauses of `perform_upload` and `perform_download`. -/
def handle (now : Time) : Exec → Client
  | .ok c => c
  | .error (e, c) =>
      if closesConnection cfg e.cls then
        swallow (handleConnectionFinalization cfg now .exceptClause c.stepSequence.stepAck)
      else (fileCleanupAfterError cfg c).finish

/-- The confirmation of the operation; after a FIN the server's address stays as it was. -/
def onOperationConfirmation (now : Time) (serverAddress : Address) (c : Client) :
    Except Exn Packet → Exec
  | .ok _ => informName cfg now { c with serverAddress }
  | .error e =>
      if e.cls = .unexpectedFinMessage then
        handleConnectionFinalization cfg now .sendOperationIntention c
      else .error (e, c)

/-- `handle_connection_finalization` from its receive on -/
def onFinalization (now : Time) (caller : Finalization) (c : Client) (r : Except Exn Unit) :
    Exec :=
  match r with
  | .ok _ => finalized cfg now caller c
  | .error e =>
      if e.cls ∈ [ExnClass.connectionLost, .messageIsNotAck, .socketShutdown] then
        finalized cfg now caller c
      else .error (e, c)

def operationCode : Nat :=
  match cfg.task with
  | .upload _ _ => uploadOperation
  | .download _ _ => downloadOperation

/-- `handshake` from its receive on, and the start of the operation -/
def onConnectionRequestAnswer (now : Time) (c : Client) : Except Exn Address → Client
  | .ok serverAddress =>
      handle cfg now (sendOperationIntention cfg now serverAddress (operationCode cfg) c)
  | .error _ => c.finish

/-- The constructor of the subclass opens the file. -/
def openFile (disk : Disk) : Except Exn (File × Disk) :=
  match cfg.task with
  | .upload srcFilepath _ =>
      (cfg.fileHandler.openFileReadMode disk srcFilepath true).map fun file ↦ (file, disk)
  | .download fileDestination _ => cfg.fileHandler.openFileWriteMode disk fileDestination true

def init (file : File) (disk : Disk) (now : Time) : Client where
  socket := .new
  serverAddress := cfg.serverAddress
  file := file
  disk := disk
  sequenceNumber := ⟨0, cfg.protocolVersion⟩
  ackNumber := match cfg.protocolVersion with
    | .goBackN => some ⟨0, .goBackN⟩
    | .stopAndWait => none
  downloadCompleted := false
  listening := .start now
  point := .ended
  outbox := []
  reports := []

/-- `client_start` up to its first receive -/
def start (disk : Disk) (now : Time) : Except Exn Client := do
  let (file, disk) ← openFile cfg disk
  return swallow do
    let c ← requestConnection cfg (init cfg file disk now)
    return c.block .handshake now

/-- The receive the thread is blocked in gets an event. -/
def onEvent (c : Client) (ev : Event) : Exec :=
  match c.point with
  | .handshake =>
      listen c ((waitForConnectionRequestAnswer c.sequenceNumber c.ackNumber).letThrough
        [.unexpectedFinMessage, .messageIsNotAck]) ev
        fun c r ↦ .ok (onConnectionRequestAnswer cfg ev.now c r)
  | .sendOperationIntention serverAddress =>
      listen c ((waitForOperationConfirmation c.sequenceNumber c.ackNumber).letThrough
        [.unexpectedFinMessage]) ev (onOperationConfirmation cfg ev.now serverAddress)
  | .informFilename =>
      listen c ((waitForAck c.sequenceNumber c.ackNumber).letThrough
        [.unexpectedFinMessage, .messageIsNotAck]) ev
        (onConfirmation .fileAlreadyExists (informFilesize cfg ev.now))
  | .informFilesize =>
      listen c ((waitForAck c.sequenceNumber c.ackNumber).letThrough
        [.unexpectedFinMessage, .messageIsNotAck]) ev
        (onConfirmation .fileTooBig (sendFile cfg ev.now))
  | .sendFileSaw remaining chunkNumber totalChunks =>
      listen c (waitForAck c.sequenceNumber c.ackNumber) ev
        (onSuccess fun c _ ↦ sendFileSaw cfg ev.now totalChunks remaining chunkNumber c)
  | .sendFileGbn sender => listenSender cfg sender c ev
  | .initiateCloseConnection =>
      listen c (waitForFinOrAck c.sequenceNumber c.ackNumber) ev (onFinOrAck cfg)
  | .informNameToDownload =>
      listen c ((waitForAck c.sequenceNumber c.ackNumber).letThrough
        [.unexpectedFinMessage, .messageIsNotAck]) ev (onDownloadAnswer cfg ev.now)
  | .receiveFileSaw =>
      listen c (receiveFileChunkSaw cfg.protocolVersion c.sequenceNumber) ev
        (onSuccess (onFileChunk cfg ev.now))
  | .receiveFileGbn receiver => listenReceiver cfg receiver c ev
  | .handleConnectionFinalization caller =>
      listen c ((waitForFinOrAck c.sequenceNumber c.ackNumber).letThrough [.connectionLost]) ev
        (onFinalization cfg ev.now caller)
  | .ended => .ok c

/-- What the receive the thread is blocked in makes of an event, but for the value received.  The
receives of Go-Back-N know no retries. -/
def listened (c : Client) (ev : Event) : Listened Unit :=
  match c.point with
  | .handshake =>
      (reListenIfFailed ((waitForConnectionRequestAnswer c.sequenceNumber c.ackNumber).letThrough
        [.unexpectedFinMessage, .messageIsNotAck]) c.socket c.listening ev).void
  | .sendOperationIntention _ =>
      (reListenIfFailed ((waitForOperationConfirmation c.sequenceNumber c.ackNumber).letThrough
        [.unexpectedFinMessage]) c.socket c.listening ev).void
  | .informFilename | .informFilesize | .informNameToDownload =>
      (reListenIfFailed ((waitForAck c.sequenceNumber c.ackNumber).letThrough
        [.unexpectedFinMessage, .messageIsNotAck]) c.socket c.listening ev).void
  | .sendFileSaw _ _ _ =>
      (reListenIfFailed (waitForAck c.sequenceNumber c.ackNumber) c.socket c.listening ev).void
  | .initiateCloseConnection =>
      reListenIfFailed (waitForFinOrAck c.sequenceNumber c.ackNumber) c.socket c.listening ev
  | .receiveFileSaw =>
      (reListenIfFailed (receiveFileChunkSaw cfg.protocolVersion c.sequenceNumber) c.socket
        c.listening ev).void
  | .handleConnectionFinalization _ =>
      reListenIfFailed ((waitForFinOrAck c.sequenceNumber c.ackNumber).letThrough [.connectionLost])
        c.socket c.listening ev
  | .sendFileGbn _ | .receiveFileGbn _ | .ended => .listening c.listening false

/-- One event; in the `except` clauses, and before `perform_upload` or `perform_download` is
entered, an exception ends the thread. -/
def step (c : Client) (ev : Event) : Client :=
  let c := { c with outbox := [] }
  match c.point with
  | .handleConnectionFinalization .exceptClause | .handshake => swallow (onEvent cfg c ev)
  | _ => handle cfg ev.now (onEvent cfg c ev)

variable {cfg} in
theorem step_eq_handle {c : Client} {ev : Event} (hh : c.point ≠ .handshake)
    (hf : c.point ≠ .handleConnectionFinalization .exceptClause) :
    step cfg c ev = handle cfg ev.now (onEvent cfg { c with outbox := [] } ev) := by
  unfold step
  dsimp only
  split
  · rename_i hp
    exact absurd hp hf
  · rename_i hp
    exact absurd hp hh
  · rfl

variable {cfg} in
theorem step_ended {c : Client} {ev : Event} (hp : c.point = .ended) :
    step cfg c ev = { c with outbox := [] } := by
  simp only [step, onEvent, hp, handle]

/-! ## Exceptions -/

/-- The client closes the connection because of an exception, or has ended. -/
inductive Leaving (c : Client) : Prop
  | finalizing (hp : c.point = .handleConnectionFinalization .exceptClause)
  | ended (hp : c.point = .ended)

theorem leaving_finalization (now : Time) (c : Client) :
    Leaving (swallow (handleConnectionFinalization cfg now .exceptClause c)) := by
  unfold handleConnectionFinalization
  split
  · rename_i c' hsent
    unfold sendFinalization at hsent
    obtain ⟨c₁, -, hsent⟩ := except_bind_eq_ok.mp hsent
    obtain ⟨c₂, -, hsent⟩ := except_bind_eq_ok.mp hsent
    obtain rfl := Except.ok.inj hsent
    exact .finalizing rfl
  · split <;> exact .ended rfl

theorem leaving_handle_error (now : Time) (e : Exn × Client) :
    Leaving (handle cfg now (.error e)) := by
  simp only [handle]
  split
  · exact leaving_finalization cfg now _
  · exact .ended rfl

theorem leaving_completeUpload (now : Time) (c : Client) :
    Leaving (handle cfg now (completeUpload cfg c)) := by
  unfold completeUpload
  cases sendAck cfg (c.report .uploadCompleted).stepSequence with
  | error e => exact leaving_handle_error cfg now e
  | ok c₁ => exact .ended rfl

theorem leaving_onFinOrAck (now : Time) (c : Client) (r : Except Exn Unit) :
    Leaving (handle cfg now (onFinOrAck cfg c r)) := by
  unfold onFinOrAck
  split
  · exact leaving_completeUpload cfg now c
  · split
    · exact .ended rfl
    · exact leaving_handle_error cfg now _

theorem Leaving.step {c : Client} (h : Leaving c) (ev : Event) : Leaving (Client.step cfg c ev) := by
  cases h with
  | ended hp =>
      simp only [Client.step, onEvent, hp]
      exact .ended rfl
  | finalizing hp =>
      simp only [Client.step, onEvent, hp, listen]
      split
      · exact .finalizing rfl
      · exact .ended rfl
      · unfold onFinalization
        dsimp only
        split <;> exact .ended rfl

end Client

end Rdt
