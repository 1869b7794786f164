import Rdt.Common.GoBackN
import Rdt.Server.Protocol

/-!
# `ClientConnection` with its two subclasses

The thread of a connection as a machine: `start` runs it up to the first receive, `step`
from one receive to the next.  A receive it is blocked in is a program point that carries
the local variables still needed.
-/

namespace Rdt.Server

open PacketParser ServerProtocol

/-- `connection_state.py` -/
inductive ConnectionState where
  | handshake
  | handshakeFinished
  | readyToTransmit
  | readyToReceive
  | doneReadyToDie
  | unrecoverableBadState
deriving DecidableEq, Repr

/-- What the log shows of the end of a transfer: that a closing handshake is entered, and the
lines printed unconditionally. -/
inductive Report where
  | connectionFinalizationReceived
  | uploadCompleted
  | fileTransferComplete
  | downloadCompleted
deriving DecidableEq, Repr

inductive Point where
  | receiveFilenameForUpload
  | receiveFilesize (filename : String)
  | receiveFileChunk
  | receiveFileGbn (receiver : GoBackNReceiver)
  | closingHandshakeForUpload
  | initiateCloseConnection
  | receiveFilenameForDownload
  | waitForChunkAck (remaining : List Bytes) (chunkNumber totalChunks : Nat)
  | waitForFirstPacketAck
  | sendFileGbn (sender : GoBackNSender)
  | closingHandshakeForDownload
  | ended
deriving DecidableEq, Repr

/-- What a connection is built from: its socket is bound, and to the client's address the accepter has
sent its answer. -/
structure Config where
  protocolVersion : ProtocolType
  address : Address
  clientAddress : Address
  fileHandler : FileHandler
  initialPacket : Packet
  portBound : address.port ≠ 0 := by decide
  clientReachable : clientAddress.port ≠ 0 := by decide

def Config.bound (cfg : Config) : Peer := ⟨cfg.address, cfg.portBound⟩

def Config.client (cfg : Config) : Peer := ⟨cfg.clientAddress, cfg.clientReachable⟩

/-- The attributes of the connection and the variables of `run`.  `disk` is the storage,
`outbox` what the last step handed over for sending, `reports` what was printed so far. -/
structure ClientConnection where
  socket : SocketSaw
  state : ConnectionState
  file : Option File
  disk : Disk
  sequenceNumber : SequenceNumber
  ackNumber : Option SequenceNumber
  filenameForUpload : Option String
  filesizeForUpload : Option Nat
  listening : ReListen
  point : Point
  outbox : Outbox
  reports : List Report

/-- A stretch of `run`: an exception comes with the state it leaves behind. -/
abbrev Exec := Except (Exn × ClientConnection) ClientConnection

namespace ClientConnection

variable (cfg : Config)

/-! ## Sending, numbers, blocking -/

def send (c : ClientConnection) (isAck isFin : Bool) (data : Bytes) : Exec :=
  match Protocol.encode cfg.protocolVersion c.sequenceNumber c.ackNumber isAck false isFin
      cfg.address.port data with
  | .error e => .error (e, c)
  | .ok raw =>
      let c := { c with socket := c.socket.saveState (some raw) cfg.clientAddress }
      match sendto cfg.clientAddress with
      | .error e => .error (e, c)
      | .ok peer => .ok { c with outbox := c.outbox ++ [(raw, peer.toAddress)] }

/-- A packet handed over and kept for retransmission. -/
def handed (c : ClientConnection) (raw : Bytes) : ClientConnection :=
  { c with
    socket := c.socket.saveState (some raw) cfg.clientAddress
    outbox := c.outbox ++ [(raw, cfg.clientAddress)] }

/-- What can be packed can be sent. -/
theorem send_eq_encode (c : ClientConnection) (isAck isFin : Bool) (data : Bytes) :
    send cfg c isAck isFin data =
      match Protocol.encode cfg.protocolVersion c.sequenceNumber c.ackNumber isAck false isFin
          cfg.address.port data with
      | .error e => .error (e, c)
      | .ok raw => .ok (handed cfg c raw) := by
  unfold send
  simp only [sendto_eq cfg.clientReachable]
  rfl

theorem send_eq_ok {c c' : ClientConnection} {isAck isFin : Bool} {data : Bytes} :
    send cfg c isAck isFin data = .ok c' ↔
      ∃ raw, Protocol.encode cfg.protocolVersion c.sequenceNumber c.ackNumber isAck false isFin
        cfg.address.port data = .ok raw ∧ c' = handed cfg c raw := by
  rw [send_eq_encode]
  cases Protocol.encode cfg.protocolVersion c.sequenceNumber c.ackNumber isAck false isFin
      cfg.address.port data with
  | error e => simp
  | ok raw =>
      constructor
      · intro h
        exact ⟨raw, rfl, (Except.ok.inj h).symm⟩
      · rintro ⟨_, ⟨⟩, rfl⟩
        rfl

def sendAck (c : ClientConnection) : Exec := send cfg c true false []

def sendFin (c : ClientConnection) : Exec := send cfg c false true []

def sendFileChunk (c : ClientConnection) (chunk : Bytes) (isLastChunk isFirstChunk : Bool) :
    Exec :=
  send cfg c isFirstChunk isLastChunk chunk

/-- `sequence_number.value.step()` -/
def stepSequence (c : ClientConnection) : ClientConnection :=
  { c with sequenceNumber := c.sequenceNumber.step }

/-- `if GO_BACK_N: ack_number.value.step()`; under Stop-and-Wait there is no number. -/
def stepAck (c : ClientConnection) : ClientConnection :=
  { c with ackNumber := c.ackNumber.map SequenceNumber.step }

/-- A wrapped receive is entered at `point`. -/
def block (c : ClientConnection) (point : Point) (now : Time) : ClientConnection :=
  { c with point, listening := .start now }

def report (c : ClientConnection) (r : Report) : ClientConnection :=
  { c with reports := c.reports ++ [r] }

def finish (c : ClientConnection) : ClientConnection := { c with point := .ended }

def raise (c : ClientConnection) (e : ExnClass) : Exec := .error (e.exn, c)

/-- The retransmission of the wrapped receive, if there is one. -/
def retransmit (c : ClientConnection) (retransmit : Bool) : ClientConnection :=
  { c with outbox := c.outbox ++ if retransmit then c.socket.retransmission else [] }

/-- One event in a wrapped receive; `k` goes on from its outcome. -/
def listen {α : Type} (c : ClientConnection) (op : Operation α) (ev : Event)
    (k : ClientConnection → Except Exn α → Exec) : Exec :=
  match reListenIfFailed op c.socket c.listening ev with
  | .listening r retransmit => .ok { c.retransmit retransmit with listening := r }
  | .returned a => k c (.ok a)
  | .raised e retransmit => k (c.retransmit retransmit) (.error e)

/-- A continuation that leaves exceptions alone. -/
def onSuccess {α : Type} (k : ClientConnection → α → Exec) (c : ClientConnection) :
    Except Exn α → Exec
  | .ok a => k c a
  | .error e => .error (e, c)

/-! ## Upload: the file information -/

/-- `receive_file_info_for_upload` up to its first receive -/
def receiveFileInfoForUpload (now : Time) (c : ClientConnection) : Exec :=
  .ok (c.stepSequence.stepAck.block .receiveFilenameForUpload now)

/-- `is_filename_valid_for_upload` creates the file. -/
def onFilenameForUpload (now : Time) (c : ClientConnection) (r : SequenceNumber × String) :
    Exec :=
  let c := { c with sequenceNumber := r.1 }
  match cfg.fileHandler.openFileWriteMode c.disk r.2 false with
  | .ok (file, disk) => do
      let c ← sendAck cfg { c with file := some file, disk }
      return c.stepSequence.block (.receiveFilesize r.2) now
  | .error e =>
      if e.cls = .invalidFilename then
        raise { c with state := .unrecoverableBadState } .connectionClosingNeeded
      else .error (e, c)

/-- What `receive_file` of the subclass does once the file information is there. -/
def startReception (now : Time) (c : ClientConnection) : ClientConnection :=
  match cfg.protocolVersion, c.ackNumber with
  | .goBackN, some ackNumber =>
      let receiver := GoBackNReceiver.init c.sequenceNumber ackNumber c.socket.lastRawPacket
      { c with socket := c.socket.resetState }.block (.receiveFileGbn receiver) now
  | _, _ => c.stepSequence.block .receiveFileChunk now

def onFilesize (now : Time) (filename : String) (c : ClientConnection)
    (r : SequenceNumber × Nat) : Exec :=
  let c := { c with sequenceNumber := r.1 }.stepAck
  if cfg.fileHandler.canFileFit r.2 then do
    let c ← sendAck cfg c
    return startReception cfg now
      { c with filenameForUpload := some filename, filesizeForUpload := some r.2 }
  else raise { c with state := .unrecoverableBadState } .connectionClosingNeeded

/-! ## Upload: the data -/

/-- `file_handler.append_to_file(self.file, packet)` -/
def appendToFile (c : ClientConnection) (packet : Packet) : ClientConnection :=
  match c.file with
  | some file =>
      let file := FileHandler.appendToFile file packet
      { c with file := some file, disk := cfg.fileHandler.flush c.disk file }
  | none => c

/-- The same of the packet a receiver takes, if it takes one. -/
def appendTaken (c : ClientConnection) : Option Packet → ClientConnection
  | some packet => appendToFile cfg c packet
  | none => c

theorem point_appendTaken (c : ClientConnection) (taken : Option Packet) :
    (appendTaken cfg c taken).point = c.point := by
  cases taken with
  | none => rfl
  | some packet =>
      show (appendToFile cfg c packet).point = c.point
      unfold appendToFile
      split <;> rfl

/-- `file_handler.close(self.file)` of the file written -/
def closeWritten (c : ClientConnection) : ClientConnection :=
  match c.file with
  | some file =>
      { c with file := some (FileHandler.close file), disk := FileHandler.closeOnDisk c.disk file }
  | none => c

/-- `finally: self.state = DONE_READY_TO_DIE` -/
def finallyDone : Exec → Exec
  | .ok c => .ok c
  | .error (e, c) => .error (e, { c with state := .doneReadyToDie })

/-- `closing_handshake_for_upload` up to its receive -/
def closingHandshakeForUpload (now : Time) (c : ClientConnection) : Exec :=
  finallyDone do
    let c ← sendAck cfg (c.report .connectionFinalizationReceived)
    let c ← sendFin cfg c
    return c.stepSequence.block .closingHandshakeForUpload now

/-- The exceptions the closing handshake of an upload swallows. -/
def closingSwallows (e : ExnClass) : Bool :=
  match cfg.protocolVersion with
  | .stopAndWait => e == .connectionLost || e == .socketShutdown
  | .goBackN => e == .connectionLost || e == .messageIsNotAck || e == .socketShutdown

/-- The end of `closing_handshake_for_upload`, and of `run` with it. -/
def onClosingUpload (c : ClientConnection) (r : Except Exn Unit) : Exec :=
  let c := { c with state := .doneReadyToDie }
  let completed := (c.report .uploadCompleted).finish
  match r with
  | .ok _ => .ok completed
  | .error e => if closingSwallows cfg e.cls then .ok completed else .error (e, c)

/-- `receive_single_chunk` and the loop around it in `receive_file` -/
def onFileChunk (now : Time) (c : ClientConnection) (r : SequenceNumber × Packet) : Exec := do
  let c := { c with sequenceNumber := r.1 }
  let c ← if r.2.isFin then .ok c else sendAck cfg c
  let c := appendToFile cfg c r.2
  if r.2.isFin then closingHandshakeForUpload cfg now c.closeWritten
  else return c.stepSequence.block .receiveFileChunk now

/-- What the receiver sends: the Go-Back-N protocol class saves nothing. -/
def sendReply (receiver : GoBackNReceiver) (c : ClientConnection) (reply : GoBackNReceiver.Reply) :
    Exec :=
  match reply with
  | .sendAck sequenceNumber ackNumber =>
      match Protocol.encode .goBackN sequenceNumber (some ackNumber) true false false
          cfg.address.port [] with
      | .error e => .error (e, c)
      | .ok raw => .ok { c with outbox := c.outbox ++ [(raw, cfg.clientAddress)] }
  | .resendLast =>
      .ok { c with outbox := c.outbox ++
          (receiver.lastTransmittedPacket.map fun raw ↦ (raw, cfg.clientAddress)).toList }

/-- A packet in `GoBackNReceiver.receive_file`, whose numbers are those of `run`. -/
def onGbnPacket (now : Time) (receiver : GoBackNReceiver) (c : ClientConnection)
    (packet : Packet) : Exec := do
  let o := receiver.onPacket packet
  let c ← o.replies.foldlM (sendReply cfg receiver) c
  let c := appendTaken cfg
    { c with
      sequenceNumber := o.receiver.sqnNumber
      ackNumber := some o.receiver.ackNumber
      point := .receiveFileGbn o.receiver }
    o.appended
  if o.finished then closingHandshakeForUpload cfg now c.closeWritten else return c

/-- An event in `GoBackNReceiver.receive_file`; a timeout there becomes `ConnectionLost`. -/
def listenReceiver (receiver : GoBackNReceiver) (c : ClientConnection) (ev : Event) : Exec :=
  match SocketGbn.recvfrom fullBufferSize ev with
  | none => .ok c
  | some (.error e) =>
      if e.cls = .retransmissionNeeded then raise c .connectionLost else .error (e, c)
  | some (.ok (raw, source)) =>
      match ServerProtocolGbn.receiveFileChunk raw source with
      | .error e => .error (e, c)
      | .ok packet => onGbnPacket cfg ev.now receiver c packet

/-! ## Download -/

/-- `receive_file_info_for_download` up to its receive -/
def receiveFileInfoForDownload (now : Time) (c : ClientConnection) : Exec :=
  .ok (c.stepSequence.block .receiveFilenameForDownload now)

/-- `closing_handshake_for_download` from its receive on, and the end of `run` -/
def completeDownload (c : ClientConnection) : Exec := do
  let c ← sendAck cfg (c.report .fileTransferComplete).stepSequence
  return ({ c with state := .doneReadyToDie }.report .downloadCompleted).finish

/-- `closing_handshake_for_download`; the flag is false under Stop-and-Wait. -/
def closingHandshakeForDownload (now : Time) (alreadyReceivedFinBack : Bool)
    (c : ClientConnection) : Exec :=
  if alreadyReceivedFinBack then completeDownload cfg c
  else .ok (c.block .closingHandshakeForDownload now)

/-- The loop of `transmit_file` from a read on; the last chunk is not waited for. -/
def transmitFile (now : Time) (totalChunks : Nat) :
    List Bytes → Nat → Bool → ClientConnection → Exec
  | [], _, _, c => closingHandshakeForDownload cfg now false c
  | chunk :: remaining, chunkNumber, isFirstChunk, c => do
      let isLastChunk := chunkNumber = totalChunks
      let c := if isFirstChunk then c else c.stepSequence
      let c ← sendFileChunk cfg c chunk isLastChunk isFirstChunk
      if isLastChunk then transmitFile now totalChunks remaining (chunkNumber + 1) false c
      else return c.block (.waitForChunkAck remaining (chunkNumber + 1) totalChunks) now

/-- `send_first_packet` up to its receive -/
def sendFirstPacket (now : Time) (file : File) (c : ClientConnection) : Exec := do
  let totalChunks := FileHandler.getNumberOfChunks file.content.length fileChunkSizeGbn
  let (chunk, file) := FileHandler.read file fileChunkSizeGbn
  let isLastChunk := 1 = totalChunks
  let c ← sendFileChunk cfg { c with file := some file } chunk isLastChunk true
  if isLastChunk then closingHandshakeForDownload cfg now false c
  else return c.block .waitForFirstPacketAck now

def onFilenameForDownload (now : Time) (c : ClientConnection) (r : SequenceNumber × String) :
    Exec :=
  let c := { c with sequenceNumber := r.1 }.stepAck
  match cfg.fileHandler.openFileReadMode c.disk r.2 false with
  | .ok file =>
      let c := { c with file := some file }
      match cfg.protocolVersion with
      | .stopAndWait =>
          let chunks := FileHandler.successiveReads fileChunkSizeSaw file.content
          transmitFile cfg now (FileHandler.getNumberOfChunks file.content.length fileChunkSizeSaw)
            chunks 1 true c
      | .goBackN => sendFirstPacket cfg now file c
  | .error e =>
      if e.cls = .invalidFilename then do
        let c ← sendFin cfg c
        raise { c with state := .unrecoverableBadState } .connectionClosingNeeded
      else .error (e, c)

/-- How the connection goes on with `GoBackNSender.send_file`. -/
def onSender (now : Time) (c : ClientConnection) : GoBackNSender.Result → Exec
  | .running s sent =>
      .ok
        { c with
          point := .sendFileGbn s
          outbox := c.outbox ++ (sent.map fun raw ↦ (raw, cfg.clientAddress)).toList }
  | .returned s =>
      closingHandshakeForDownload cfg now s.alreadyReceivedFinBack
        { c with
          sequenceNumber := s.returnedSequenceNumber
          ackNumber := some s.ackNumber
          file := c.file.map FileHandler.close
          socket := c.socket.saveState s.lastRawPacket cfg.clientAddress }
  | .raised e => .error (e, c)

/-- `send_file` once the first packet is acknowledged -/
def onFirstPacketAck (now : Time) (c : ClientConnection) : Exec :=
  match c.file, c.ackNumber with
  | some file, some ackNumber =>
      let (chunks, file) := GoBackNSender.splitFileInChunksServer file file.content.length
      let sender := GoBackNSender.initServer c.sequenceNumber ackNumber chunks
      onSender cfg now
        { c with
          file := some file
          ackNumber := some sender.ackNumber
          socket := c.socket.resetState }
        (sender.loop false)
  | _, _ => .ok c

/-- An event in `GoBackNSender.send_file`: running code proceeds, a receive gets a datagram
or fails. -/
def listenSender (sender : GoBackNSender) (c : ClientConnection) (ev : Event) : Exec :=
  match sender.point with
  | .waitForAck startTime =>
      match SocketGbn.recvfrom commsBufferSize ev with
      | none => .ok c
      | some received =>
          onSender cfg ev.now c (sender.awaitAckPhaseServer
            (received.bind fun r ↦ ServerProtocolGbn.waitForAck sender.ackNumber r.1 r.2)
            (ev.now - startTime))
  | _ =>
      match ev with
      | .proceed now => onSender cfg now c (sender.proceed cfg.address.port now)
      | _ => .ok c

/-! ## `run` -/

/-- The cleanup closes a file only if it is closed already. -/
def fileCleanupAfterError (c : ClientConnection) : ClientConnection :=
  match c.filenameForUpload with
  | some filename =>
      { c with
        disk := cfg.fileHandler.removeFileIfCorruptedOrIncomplete c.disk filename
          c.filesizeForUpload false }
  | none => c

/-- Every exception in here is caught and logged. -/
def swallow : Exec → ClientConnection
  | .ok c => c
  | .error (_, c) => c.finish

/-- `initiate_close_connection` up to its receive -/
def initiateCloseConnection (now : Time) (c : ClientConnection) : ClientConnection :=
  swallow do
    let c ← sendFin cfg c.stepSequence.stepAck
    return c.block .initiateCloseConnection now

/-- `initiate_close_connection` from its receive on -/
def onFinOrAck (c : ClientConnection) (_ : Unit) : Exec := do
  let c ← sendAck cfg c.stepSequence.stepAck
  return c.finish

/-- The exceptions `run` calls recoverable, which end it all the same. -/
def recoverable : List ExnClass :=
  [.missingClientAddress, .unexpectedOperation, .invalidSequenceNumber, .unexpectedFinMessage,
    .clientAlreadyConnected, .messageIsNotAck, .messageIsNotFinAck]

/-- The `except` clauses of `run`. -/
def handle (now : Time) : Exec → ClientConnection
  | .ok c => c
  | .error (e, c) =>
      if e.cls = .connectionClosingNeeded then initiateCloseConnection cfg now c
      else if e.cls ∈ recoverable then c.finish
      else (fileCleanupAfterError cfg { c with state := .unrecoverableBadState }).finish

/-- `process_operation_intention` and the branch on the operation -/
def processOperationIntention (now : Time) (c : ClientConnection) : Exec :=
  match ServerProtocol.processOperationIntention cfg.initialPacket with
  | .error e => .error (e, c)
  | .ok opCode =>
      if opCode = uploadOperation then do
        let c ← sendAck cfg { c with state := .readyToReceive }
        receiveFileInfoForUpload now c
      else do
        let c ← sendAck cfg { c with state := .readyToTransmit }
        receiveFileInfoForDownload now c

/-- The connection as built: its socket has sent nothing. -/
def init (disk : Disk) (now : Time) : ClientConnection where
  socket := .new
  state := .handshakeFinished
  file := none
  disk := disk
  sequenceNumber := ⟨cfg.initialPacket.sequenceNumber, cfg.protocolVersion⟩
  ackNumber := none
  filenameForUpload := none
  filesizeForUpload := none
  listening := .start now
  point := .ended
  outbox := []
  reports := []

/-- `run` up to its first receive.  A Go-Back-N connection reads `ack_number` off the first
packet before anything is caught. -/
def start (disk : Disk) (now : Time) : ClientConnection :=
  let c := init cfg disk now
  match cfg.protocolVersion with
  | .stopAndWait => handle cfg now (processOperationIntention cfg now c)
  | .goBackN =>
      match cfg.initialPacket.ackNumber with
      | none => c
      | some n =>
          handle cfg now (processOperationIntention cfg now { c with ackNumber := some ⟨n, .goBackN⟩ })

/-- The receive the thread is blocked in gets an event. -/
def onEvent (c : ClientConnection) (ev : Event) : Exec :=
  match c.point with
  | .receiveFilenameForUpload =>
      listen c (receiveFilename cfg.protocolVersion c.sequenceNumber) ev
        (onSuccess (onFilenameForUpload cfg ev.now))
  | .receiveFilesize filename =>
      listen c (receiveFilesize cfg.protocolVersion c.sequenceNumber) ev
        (onSuccess (onFilesize cfg ev.now filename))
  | .receiveFileChunk =>
      listen c (receiveFileChunk cfg.protocolVersion c.sequenceNumber) ev
        (onSuccess (onFileChunk cfg ev.now))
  | .receiveFileGbn receiver => listenReceiver cfg receiver c ev
  | .closingHandshakeForUpload =>
      listen c ((waitForAck c.sequenceNumber).letThrough [.connectionLost]) ev
        (onClosingUpload cfg)
  | .initiateCloseConnection =>
      listen c (waitForFinOrAck c.sequenceNumber) ev (onSuccess (onFinOrAck cfg))
  | .receiveFilenameForDownload =>
      listen c (receiveFilename cfg.protocolVersion c.sequenceNumber) ev
        (onSuccess (onFilenameForDownload cfg ev.now))
  | .waitForChunkAck remaining chunkNumber totalChunks =>
      listen c (waitForAck c.sequenceNumber) ev
        (onSuccess fun c _ ↦ transmitFile cfg ev.now totalChunks remaining chunkNumber false c)
  | .waitForFirstPacketAck =>
      listen c (waitForAck c.sequenceNumber) ev (onSuccess fun c _ ↦ onFirstPacketAck cfg ev.now c)
  | .sendFileGbn sender => listenSender cfg sender c ev
  | .closingHandshakeForDownload =>
      listen c (waitForFinOrAck c.sequenceNumber) ev (onSuccess fun c _ ↦ completeDownload cfg c)
  | .ended => .ok c

/-- What the receive the thread is blocked in makes of an event, but for the value received. -/
def listened (c : ClientConnection) (ev : Event) : Listened Unit :=
  match c.point with
  | .receiveFilenameForUpload | .receiveFilenameForDownload =>
      (reListenIfFailed (receiveFilename cfg.protocolVersion c.sequenceNumber) c.socket c.listening
        ev).void
  | .receiveFilesize _ =>
      (reListenIfFailed (receiveFilesize cfg.protocolVersion c.sequenceNumber) c.socket c.listening
        ev).void
  | .receiveFileChunk =>
      (reListenIfFailed (receiveFileChunk cfg.protocolVersion c.sequenceNumber) c.socket c.listening
        ev).void
  | .receiveFileGbn _ =>
      match SocketGbn.recvfrom fullBufferSize ev with
      | none => .listening c.listening false
      | some (.error e) =>
          .raised (if e.cls = .retransmissionNeeded then ExnClass.connectionLost.exn else e) false
      | some (.ok (raw, source)) =>
          match ServerProtocolGbn.receiveFileChunk raw source with
          | .error e => .raised e false
          | .ok _ => .returned ()
  | .closingHandshakeForUpload =>
      reListenIfFailed ((waitForAck c.sequenceNumber).letThrough [.connectionLost]) c.socket
        c.listening ev
  | .initiateCloseConnection | .closingHandshakeForDownload =>
      reListenIfFailed (waitForFinOrAck c.sequenceNumber) c.socket c.listening ev
  | .waitForChunkAck _ _ _ | .waitForFirstPacketAck =>
      reListenIfFailed (waitForAck c.sequenceNumber) c.socket c.listening ev
  | .sendFileGbn _ | .ended => .listening c.listening false

/-- One event; inside `initiate_close_connection` nothing gets out. -/
def step (c : ClientConnection) (ev : Event) : ClientConnection :=
  let c := { c with outbox := [] }
  match c.point with
  | .initiateCloseConnection => swallow (onEvent cfg c ev)
  | _ => handle cfg ev.now (onEvent cfg c ev)

variable {cfg} in
theorem step_eq_handle {c : ClientConnection} {ev : Event} (h : c.point ≠ .initiateCloseConnection) :
    step cfg c ev = handle cfg ev.now (onEvent cfg { c with outbox := [] } ev) := by
  unfold step
  dsimp only
  split
  · rename_i hp
    exact absurd hp h
  · rfl

variable {cfg} in
theorem step_ended {c : ClientConnection} {ev : Event} (hp : c.point = .ended) :
    step cfg c ev = { c with outbox := [] } := by
  rw [step_eq_handle (by rw [hp]; simp), onEvent, hp]
  rfl

/-- `is_ready_to_die` -/
def isReadyToDie (c : ClientConnection) : Bool :=
  c.state == .doneReadyToDie || c.state == .unrecoverableBadState

/-! ## Exceptions -/

/-- An exception other than `ConnectionClosingNeeded` ends the run without a word. -/
theorem handle_error (cfg : Config) (now : Time) (c : ClientConnection) {e : Exn}
    (h : e.cls ≠ .connectionClosingNeeded) :
    ∃ state disk, handle cfg now (.error (e, c)) = { c with state, disk, point := .ended } := by
  simp only [handle, if_neg h]
  split
  · exact ⟨c.state, c.disk, rfl⟩
  · unfold fileCleanupAfterError
    split <;> exact ⟨_, _, rfl⟩

/-- The connection closes because it refused something, or has ended. -/
inductive Leaving (c : ClientConnection) : Prop
  | closing (hp : c.point = .initiateCloseConnection)
  | ended (hp : c.point = .ended)

theorem leaving_handle_error (cfg : Config) (now : Time) (e : Exn × ClientConnection) :
    Leaving (handle cfg now (.error e)) := by
  simp only [handle]
  split
  · unfold initiateCloseConnection
    cases sendFin cfg e.2.stepSequence.stepAck with
    | error e => exact .ended rfl
    | ok c => exact .closing rfl
  · split <;> exact .ended rfl

theorem leaving_completeDownload (cfg : Config) (now : Time) (c : ClientConnection) :
    Leaving (handle cfg now (completeDownload cfg c)) := by
  unfold completeDownload
  cases sendAck cfg (c.report .fileTransferComplete).stepSequence with
  | error e => exact leaving_handle_error cfg now e
  | ok c₁ => exact .ended rfl

theorem Leaving.step {c : ClientConnection} (h : Leaving c) (cfg : Config) (ev : Event) :
    Leaving (ClientConnection.step cfg c ev) := by
  cases h with
  | ended hp =>
      simp only [ClientConnection.step, onEvent, hp]
      exact .ended rfl
  | closing hp =>
      simp only [ClientConnection.step, onEvent, hp, listen]
      split
      · exact .closing rfl
      · simp only [onSuccess, onFinOrAck]
        generalize sendAck cfg _ = sent
        cases sent with
        | error e => exact .ended rfl
        | ok c₁ => exact .ended rfl
      · exact .ended rfl

theorem receiveRaises_ne {e : ExnClass} (h : e ∈ receiveRaises) : e ≠ .connectionClosingNeeded := by
  rintro rfl
  revert h
  decide

end ClientConnection

end Rdt.Server
