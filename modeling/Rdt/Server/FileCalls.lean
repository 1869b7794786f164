import Rdt.Server.Connection

/-!
# Turns in which a call on the file raises

`step` lets the calls that follow the opening of a file go through.  Here one of them may raise an
`OSError`, as on a full disk.
-/

namespace Rdt.Server

/-- What the calls of `FileHandler` do in one turn once the file is open: they go through; the first
`read`, `write`, `stat` or `disk_usage` raises an `OSError`; or `close` does, which has closed the file by
then. -/
inductive FileCalls where
  | work
  | transferFails
  | closeFails
deriving DecidableEq, Repr

namespace FileCalls

open ClientConnection

/-- A call that may raise, before it has done anything -/
def transfer (calls : FileCalls) (c : ClientConnection) : Exec :=
  if calls = .transferFails then raise c .osError else .ok c

/-- A `close`, after it has closed the file -/
def close (calls : FileCalls) (c : ClientConnection) : Exec :=
  if calls = .closeFails then raise c .osError else .ok c

theorem transfer_eq_ok {calls : FileCalls} (h : calls ≠ .transferFails) (c : ClientConnection) :
    calls.transfer c = .ok c := if_neg h

@[simp] theorem transfer_work (c : ClientConnection) : work.transfer c = .ok c := rfl

@[simp] theorem close_work (c : ClientConnection) : work.close c = .ok c := rfl

end FileCalls

namespace ClientConnection

variable (cfg : Config) (calls : FileCalls)

/-! ## Uploads -/

/-- `onFilesize` with its `disk_usage` -/
def onFilesizeWith (now : Time) (filename : String) (c : ClientConnection)
    (r : SequenceNumber × Nat) : Exec := do
  let _ ← calls.transfer { c with sequenceNumber := r.1 }.stepAck
  onFilesize cfg now filename c r

/-- `onFileChunk` with its `write` and its `close` -/
def onFileChunkWith (now : Time) (c : ClientConnection) (r : SequenceNumber × Packet) : Exec := do
  let c := { c with sequenceNumber := r.1 }
  let c ← if r.2.isFin then .ok c else sendAck cfg c
  let c ← calls.transfer c
  let c := appendToFile cfg c r.2
  if r.2.isFin then do
    let c ← calls.close c.closeWritten
    closingHandshakeForUpload cfg now c
  else return c.stepSequence.block .receiveFileChunk now

/-- `onGbnPacket` with its `write`, if there is something to append, and its `close` -/
def onGbnPacketWith (now : Time) (receiver : GoBackNReceiver) (c : ClientConnection)
    (packet : Packet) : Exec := do
  let o := receiver.onPacket packet
  let c ← o.replies.foldlM (sendReply cfg receiver) c
  let c ← if o.appended.isSome then calls.transfer c else .ok c
  let c := appendTaken cfg
    { c with
      sequenceNumber := o.receiver.sqnNumber
      ackNumber := some o.receiver.ackNumber
      point := .receiveFileGbn o.receiver }
    o.appended
  if o.finished then do
    let c ← calls.close c.closeWritten
    closingHandshakeForUpload cfg now c
  else return c

def listenReceiverWith (receiver : GoBackNReceiver) (c : ClientConnection) (ev : Event) : Exec :=
  match SocketGbn.recvfrom fullBufferSize ev with
  | none => .ok c
  | some (.error e) =>
      if e.cls = .retransmissionNeeded then raise c .connectionLost else .error (e, c)
  | some (.ok (raw, source)) =>
      match ServerProtocolGbn.receiveFileChunk raw source with
      | .error e => .error (e, c)
      | .ok packet => onGbnPacketWith cfg calls ev.now receiver c packet

/-! ## Downloads -/

/-- `onFilenameForDownload`, whose `stat` and first `read` come once the file is open -/
def onFilenameForDownloadWith (now : Time) (c : ClientConnection) (r : SequenceNumber × String) :
    Exec :=
  let opening := { c with sequenceNumber := r.1 }.stepAck
  match cfg.fileHandler.openFileReadMode opening.disk r.2 false with
  | .ok file => do
      let _ ← calls.transfer { opening with file := some file }
      onFilenameForDownload cfg now c r
  | .error _ => onFilenameForDownload cfg now c r

/-- The loop of `transmit_file` goes on with a `read`. -/
def onChunkAckWith (now : Time) (totalChunks : Nat) (remaining : List Bytes) (chunkNumber : Nat)
    (c : ClientConnection) (_ : Unit) : Exec := do
  let c ← calls.transfer c
  transmitFile cfg now totalChunks remaining chunkNumber false c

/-- `onSender` with the `close` of `send_file` -/
def onSenderWith (now : Time) (c : ClientConnection) : GoBackNSender.Result → Exec
  | .returned s => do
      let _ ← calls.close
        { c with
          sequenceNumber := s.returnedSequenceNumber
          ackNumber := some s.ackNumber
          file := c.file.map FileHandler.close }
      onSender cfg now c (.returned s)
  | r => onSender cfg now c r

/-- `onFirstPacketAck` with the reads of `split_file_in_chunks`, of which an empty file has none -/
def onFirstPacketAckWith (now : Time) (c : ClientConnection) : Exec :=
  match c.file, c.ackNumber with
  | some file, some ackNumber => do
      let _ ← if file.content = [] then .ok c else calls.transfer c
      let (chunks, file) := GoBackNSender.splitFileInChunksServer file file.content.length
      let sender := GoBackNSender.initServer c.sequenceNumber ackNumber chunks
      onSenderWith cfg calls now
        { c with
          file := some file
          ackNumber := some sender.ackNumber
          socket := c.socket.resetState }
        (sender.loop false)
  | _, _ => .ok c

def listenSenderWith (sender : GoBackNSender) (c : ClientConnection) (ev : Event) : Exec :=
  match sender.point with
  | .waitForAck startTime =>
      match SocketGbn.recvfrom commsBufferSize ev with
      | none => .ok c
      | some received =>
          onSenderWith cfg calls ev.now c (sender.awaitAckPhaseServer
            (received.bind fun r ↦ ServerProtocolGbn.waitForAck sender.ackNumber r.1 r.2)
            (ev.now - startTime))
  | _ =>
      match ev with
      | .proceed now => onSenderWith cfg calls now c (sender.proceed cfg.address.port now)
      | _ => .ok c

/-! ## Turns -/

/-- The receives behind which nothing is done with an open file are those of `onEvent`. -/
def onEventWith (c : ClientConnection) (ev : Event) : Exec :=
  match c.point with
  | .receiveFilesize filename =>
      listen c (ServerProtocol.receiveFilesize cfg.protocolVersion c.sequenceNumber) ev
        (onSuccess (onFilesizeWith cfg calls ev.now filename))
  | .receiveFileChunk =>
      listen c (ServerProtocol.receiveFileChunk cfg.protocolVersion c.sequenceNumber) ev
        (onSuccess (onFileChunkWith cfg calls ev.now))
  | .receiveFileGbn receiver => listenReceiverWith cfg calls receiver c ev
  | .receiveFilenameForDownload =>
      listen c (ServerProtocol.receiveFilename cfg.protocolVersion c.sequenceNumber) ev
        (onSuccess (onFilenameForDownloadWith cfg calls ev.now))
  | .waitForChunkAck remaining chunkNumber totalChunks =>
      listen c (ServerProtocol.waitForAck c.sequenceNumber) ev
        (onSuccess (onChunkAckWith cfg calls ev.now totalChunks remaining chunkNumber))
  | .waitForFirstPacketAck =>
      listen c (ServerProtocol.waitForAck c.sequenceNumber) ev
        (onSuccess fun c _ ↦ onFirstPacketAckWith cfg calls ev.now c)
  | .sendFileGbn sender => listenSenderWith cfg calls sender c ev
  | _ => onEvent cfg c ev

/-- One event, and what the calls on the file do meanwhile -/
def turn (c : ClientConnection) (t : Event × FileCalls) : ClientConnection :=
  let c := { c with outbox := [] }
  match c.point with
  | .initiateCloseConnection => swallow (onEventWith cfg t.2 c t.1)
  | _ => handle cfg t.1.now (onEventWith cfg t.2 c t.1)

/-! ### Turns in which they go through -/

variable {cfg} {c : ClientConnection} {ev : Event} {now : Time}

theorem onFilesizeWith_work : onFilesizeWith cfg .work now = onFilesize cfg now := rfl

theorem onFileChunkWith_work : onFileChunkWith cfg .work now = onFileChunk cfg now := rfl

theorem onGbnPacketWith_work : onGbnPacketWith cfg .work now = onGbnPacket cfg now := by
  funext receiver c packet
  unfold onGbnPacketWith onGbnPacket
  simp only [FileCalls.transfer_work, ite_self]
  rfl

theorem listenReceiverWith_work : listenReceiverWith cfg .work = listenReceiver cfg := by
  funext receiver c ev
  unfold listenReceiverWith listenReceiver
  simp only [onGbnPacketWith_work] <;> rfl

theorem onFilenameForDownloadWith_work :
    onFilenameForDownloadWith cfg .work now = onFilenameForDownload cfg now := by
  funext c r
  unfold onFilenameForDownloadWith
  dsimp only
  split <;> rfl

theorem onChunkAckWith_work {totalChunks : Nat} {remaining : List Bytes} {chunkNumber : Nat} :
    onChunkAckWith cfg .work now totalChunks remaining chunkNumber =
      fun c _ ↦ transmitFile cfg now totalChunks remaining chunkNumber false c := rfl

theorem onSenderWith_work : onSenderWith cfg .work now = onSender cfg now := by
  funext c r
  cases r <;> rfl

theorem onFirstPacketAckWith_work :
    onFirstPacketAckWith cfg .work now = onFirstPacketAck cfg now := by
  funext c
  unfold onFirstPacketAckWith onFirstPacketAck
  simp only [FileCalls.transfer_work, ite_self, onSenderWith_work]
  rfl

theorem listenSenderWith_work : listenSenderWith cfg .work = listenSender cfg := by
  funext sender c ev
  unfold listenSenderWith listenSender
  simp only [onSenderWith_work] <;> rfl

theorem onEventWith_work (c : ClientConnection) (ev : Event) :
    onEventWith cfg .work c ev = onEvent cfg c ev := by
  unfold onEventWith onEvent
  cases c.point with
  | receiveFilesize => simp only [onFilesizeWith_work]
  | receiveFileChunk => simp only [onFileChunkWith_work]
  | receiveFileGbn => simp only [listenReceiverWith_work]
  | receiveFilenameForDownload => simp only [onFilenameForDownloadWith_work]
  | waitForChunkAck => simp only [onChunkAckWith_work]
  | waitForFirstPacketAck => simp only [onFirstPacketAckWith_work]
  | sendFileGbn => simp only [listenSenderWith_work]
  | receiveFilenameForUpload | closingHandshakeForUpload | initiateCloseConnection
  | closingHandshakeForDownload | ended => rfl

/-- `turn` is `step` where nothing raises. -/
theorem turn_work (cfg : Config) (c : ClientConnection) (ev : Event) :
    turn cfg c (ev, .work) = step cfg c ev := by
  unfold turn step
  simp only [onEventWith_work] <;> rfl

end ClientConnection

end Rdt.Server
