import Rdt.Server.Connection

/-!
# `Accepter`, `ClientManager` and `ClientPool`

The server: the thread of the accepter on the welcoming socket, and the threads of the
connections it started.
-/

namespace Rdt.Server

open AccepterProtocol

/-- A connection object with its thread. -/
structure Connection where
  cfg : Config
  thread : ClientConnection

namespace Connection

def isReadyToDie (c : Connection) : Bool := c.thread.isReadyToDie

end Connection

/-! ## `client_pool.py` -/

/-- A dictionary in order of insertion. -/
abbrev ClientPool := List (String × Connection)

namespace ClientPool

def contains (p : ClientPool) (key : String) : Bool := p.any fun e ↦ e.1 == key

/-- `self.clients[key] = value` -/
def add (p : ClientPool) (key : String) (value : Connection) : ClientPool :=
  if p.contains key then p.map fun e ↦ if e.1 = key then (key, value) else e
  else p ++ [(key, value)]

/-- `del self.clients[client_to_remove.to_combined()]` -/
def remove (p : ClientPool) (clientToRemove : Address) : Except Exn ClientPool :=
  if p.contains clientToRemove.toCombined then
    .ok (p.filter fun e ↦ e.1 ≠ clientToRemove.toCombined)
  else .error ExnClass.keyError.exn

def isClientConnected (p : ClientPool) (clientAddress : Address) : Bool :=
  p.contains clientAddress.toCombined

end ClientPool

/-! ## `accepter.py` -/

inductive AccepterPoint where
  | acceptConnection
  | handshake (clientAddress connectionAddress : Peer) (ackNumber : Option SequenceNumber)
      (listening : ReListen)
deriving DecidableEq, Repr

structure AccepterConfig where
  protocolVersion : ProtocolType
  address : Address
  fileHandler : FileHandler

/-- `escaped` is the exception that got out of `run`, if one did; `outbox` what the last step
handed over for sending. -/
structure Accepter where
  isAlive : Bool
  escaped : Option Exn
  clients : ClientPool
  welcomingSocket : SocketSaw
  point : AccepterPoint
  disk : Disk
  outbox : Outbox

/-- The accepter's receive gets an event, with the address the system would give to a socket
bound now; or a connection's receive gets one. -/
inductive ServerEvent where
  | welcoming (ev : Event) (bound : Peer)
  | connection (key : String) (ev : Event)
deriving DecidableEq, Repr

namespace Accepter

variable (cfg : AccepterConfig)

/-! ## `client_manager.py` -/

/-- `rip_finished_clients`.  The socket of a connection that is ready to die is closed under its
thread: one that is still in `initiate_close_connection` is cut off there. -/
def ripFinishedClients (p : ClientPool) : Except Exn ClientPool :=
  ((p.filter fun e ↦ e.2.isReadyToDie).map fun e ↦ e.2.cfg.address).foldlM ClientPool.remove p

/-- `create_connection` and `start` -/
def createConnection (connectionAddress clientAddress : Peer) (packet : Packet) (disk : Disk)
    (now : Time) : Connection :=
  let config : Config :=
    { protocolVersion := cfg.protocolVersion
      address := connectionAddress
      clientAddress
      fileHandler := cfg.fileHandler
      initialPacket := packet
      portBound := connectionAddress.reachable
      clientReachable := clientAddress.reachable }
  ⟨config, ClientConnection.start config disk now⟩

def addClient (a : Accepter) (connectionAddress clientAddress : Peer) (packet : Packet)
    (now : Time) : Except Exn Accepter := do
  let clients ← ripFinishedClients a.clients
  let connection := createConnection cfg connectionAddress clientAddress packet a.disk now
  return { a with
    clients := clients.add connectionAddress.toCombined connection
    disk := connection.thread.disk }

/-! ## Accepting -/

/-- The head of the loop of `run`, down to the receive of `accept_connection`. -/
def loop (a : Accepter) : Accepter :=
  { a with point := .acceptConnection, welcomingSocket := a.welcomingSocket.resetState }

def stop (a : Accepter) : Accepter := { a with isAlive := false }

/-- The socket keeps the packet and its destination; a send that fails stops the accepter, which then
sends nothing any more. -/
def send (a : Accepter) (protocol : ProtocolType) (sequenceNumber : Nat) (ackNumber : Option Nat)
    (isAck isSyn isFin : Bool) (port : UInt16) (toAddress : Address) :
    Except Exn (Accepter × Peer) := do
  let raw ← Protocol.encode protocol ⟨sequenceNumber, protocol⟩ (ackNumber.map (⟨·, protocol⟩)) isAck
    isSyn isFin port []
  let peer ← sendto toAddress
  return ({ a with
    welcomingSocket := a.welcomingSocket.saveState (some raw) peer
    outbox := a.outbox ++ [(raw, peer.toAddress)] }, peer)

/-- A FIN in the protocol of the packet, with its numbers. -/
def rejectConnection (a : Accepter) (packet : Packet) (clientAddress : Address) :
    Except Exn (Accepter × Peer) :=
  a.send packet.protocol packet.sequenceNumber packet.ackNumber false false true
    clientAddress.port clientAddress

def sendConnectionAccepted (a : Accepter) (packet : Packet) (clientAddress : Address)
    (connectionAddress : Peer) : Except Exn (Accepter × Peer) :=
  a.send cfg.protocolVersion packet.sequenceNumber packet.ackNumber true true false
    connectionAddress.port clientAddress

/-- The `except` clauses of `accept` and `run`. -/
def handle (a : Accepter) (e : Exn) : Accepter :=
  match e.cls with
  | .missingClientAddress | .clientAlreadyConnected | .protocolMismatch | .messageIsNotSyn
  | .messageIsNotAck | .connectionLost => a.loop
  | .socketShutdown => a.stop
  | _ => { a with escaped := some e }

/-- `AccepterProtocol.accept_connection` once a datagram is there -/
def acceptConnection (a : Accepter) (rawPacket : Bytes) (source : Option Address) :
    Except Exn (Packet × Address) := do
  let (packet, clientAddress) ← validateInboundPacket rawPacket source
  if !packet.isSyn then .error ExnClass.messageIsNotSyn.exn
  else if a.clients.isClientConnected clientAddress then
    .error ExnClass.clientAlreadyConnected.exn
  else return (packet, clientAddress)

/-- `handshake` up to its receive; an exception comes with the state it leaves behind. -/
def handshake (a : Accepter) (packet : Packet) (clientAddress : Address) (bound : Peer) (now : Time) :
    Accepter :=
  if a.clients.isClientConnected clientAddress then
    a.handle ExnClass.clientAlreadyConnected.exn
  else if packet.protocol ≠ cfg.protocolVersion then
    match a.rejectConnection packet clientAddress with
    | .ok (a, _) => a.handle ExnClass.protocolMismatch.exn
    | .error e => a.handle e
  else
    match sendConnectionAccepted cfg a packet clientAddress bound with
    | .error e => a.handle e
    | .ok (a, peer) =>
        let ackNumber := packet.ackNumber.map fun n ↦ SequenceNumber.step ⟨n, packet.protocol⟩
        { a with point := .handshake peer bound ackNumber (.start now) }

/-- An event in the receive of `accept_connection`, whose socket has no timeout. -/
def onAcceptConnection (a : Accepter) (ev : Event) (bound : Peer) : Accepter :=
  match ev with
  | .datagram raw source now =>
      match a.acceptConnection (raw.take commsBufferSize) source with
      | .error e => a.handle e
      | .ok (packet, clientAddress) => handshake cfg a packet clientAddress bound now
  | .osError _ => a.handle ExnClass.connectionLost.exn
  | .timeout _ | .proceed _ => a

/-- The retransmission of the wrapped receive, if there is one. -/
def retransmit (a : Accepter) (retransmit : Bool) : Accepter :=
  { a with outbox := a.outbox ++ if retransmit then a.welcomingSocket.retransmission else [] }

/-- An event in the receive of `expect_handshake_completion`.  The source of the packet
that completes the handshake is dropped. -/
def onHandshake (a : Accepter) (clientAddress connectionAddress : Peer)
    (ackNumber : Option SequenceNumber) (listening : ReListen) (ev : Event) : Accepter :=
  match reListenIfFailed (expectHandshakeCompletion ackNumber) a.welcomingSocket listening ev with
  | .listening r retransmit =>
      { a.retransmit retransmit with
        point := .handshake clientAddress connectionAddress ackNumber r }
  | .returned (packet, _) =>
      match addClient cfg a connectionAddress clientAddress packet ev.now with
      | .ok a => a.loop
      | .error e => a.handle e
  | .raised e retransmit => (a.retransmit retransmit).handle e

/-- One event of a connection's thread; all of them work on one storage. -/
def onConnection (a : Accepter) (key : String) (ev : Event) : Accepter :=
  match a.clients.find? fun e ↦ e.1 == key with
  | none => a
  | some (_, c) =>
      let thread := ClientConnection.step c.cfg { c.thread with disk := a.disk } ev
      { a with
        clients := a.clients.map fun e ↦ if e.1 = key then (key, { c with thread }) else e
        disk := thread.disk }

def step (a : Accepter) (e : ServerEvent) : Accepter :=
  let a := { a with outbox := [] }
  match e with
  | .connection key ev => a.onConnection key ev
  | .welcoming ev bound =>
      if a.isAlive ∧ a.escaped = none then
        match a.point with
        | .acceptConnection => onAcceptConnection cfg a ev bound
        | .handshake clientAddress connectionAddress ackNumber listening =>
            onHandshake cfg a clientAddress connectionAddress ackNumber listening ev
      else a

def init (disk : Disk) : Accepter where
  isAlive := true
  escaped := none
  clients := []
  welcomingSocket := .new
  point := .acceptConnection
  disk := disk
  outbox := []

end Accepter

end Rdt.Server
