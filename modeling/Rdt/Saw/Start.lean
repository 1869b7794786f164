import Rdt.Lib.Lockstep
import Rdt.Saw.Sending

/-!
# The start of a connection

The client has sent the operation and waits for the confirmation, the thread of the
connection starts.
-/

namespace Rdt.Saw

open BigEndian Duplex Server

/-- A client that has answered the handshake by its operation; since then it may have retransmitted
it. -/
structure SentOperation (cfg : Client.Config) (peer : Address) (c c' : Client) : Prop where
  proto : cfg.protocolVersion = .stopAndWait
  number : c.sequenceNumber = ⟨0, .stopAndWait⟩
  ack : c.ackNumber = none
  reports : c.reports = []
  sent : ∃ now e, Client.sendOperationIntention cfg now peer (Client.operationCode cfg) c = .ok e ∧
    c' = { e with listening := c'.listening, outbox := c'.outbox }

/-- The connection is built from what the client sent, and runs up to its first receive. -/
structure ConnectionStarts (cfg : Server.Config) (c : Client) (disk : Disk) (c' : ClientConnection) :
    Prop where
  proto : cfg.protocolVersion = .stopAndWait
  packet : ∃ raw ∈ c.socket.lastRawPacket,
    cfg.initialPacket = PacketParser.getPacketFromBytes (raw.take commsBufferSize)
  started : ∃ now, c' = ClientConnection.start cfg disk now

/-- Copies of the answer to the handshake, then what the connection sent. -/
def AnswersInFlight (cfg : Server.Config) (c : ClientConnection) (q : List Bytes) : Prop :=
  ∃ old, (∀ raw ∈ old, Carries raw 0 true false []) ∧ q = old ++ c.outbox.to cfg.clientAddress

/-- The thread of the connection starts; `c` is the client before it sent its operation.  Only the
answers to the handshake and the first ACK are in flight. -/
structure Starts (ccfg : Client.Config) (scfg : Server.Config) (disk : Disk) (c : Client)
    (w : World Client ClientConnection Bytes Bytes) : Prop where
  client : SentOperation ccfg scfg.address c w.left
  connection : ConnectionStarts scfg w.left disk w.right
  toRight : w.toRight = []
  toLeft : AnswersInFlight scfg w.right w.toLeft

variable {ccfg : Client.Config} {scfg : Server.Config} {peer : Address} {c₀ c : Client} {disk : Disk}
  {c' : ClientConnection}

theorem SentOperation.spec (h : SentOperation ccfg peer c₀ c) : c.point = .sendOperationIntention peer ∧
    c.sequenceNumber = ⟨1, .stopAndWait⟩ ∧ c.ackNumber = none ∧ c.file = c₀.file ∧ c.reports = [] ∧
    ∃ raw, c.socket.lastRawPacket = some raw ∧
      Carries raw 1 true false (toBytes 2 (Client.operationCode ccfg)) := by
  obtain ⟨now, e, hsent, hc⟩ := h.sent
  have hseq : c₀.stepSequence.stepAck.sequenceNumber = ⟨1, .stopAndWait⟩ := by
    show c₀.sequenceNumber.step = _
    rw [h.number]
    rfl
  obtain ⟨c₁, hsent₁, -⟩ := except_bind_eq_ok.mp hsent
  obtain ⟨raw, hraw, hsend⟩ := Client.send_saw h.proto (c := c₀.stepSequence.stepAck)
    (by rw [hseq]; decide) ((Client.send_eq_ok ccfg).mp hsent₁).1 true false ccfg.myAddress.port
    (show (toBytes 2 (Client.operationCode ccfg)).length < 2 ^ 16 by simp)
  rw [hseq] at hraw
  have he : (c₀.stepSequence.stepAck.handed raw).block (.sendOperationIntention peer) now = e := by
    rw [Client.sendOperationIntention, hsend] at hsent
    exact Except.ok.inj hsent
  rw [hc, ← he]
  refine ⟨rfl, hseq, ?_, rfl, h.reports, raw, rfl, hraw⟩
  show c₀.ackNumber.map _ = none
  rw [h.ack]
  rfl

/-- The connection at its first receive. -/
structure Started (cfg : Server.Config) (disk : Disk) (point : Point) (c : ClientConnection) : Prop where
  point : c.point = point
  number : c.sequenceNumber = ⟨0, .stopAndWait⟩
  unnamed : c.file = none ∧ c.filenameForUpload = none ∧ c.filesizeForUpload = none
  disk : c.disk = disk
  reports : c.reports = []
  ack : ∃ ack, Carries ack 1 true false [] ∧ c.outbox = [(ack, cfg.clientAddress)] ∧
    c.socket.retransmission = [(ack, cfg.clientAddress)]

/-- The first ACK of the connection has the number of the operation. -/
theorem ConnectionStarts.spec (h : ConnectionStarts scfg c disk c') {opCode : Nat}
    (hop : opCode = uploadOperation ∨ opCode = downloadOperation)
    (hlast : ∃ raw, c.socket.lastRawPacket = some raw ∧ Carries raw 1 true false (toBytes 2 opCode)) :
    Started scfg disk (if opCode = uploadOperation then .receiveFilenameForUpload
      else .receiveFilenameForDownload) c' := by
  obtain ⟨raw, hraw, hcarries⟩ := hlast
  obtain ⟨raw', hraw', hpacket⟩ := h.packet
  obtain ⟨now, rfl⟩ := h.started
  obtain rfl : raw' = raw := Option.some.inj (hraw'.symm.trans hraw)
  obtain ⟨isSyn, port, hcarries⟩ := hcarries
  rw [(hcarries commsBufferSize (by decide)).2] at hpacket
  have hcode : ServerProtocol.processOperationIntention scfg.initialPacket = .ok opCode := by
    rw [hpacket]
    rcases hop with rfl | rfl <;> rfl
  have hseq : (ClientConnection.init scfg disk now).sequenceNumber = ⟨1, .stopAndWait⟩ := by
    rw [ClientConnection.init, hpacket, h.proto]
  have hstep : (ClientConnection.init scfg disk now).sequenceNumber.step = ⟨0, .stopAndWait⟩ := by
    rw [hseq]
    rfl
  have hsend : ∀ state, ∃ ack, Carries ack 1 true false [] ∧
      ClientConnection.sendAck scfg { ClientConnection.init scfg disk now with state } =
        .ok (ClientConnection.handed scfg { ClientConnection.init scfg disk now with state } ack) := by
    intro state
    obtain ⟨ack, hack, hsend⟩ := ClientConnection.send_saw h.proto
      (c := { ClientConnection.init scfg disk now with state }) (by rw [hseq]; decide) true false nil_fits
    rw [hseq] at hack
    exact ⟨ack, hack, hsend⟩
  simp only [ClientConnection.start, h.proto, ClientConnection.processOperationIntention, hcode]
  rcases hop with rfl | rfl
  · obtain ⟨ack, hack, hsend⟩ := hsend .readyToReceive
    rw [if_pos rfl, if_pos rfl, hsend]
    exact ⟨rfl, hstep, ⟨rfl, rfl, rfl⟩, rfl, rfl, ack, hack, rfl, rfl⟩
  · obtain ⟨ack, hack, hsend⟩ := hsend .readyToTransmit
    rw [if_neg (by decide), if_neg (by decide), hsend]
    exact ⟨rfl, hstep, ⟨rfl, rfl, rfl⟩, rfl, rfl, ack, hack, rfl, rfl⟩

/-- What is in flight to the client. -/
theorem AnswersInFlight.weighs {q : List Bytes} (h : AnswersInFlight scfg c' q) {ack : Bytes}
    (hout : c'.outbox = [(ack, scfg.clientAddress)]) (hack : Carries ack 1 true false []) (price : Nat) :
    Weighs (Carries · 0 true false []) (Carries · 1 true false []) price price q (q.length * price) := by
  obtain ⟨old, hold, rfl⟩ := h
  refine ⟨old, _, rfl, hold, ?_, by rw [List.length_append, Nat.add_mul]⟩
  rw [hout, Outbox.to_cons_self]
  rintro _ (_ | ⟨_, ⟨⟩⟩)
  exact hack

end Rdt.Saw
