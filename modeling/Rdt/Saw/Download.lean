import Rdt.Saw.Ending

/-!
# The rounds of a download

The client asks, the connection answers: the operation by an ACK, the name by the first chunk,
the ACK of a chunk by the next one, and that of the last one by the ACK that closes the
connection.
-/

namespace Rdt.Saw.Download

open BigEndian

/-- What the client asks for in a round.  Chunks count from zero; the one after the last is the
closing ACK. -/
inductive Round where
  | start
  | operation
  | chunk (i : Nat)
deriving DecidableEq, Repr

namespace Round

def next : Round → Round
  | start => operation
  | operation => chunk 0
  | chunk i => chunk (i + 1)

/-- The number of the answer. -/
def number : Round → Nat
  | start => 0
  | operation => 1
  | chunk i => i % 2

/-- The number of the request: a chunk is asked for by the ACK of the one before. -/
def asked : Round → Nat
  | start | chunk 0 => 0
  | operation => 1
  | chunk (i + 1) => i % 2

theorem number_next_ne (r : Round) : r.next.number ≠ r.number := by
  cases r with
  | chunk i =>
      simp only [next, number]
      omega
  | _ => decide

/-- How many chunks the client has written when it asks. -/
def written : Round → Nat
  | chunk i => i
  | _ => 0

end Round

section

variable (name : String) (content : Bytes)

/-- The last chunk is confirmed by an ACK and by a FIN. -/
def request : Round → Bytes → Prop
  | .start, _ => False
  | .operation, m => Carries m 1 true false (toBytes 2 downloadOperation)
  | .chunk 0, m => Carries m 0 false false (encodeUtf8 name)
  | .chunk (i + 1), m =>
      if i + 1 < total content then Carries m (i % 2) true false []
      else i + 1 = total content ∧
        (Carries m (i % 2) true false [] ∨ Carries m (i % 2) false true [])

/-- The first chunk is an ACK as well. -/
def answer (r : Round) (m : Bytes) : Prop :=
  match r with
  | .start | .operation => Carries m r.number true false []
  | .chunk i =>
      if i < total content then
        Carries m (i % 2) (i = 0) (i + 1 = total content) ((chunks content).getD i [])
      else i = total content ∧ Carries m (i % 2) true false []

/-- A name is refused by a FIN, and by another one that begins the closing. -/
def refusal (r : Round) (m : Bytes) : Prop :=
  r = .chunk 0 ∧ (Carries m 0 false true [] ∨ Carries m 1 false true [])

end

section

variable {name : String} {content : Bytes} {i : Nat} {m : Bytes}

/-- A round asks for a chunk, for the closing ACK, or comes after that. -/
theorem round_cases (content : Bytes) (i : Nat) :
    i < total content ∨ i = total content ∨ total content < i := Nat.lt_trichotomy i _

theorem request_of_lt (h : i + 1 < total content) :
    request name content (.chunk (i + 1)) m ↔ Carries m (i % 2) true false [] :=
  iff_of_eq (if_pos h)

theorem request_of_last (h : i + 1 = total content) : request name content (.chunk (i + 1)) m ↔
    Carries m (i % 2) true false [] ∨ Carries m (i % 2) false true [] :=
  (iff_of_eq (if_neg (by omega))).trans (and_iff_right h)

theorem not_request_of_lt (h : total content < i + 1) : ¬request name content (.chunk (i + 1)) m :=
  fun hm ↦ by
    have hlast := ((iff_of_eq (if_neg (by omega))).mp hm).1
    omega

theorem answer_of_lt (h : i < total content) : answer content (.chunk i) m ↔
    Carries m (i % 2) (i = 0) (i + 1 = total content) ((chunks content).getD i []) :=
  iff_of_eq (if_pos h)

theorem answer_of_last (h : i = total content) :
    answer content (.chunk i) m ↔ Carries m (i % 2) true false [] :=
  (iff_of_eq (if_neg (by omega))).trans (and_iff_right h)

theorem not_answer_of_lt (h : total content < i) : ¬answer content (.chunk i) m := fun hm ↦ by
  have hlast := ((iff_of_eq (if_neg (by omega))).mp hm).1
  omega

end

/-! ## What a copy may lead to -/

section Prices

variable (content : Bytes)

/-- The chunk packets and chunk ACKs that a copy of a request may still lead to. -/
def requestPrice : Round → Nat
  | .chunk i => 2 * (total content - i)
  | _ => 2 * total content

def answerPrice : Round → Nat
  | .chunk i => 2 * (total content - i) - 1
  | _ => 2 * total content

/-- The same with the copy itself, where it is a chunk ACK. -/
def requestCost : Round → Nat
  | .chunk (i + 1) => 2 * (total content - i) - 1
  | _ => 2 * total content

@[simp] theorem requestPrice_chunk (i : Nat) :
    requestPrice content (.chunk i) = 2 * (total content - i) := rfl

@[simp] theorem answerPrice_chunk (i : Nat) :
    answerPrice content (.chunk i) = 2 * (total content - i) - 1 := rfl

@[simp] theorem requestCost_chunk (i : Nat) :
    requestCost content (.chunk (i + 1)) = 2 * (total content - i) - 1 := rfl

@[simp] theorem requestCost_next (r : Round) : requestCost content r.next = answerPrice content r := by
  cases r <;> rfl

end Prices

/-! ## The client -/

section Client

variable (peer : Address) (name : String) (content : Bytes)

/-- Where the client waits for the answer of a round. -/
def clientPoint : Round → Client.Point
  | .start => .handshake
  | .operation => .sendOperationIntention peer
  | .chunk 0 => .informNameToDownload
  | .chunk (i + 1) =>
      if i + 1 < total content then .receiveFileSaw
      else if i + 1 = total content then .handleConnectionFinalization .performDownload
      else .ended

section

variable {content} {i : Nat}

theorem clientPoint_of_lt (h : i + 1 < total content) :
    clientPoint peer content (.chunk (i + 1)) = .receiveFileSaw := if_pos h

theorem clientPoint_of_last (h : i + 1 = total content) :
    clientPoint peer content (.chunk (i + 1)) = .handleConnectionFinalization .performDownload :=
  (if_neg (by omega)).trans (if_pos h)

theorem clientPoint_of_gt (h : total content < i + 1) :
    clientPoint peer content (.chunk (i + 1)) = .ended :=
  (if_neg (by omega)).trans (if_neg (by omega))

end

/-- The client waits for the answer of a round. -/
structure Asks (r : Round) (c : Client) : Prop where
  started : r ≠ .start
  point : c.point = clientPoint peer content r
  number : c.point ≠ .ended → c.sequenceNumber = ⟨r.number, .stopAndWait⟩
  ack : c.ackNumber = none
  pieces : c.file.pieces = (chunks content).take r.written
  server : r ≠ .operation → c.serverAddress = peer
  repeats : c.point ≠ .ended → ∀ o ∈ c.socket.retransmission.to peer, request name content r o
  reports : c.reports ≠ [] → total content ≤ r.written

/-- The client was told that there is no such file, and closes the connection. -/
structure Quits (r : Round) (c : Client) : Prop where
  round : r = .chunk 0
  leaving : c.Leaving
  number : c.point = .handleConnectionFinalization .exceptClause →
    c.sequenceNumber = ⟨0, .stopAndWait⟩ ∧ c.ackNumber = none
  pieces : c.file.pieces = []
  reports : c.reports = []

/-- The client could not send the name. -/
structure Fails (r : Round) (c : Client) : Prop where
  round : r = .operation
  point : c.point = .ended
  pieces : c.file.pieces = []
  reports : c.reports = []

end Client

/-! ## The connection -/

section Server

variable (scfg : Server.Config) (name : String) (content : Bytes) (disk : Disk)

/-- Where the connection waits once it has answered a round. -/
def serverPoint : Round → Server.Point
  | .start => .ended
  | .operation => .receiveFilenameForDownload
  | .chunk i =>
      if i + 1 < total content then
        .waitForChunkAck ((chunks content).drop (i + 1)) (i + 2) (total content)
      else if i + 1 = total content then .closingHandshakeForDownload
      else .ended

section

variable {content} {i : Nat}

theorem serverPoint_of_lt (h : i + 1 < total content) : serverPoint content (.chunk i) =
    .waitForChunkAck ((chunks content).drop (i + 1)) (i + 2) (total content) := if_pos h

theorem serverPoint_of_last (h : i + 1 = total content) :
    serverPoint content (.chunk i) = .closingHandshakeForDownload :=
  (if_neg (by omega)).trans (if_pos h)

theorem serverPoint_of_le (h : total content ≤ i) : serverPoint content (.chunk i) = .ended :=
  (if_neg (by omega)).trans (if_neg (by omega))

end

/-- The file the connection reads is the one of that name. -/
def Reads (c : Server.ClientConnection) : Prop :=
  ∀ f ∈ c.file, scfg.fileHandler.OpenAt (scfg.fileHandler.getFilepath name false) f ∧
    f.content = content

/-- The connection has answered a round. -/
structure Answers (r : Round) (c : Server.ClientConnection) : Prop where
  started : r ≠ .start
  point : c.point = serverPoint content r
  number : c.point ≠ .ended → c.sequenceNumber = ⟨r.next.asked, .stopAndWait⟩
  repeats : c.point ≠ .ended → ∀ o ∈ c.socket.retransmission.to scfg.clientAddress, answer content r o
  disk : r = .operation → c.disk = disk
  reads : Reads scfg name content c
  reports : c.reports ≠ [] → ∃ i, r = .chunk i ∧ total content ≤ i

/-- The connection has no such file, and closes. -/
structure Refuses (r : Round) (c : Server.ClientConnection) : Prop where
  round : r = .chunk 0
  point : c.point = .initiateCloseConnection
  number : c.sequenceNumber = ⟨1, .stopAndWait⟩
  repeats : ∀ raw ∈ c.socket.lastRawPacket, refusal r raw
  reads : Reads scfg name content c
  reports : c.reports = []

/-- The connection could make nothing of the name. -/
structure Dies (r : Round) (c : Server.ClientConnection) : Prop where
  round : r = .chunk 0
  point : c.point = .ended
  reads : Reads scfg name content c
  reports : c.reports = []

/-- The connection has no such file, and maybe got an answer to that and confirmed it: with the ACK
that then is the last packet it sent. -/
structure Closes (r : Round) (c : Server.ClientConnection) : Prop where
  point : c.point = .initiateCloseConnection ∧ c.sequenceNumber = ⟨1, .stopAndWait⟩ ∨
    c.point = .ended
  last : ∀ raw ∈ c.socket.lastRawPacket,
    refusal r raw ∨ c.point = .ended ∧ Carries raw 0 true false []
  reads : Reads scfg name content c
  reports : c.reports = []

end Server

end Rdt.Saw.Download
