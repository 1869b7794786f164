import Rdt.Saw.Ending

/-!
# The rounds of an upload

The client asks, the connection answers: the operation, the name, the size, the chunks one
by one, and the ACK that closes the connection.
-/

namespace Rdt.Saw.Upload

open BigEndian

/-- What the client sends in a round.  Chunks count from zero; the one after the last is the
closing ACK.  The operation goes to the welcoming socket, whose answer to the SYN is `start`. -/
inductive Round where
  | start
  | operation
  | filename
  | filesize
  | chunk (i : Nat)
deriving DecidableEq, Repr

namespace Round

def next : Round → Round
  | start => operation
  | operation => filename
  | filename => filesize
  | filesize => chunk 0
  | chunk i => chunk (i + 1)

/-- The alternating bit. -/
def number : Round → Nat
  | start | filename => 0
  | operation | filesize => 1
  | chunk i => i % 2

theorem number_lt (r : Round) : r.number < 2 := by
  cases r with
  | chunk i => exact Nat.mod_lt i (by decide)
  | _ => decide

@[simp] theorem stepSaw_number (r : Round) :
    SequenceNumber.stepSaw r.number = r.next.number := by
  cases r with
  | chunk i => exact SequenceNumber.stepSaw_mod i
  | _ => rfl

theorem number_next_ne (r : Round) : r.next.number ≠ r.number := by
  cases r with
  | chunk i =>
      simp only [next, number]
      omega
  | _ => decide

/-- How many chunks the connection has written once it answered the round. -/
def written : Round → Nat
  | chunk i => i + 1
  | _ => 0

theorem eq_of_next_eq_chunk {r : Round} {i : Nat} (h : r.next = .chunk i) :
    r = .filesize ∧ i = 0 ∨ ∃ j, r = .chunk j ∧ i = j + 1 := by
  cases r with
  | chunk j => exact .inr ⟨j, rfl, (Round.chunk.inj h).symm⟩
  | filesize => exact .inl ⟨rfl, (Round.chunk.inj h).symm⟩
  | start | operation | filename => cases h

end Round

section

variable (name : String) (content : Bytes)

def request : Round → Bytes → Prop
  | .start, _ => False
  | .operation, m => Carries m 1 true false (toBytes 2 uploadOperation)
  | .filename, m => Carries m 0 false false (encodeUtf8 name)
  | .filesize, m => content.length < 2 ^ 32 ∧ Carries m 1 false false (toBytes 4 content.length)
  | .chunk i, m =>
      if i < total content then
        Carries m (i % 2) false (i + 1 = total content) ((chunks content).getD i [])
      else Carries m (i % 2) true false []

/-- The last chunk is answered by an ACK and by a FIN, the closing ACK by nothing. -/
def answer (r : Round) (m : Bytes) : Prop :=
  match r with
  | .start | .operation | .filename | .filesize => Carries m r.number true false []
  | .chunk i =>
      if i + 1 < total content then Carries m (i % 2) true false []
      else i + 1 = total content ∧
        (Carries m (i % 2) true false [] ∨ Carries m (i % 2) false true [])

/-- A name or a size is refused by a FIN with the number after it. -/
def refusal (r : Round) (m : Bytes) : Prop :=
  (r = .filename ∨ r = .filesize) ∧ Carries m r.next.number false true []

end

section

variable {name : String} {content : Bytes} {i : Nat} {m : Bytes}

/-- A chunk is followed by another one, the last one, or already the closing ACK. -/
theorem chunk_cases (content : Bytes) (i : Nat) :
    i + 1 < total content ∨ i + 1 = total content ∨ total content ≤ i := by omega

theorem request_of_lt (h : i < total content) : request name content (.chunk i) m ↔
    Carries m (i % 2) false (i + 1 = total content) ((chunks content).getD i []) :=
  iff_of_eq (if_pos h)

theorem request_of_le (h : total content ≤ i) :
    request name content (.chunk i) m ↔ Carries m (i % 2) true false [] :=
  iff_of_eq (if_neg (by omega))

theorem answer_of_lt (h : i + 1 < total content) :
    answer content (.chunk i) m ↔ Carries m (i % 2) true false [] := iff_of_eq (if_pos h)

theorem answer_of_last (h : i + 1 = total content) : answer content (.chunk i) m ↔
    Carries m (i % 2) true false [] ∨ Carries m (i % 2) false true [] :=
  (iff_of_eq (if_neg (by omega))).trans (and_iff_right h)

theorem not_answer_of_le (h : total content ≤ i) : ¬answer content (.chunk i) m := fun hm ↦ by
  have hlast := ((iff_of_eq (if_neg (by omega))).mp hm).1
  omega

end

/-! ## What a copy may lead to -/

section Prices

variable (content : Bytes)

/-- The chunk packets and chunk ACKs that a copy of a request may still lead to. -/
def requestPrice : Round → Nat
  | .chunk i => 2 * (total content - i) - 1
  | _ => 2 * total content

def answerPrice : Round → Nat
  | .chunk i => 2 * (total content - (i + 1))
  | _ => 2 * total content

/-- The same with the copy itself, where it is a chunk packet. -/
def requestCost : Round → Nat
  | .chunk i => 2 * (total content - i)
  | _ => 2 * total content

@[simp] theorem requestPrice_chunk (i : Nat) :
    requestPrice content (.chunk i) = 2 * (total content - i) - 1 := rfl

@[simp] theorem answerPrice_chunk (i : Nat) :
    answerPrice content (.chunk i) = 2 * (total content - (i + 1)) := rfl

@[simp] theorem requestCost_chunk (i : Nat) :
    requestCost content (.chunk i) = 2 * (total content - i) := rfl

@[simp] theorem requestCost_next (r : Round) : requestCost content r.next = answerPrice content r := by
  cases r <;> rfl

end Prices

/-! ## The client -/

section Client

variable (peer : Address) (name : String) (content : Bytes)

/-- Where the client waits for the answer of a round. -/
def clientPoint : Round → Client.Point
  | .start => .handshake
  | .operation => .sendOperationIntention peer
  | .filename => .informFilename
  | .filesize => .informFilesize
  | .chunk i =>
      if i + 1 < total content then
        .sendFileSaw ((chunks content).drop (i + 1)) (i + 2) (total content)
      else if i + 1 = total content then .initiateCloseConnection
      else .ended

section

variable {content} {i : Nat}

theorem clientPoint_of_lt (h : i + 1 < total content) : clientPoint peer content (.chunk i) =
    .sendFileSaw ((chunks content).drop (i + 1)) (i + 2) (total content) := if_pos h

theorem clientPoint_of_last (h : i + 1 = total content) :
    clientPoint peer content (.chunk i) = .initiateCloseConnection :=
  (if_neg (by omega)).trans (if_pos h)

theorem clientPoint_of_le (h : total content ≤ i) :
    clientPoint peer content (.chunk i) = .ended :=
  (if_neg (by omega)).trans (if_neg (by omega))

end

/-- The client waits for the answer of a round. -/
structure Asks (r : Round) (c : Client) : Prop where
  started : r ≠ .start
  point : c.point = clientPoint peer content r
  number : c.sequenceNumber = ⟨r.number, .stopAndWait⟩
  ack : c.ackNumber = none
  source : c.file.content = content
  server : r ≠ .operation → c.serverAddress = peer
  repeats : ∀ o ∈ c.socket.retransmission.to peer, request name content r o
  reports : c.reports ≠ [] → ∃ i, r = .chunk i ∧ total content ≤ i

/-- The client was refused, and closes the connection: its last packets have the number after
the refused one, and it waits for the number after that. -/
structure Quits (r : Round) (c : Client) : Prop where
  leaving : c.Leaving
  number : c.point = .handleConnectionFinalization .exceptClause →
    c.sequenceNumber = ⟨r.next.next.number, .stopAndWait⟩ ∧ c.ackNumber = none
  reports : c.reports = []

/-- The client could not send the name, or the size. -/
structure Fails (r : Round) (c : Client) : Prop where
  round : r = .operation ∨ r = .filename
  point : c.point = .ended
  reports : c.reports = []

end Client

/-! ## The connection -/

section Server

variable (scfg : Server.Config) (name : String) (content : Bytes)

/-- Where the connection waits once it has answered a round. -/
def serverPoint : Round → Server.Point
  | .start => .ended
  | .operation => .receiveFilenameForUpload
  | .filename => .receiveFilesize name
  | .filesize => .receiveFileChunk
  | .chunk i =>
      if i + 1 < total content then .receiveFileChunk
      else if i + 1 = total content then .closingHandshakeForUpload
      else .ended

section

variable {content} {i : Nat}

theorem serverPoint_of_lt (h : i + 1 < total content) :
    serverPoint name content (.chunk i) = .receiveFileChunk := if_pos h

theorem serverPoint_of_last (h : i + 1 = total content) :
    serverPoint name content (.chunk i) = .closingHandshakeForUpload :=
  (if_neg (by omega)).trans (if_pos h)

theorem serverPoint_of_le (h : total content ≤ i) :
    serverPoint name content (.chunk i) = .ended :=
  (if_neg (by omega)).trans (if_neg (by omega))

end

/-- What the connection knows of the file is what the client sent, and it has written the
first `k` chunks. -/
structure Stores (k : Nat) (c : Server.ClientConnection) : Prop where
  file : ∀ f ∈ c.file, scfg.fileHandler.OpenAt (scfg.fileHandler.getFilepath name false) f ∧
    f.pieces = (chunks content).take k
  opened : k ≠ 0 → c.file ≠ none
  named : ∀ n ∈ c.filenameForUpload, n = name
  sized : ∀ n ∈ c.filesizeForUpload, n = content.length

/-- The connection has answered a round. -/
structure Answers (r : Round) (c : Server.ClientConnection) : Prop
    extends Stores scfg name content r.written c where
  started : r ≠ .start
  point : c.point = serverPoint name content r
  number : c.point ≠ .ended → c.sequenceNumber = ⟨r.next.number, .stopAndWait⟩
  repeats : c.point ≠ .ended → ∀ o ∈ c.socket.retransmission.to scfg.clientAddress, answer content r o
  fresh : r = .operation → c.file = none
  creates : r ≠ .operation → c.file ≠ none
  reports : c.reports ≠ [] → total content ≤ r.written

/-- The connection has refused a round, and closes. -/
structure Refuses (r : Round) (c : Server.ClientConnection) : Prop
    extends Stores scfg name content 0 c where
  round : r = .filename ∨ r = .filesize
  point : c.point = .initiateCloseConnection
  number : c.sequenceNumber = ⟨r.next.number, .stopAndWait⟩
  repeats : ∀ raw ∈ c.socket.lastRawPacket, refusal r raw
  reports : c.reports = []

/-- The connection could make nothing of the name. -/
structure Dies (r : Round) (c : Server.ClientConnection) : Prop
    extends Stores scfg name content 0 c where
  round : r = .filename
  point : c.point = .ended
  reports : c.reports = []

/-- The connection has refused a round, and maybe got an answer to that and confirmed it: with the
ACK that then is the last packet it sent. -/
structure Closes (r : Round) (c : Server.ClientConnection) : Prop
    extends Stores scfg name content 0 c where
  point : c.point = .initiateCloseConnection ∧
    c.sequenceNumber = ⟨r.next.number, .stopAndWait⟩ ∨ c.point = .ended
  last : ∀ raw ∈ c.socket.lastRawPacket,
    refusal r raw ∨ c.point = .ended ∧ Carries raw r.next.next.number true false []
  reports : c.reports = []

end Server

end Rdt.Saw.Upload
