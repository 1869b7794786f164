import Rdt.Link
import Rdt.Server.Threads

/-!
# A conversation, from the SYN on

A client and a server, with what is in flight between the socket of the client, the welcoming socket
and the one that the handshake opens.  Nobody else is served meanwhile; what the server has been
through before is up to it.
-/

namespace Rdt

open Server AccepterProtocol Duplex

/-- Who speaks to whom.  The datagrams of the client come from `clientAddress`, and the system will give
the socket of its connection the address `bound`. -/
structure Parties where
  ccfg : Client.Config
  scfg : AccepterConfig
  clientAddress : Peer
  bound : Peer

/-- Both ends speak one protocol, and the two sockets of the server are on one host. -/
structure Parties.Matched (P : Parties) : Prop where
  protocol : P.ccfg.protocolVersion = P.scfg.protocolVersion
  host : P.ccfg.serverAddress.host = P.bound.host
  apart : P.ccfg.serverAddress ≠ P.bound

/-- Both ends, and what is in flight; the client is told where a datagram comes from. -/
structure Conversation where
  client : Client
  server : Accepter
  toWelcoming : List Bytes
  toConnection : List Bytes
  toClient : List (Bytes × Address)

/-- The accepter gives up its wait for the end of the handshake. -/
def Server.Accepter.gaveUp (a : Accepter) (ev : Event) : Bool :=
  match a.point with
  | .acceptConnection => false
  | .handshake _ _ ack r =>
      (reListenIfFailed (expectHandshakeCompletion ack) a.welcomingSocket r ev).gaveUp

namespace Conversation

variable (P : Parties)

/-- The connection that the handshake opens -/
def connectionOf (a : Accepter) : Option Connection :=
  (a.clients.find? fun e ↦ e.1 == P.bound.toCombined).map Prod.snd

/-- What its last step has handed over for the client -/
def replies (a : Accepter) : List (Bytes × Address) :=
  match connectionOf P a with
  | some c => (c.thread.outbox.to P.clientAddress).map (·, P.bound)
  | none => []

/-! ## Turns -/

/-- The receive that the client is blocked in gets an event. -/
def clientTurn (s : Conversation) (ev : Event) (rest : List (Bytes × Address)) : Conversation :=
  let client := s.client.step P.ccfg ev
  { s with
    client
    toWelcoming := s.toWelcoming ++ client.outbox.to P.ccfg.serverAddress
    toConnection := s.toConnection ++ client.outbox.to P.bound
    toClient := rest }

/-- The welcoming socket gets one.  A connection that this opens runs up to its first receive. -/
def welcomingTurn (s : Conversation) (ev : Event) (rest : List Bytes) : Conversation :=
  let server := s.server.step P.scfg (.welcoming ev P.bound)
  { s with
    server
    toWelcoming := rest
    toClient := s.toClient ++
      ((server.outbox.to P.clientAddress).map (·, P.ccfg.serverAddress) ++
        if (connectionOf P s.server).isNone then replies P server else []) }

/-- The connection gets one. -/
def connectionTurn (s : Conversation) (ev : Event) (rest : List Bytes) : Conversation :=
  let server := s.server.step P.scfg (.connection P.bound.toCombined ev)
  { s with
    server
    toConnection := rest
    toClient := s.toClient ++ replies P server }

/-- The first datagram in flight arrives as an event, or time passes. -/
inductive Comes {α : Type} (event : α → Time → Event) (q : List α) : Event → List α → Prop
  | takes {m : α} {rest : List α} (now : Time) (h : q = m :: rest) : Comes event q (event m now) rest
  | passes {ev : Event} (h : ev.Quiet) : Comes event q ev q

/-- A datagram of the client, at a socket of the server -/
def atServer (raw : Bytes) (now : Time) : Event := .datagram raw (some P.clientAddress) now

/-- One of the server's, at the client -/
def atClient (m : Bytes × Address) (now : Time) : Event := .datagram m.1 (some m.2) now

inductive Turn where
  | client (ev : Event)
  | welcoming (ev : Event)
  | connection (ev : Event)
  | lose

/-- One turn of an end that is not at the end of its patience, or a loss -/
inductive Step (s : Conversation) : Turn → Conversation → Prop
  | client {ev : Event} {rest : List (Bytes × Address)} (hev : Comes atClient s.toClient ev rest)
      (hok : (s.client.listened P.ccfg ev).gaveUp = false) :
      Step s (.client ev) (s.clientTurn P ev rest)
  | welcoming {ev : Event} {rest : List Bytes} (hev : Comes (atServer P) s.toWelcoming ev rest)
      (hok : s.server.gaveUp ev = false) : Step s (.welcoming ev) (s.welcomingTurn P ev rest)
  | connection {ev : Event} {rest : List Bytes} (hev : Comes (atServer P) s.toConnection ev rest)
      (hok : ∀ c ∈ connectionOf P s.server, (c.thread.listened c.cfg ev).gaveUp = false) :
      Step s (.connection ev) (s.connectionTurn P ev rest)
  | lose {p q : List Bytes} {r : List (Bytes × Address)} (hp : p.Sublist s.toWelcoming)
      (hq : q.Sublist s.toConnection) (hr : r.Sublist s.toClient) :
      Step s .lose { s with toWelcoming := p, toConnection := q, toClient := r }

def system : Lts Conversation Turn := ⟨Step P⟩

/-- The link between the client and its connection -/
def link (s : Conversation) (c : Connection) : World Client ClientConnection Bytes Bytes :=
  ⟨s.client, c.thread, s.toConnection, s.toClient.map Prod.fst⟩

/-- The client has just started, with `file` open, and its SYN is in flight.  The server waits for
one; neither the client's address nor the one of the socket to come is among its connections'. -/
structure Begins (file : File) (s : Conversation) : Prop where
  matched : P.Matched
  client : ∃ disk disk' now, Client.openFile P.ccfg disk = .ok (file, disk') ∧
    Client.start P.ccfg disk now = .ok s.client
  server : ∃ disk es, s.server = Accepter.run P.scfg disk es
  running : s.server.Running
  point : s.server.point = .acceptConnection
  stranger : s.server.clients.isClientConnected P.clientAddress = false
  fresh : s.server.clients.isClientConnected P.bound = false
  toWelcoming : s.toWelcoming = s.client.outbox.to P.ccfg.serverAddress
  toConnection : s.toConnection = []
  toClient : s.toClient = []

/-! ## Schedules -/

/-- Whose next datagram is taken, or that the client goes on sending its window -/
inductive Reader where
  | client
  | clientSends
  | welcoming
  | connection
deriving DecidableEq, Repr

/-- The first datagram in flight is taken, or none.  The clock stands still. -/
def takes (s : Conversation) : Reader → Option Conversation
  | .client => s.toClient.head?.bind fun m ↦
      if (s.client.listened P.ccfg (atClient m 0)).gaveUp then none
      else some (s.clientTurn P (atClient m 0) s.toClient.tail)
  | .clientSends =>
      if (s.client.listened P.ccfg (.proceed 0)).gaveUp then none
      else some (s.clientTurn P (.proceed 0) s.toClient)
  | .welcoming => s.toWelcoming.head?.bind fun raw ↦
      if s.server.gaveUp (atServer P raw 0) then none
      else some (s.welcomingTurn P (atServer P raw 0) s.toWelcoming.tail)
  | .connection => s.toConnection.head?.bind fun raw ↦
      if (connectionOf P s.server).any fun c ↦ (c.thread.listened c.cfg (atServer P raw 0)).gaveUp
      then none else some (s.connectionTurn P (atServer P raw 0) s.toConnection.tail)

variable {P} {s s' : Conversation}

theorem comes_of_head? {α : Type} {event : α → Time → Event} {q : List α} {m : α}
    (h : q.head? = some m) : Comes event q (event m 0) q.tail :=
  .takes 0 (List.eq_cons_of_mem_head? h)

theorem takes_sound {r : Reader} (h : takes P s r = some s') : ∃ t, t ≠ .lose ∧ (system P).step s t s' := by
  cases r with
  | client =>
      obtain ⟨m, hm, h⟩ := Option.bind_eq_some_iff.mp h
      obtain ⟨hok, ⟨⟩⟩ := Option.ite_none_left_eq_some.mp h
      exact ⟨_, fun ht ↦ (by cases ht), .client (comes_of_head? hm) (Bool.eq_false_iff.mpr hok)⟩
  | clientSends =>
      obtain ⟨hok, ⟨⟩⟩ := Option.ite_none_left_eq_some.mp h
      exact ⟨_, fun ht ↦ (by cases ht), .client (.passes ⟨0, .inr rfl⟩) (Bool.eq_false_iff.mpr hok)⟩
  | welcoming =>
      obtain ⟨raw, hraw, h⟩ := Option.bind_eq_some_iff.mp h
      obtain ⟨hok, ⟨⟩⟩ := Option.ite_none_left_eq_some.mp h
      exact ⟨_, fun ht ↦ (by cases ht), .welcoming (comes_of_head? hraw) (Bool.eq_false_iff.mpr hok)⟩
  | connection =>
      obtain ⟨raw, hraw, h⟩ := Option.bind_eq_some_iff.mp h
      obtain ⟨hok, ⟨⟩⟩ := Option.ite_none_left_eq_some.mp h
      refine ⟨_, fun ht ↦ (by cases ht), .connection (comes_of_head? hraw) fun c hc ↦ ?_⟩
      exact Bool.eq_false_iff.mpr fun hgave ↦ hok ((Option.any_eq_true _ _).mpr ⟨c, hc, hgave⟩)

/-- What a schedule can be played through to is reached without a loss. -/
theorem run_of_takes {rs : List Reader} (h : rs.foldlM (takes P) s = some s') :
    (system P).Run (fun _ t ↦ t ≠ .lose) s s' := by
  induction rs generalizing s with
  | nil =>
      obtain rfl := Option.some.inj h
      exact Lts.Run.refl _
  | cons r rs ih =>
      obtain ⟨v, hv, h⟩ := Option.bind_eq_some_iff.mp h
      obtain ⟨t, ht, hs⟩ := takes_sound hv
      have hstep : (system P).Run (fun _ t ↦ t ≠ .lose) s v := Lts.Run.single ht hs
      exact hstep.trans (ih h)

end Conversation

end Rdt
