import Rdt.Conversation.Handshake
import Rdt.Lib.Flow
import Rdt.Saw.Start

/-!
# From the SYN to the link

How far the handshake has got, and what is in flight then.  Once it is complete the client and its
connection are the ends of a link, which starts with the operation sent and confirmed.
-/

namespace Rdt.Conversation

open Rdt.Configuration Duplex PacketParser Server Session

variable {P : Parties} {file : File} {disk : Disk} {lossy : Prop} {syn synAck op : Bytes}
  {s s' : Conversation} {a : Accepter} {c : Connection} {ev : Event}

/-! ## The stages -/

/-- The packets of the handshake -/
structure Packets (P : Parties) (syn synAck op : Bytes) : Prop where
  syn : Packed P.ccfg 0 false true [] syn
  synAck : SynAck P synAck
  op : Asks P op

/-- The server runs, and has no connection of the client yet. -/
structure Unopened (P : Parties) (disk : Disk) (a : Accepter) : Prop where
  running : a.Running
  keyed : a.clients.Keyed
  fresh : connectionOf P a = none
  disk : a.disk = disk

/-- The accepter waits for a SYN. -/
structure Idle (P : Parties) (disk : Disk) (a : Accepter) : Prop extends Unopened P disk a where
  point : a.point = .acceptConnection
  stranger : a.clients.isClientConnected P.clientAddress = false

/-- The accepter has answered, and waits for the operation. -/
structure Shakes (P : Parties) (disk : Disk) (synAck : Bytes) (a : Accepter) : Prop
    extends Unopened P disk a where
  point : ∃ r, a.point = .handshake P.clientAddress P.bound (ackAt P.scfg.protocolVersion 1) r
  socket : a.welcomingSocket = ⟨some synAck, some P.clientAddress⟩

/-- The client has sent its operation, and the thread of its connection starts. -/
structure LinkStarts (P : Parties) (file : File) (disk : Disk) (cfg : Server.Config)
    (w : World Client ClientConnection Bytes Bytes) : Prop where
  created : ∃ packet now,
    cfg = (Accepter.createConnection P.scfg P.bound P.clientAddress packet disk now).cfg
  configuration : Configuration.Starts P.ccfg cfg disk file w
  client : w.left.file = file ∧ w.left.reports = []
  saw : P.ccfg.protocolVersion = .stopAndWait →
    ∃ c₀, c₀.file = file ∧ Saw.Starts P.ccfg cfg disk c₀ w

/-- A run of the link between the client and its connection, without a loss unless `lossy` -/
def LinkRun (P : Parties) (lossy : Prop) (cfg : Server.Config)
    (w w' : World Client ClientConnection Bytes Bytes) : Prop :=
  (Duplex.system .fifo (Client.patientNode P.ccfg cfg.address)
    (ClientConnection.patientNode cfg)).Run (fun _ ℓ ↦ ℓ = .lose → lossy) w w'

/-- The connection `c` is open.  What is still sent to the welcoming socket is turned down there. -/
structure Linked (P : Parties) (file : File) (disk : Disk) (lossy : Prop) (c : Connection)
    (s : Conversation) : Prop where
  running : s.server.Running
  point : s.server.point = .acceptConnection
  connection : connectionOf P s.server = some c
  storage : s.server.disk = c.thread.disk
  address : c.cfg.address = P.bound
  clientAddress : c.cfg.clientAddress = P.clientAddress
  client : s.client.Emits Plain
  toWelcoming : ∀ raw ∈ s.toWelcoming, Plain raw
  sources : ∀ m ∈ s.toClient, m.2 = P.bound ∨ m.2 = P.ccfg.serverAddress
  run : ∃ w, LinkStarts P file disk c.cfg w ∧ LinkRun P lossy c.cfg w (s.link c)

/-- How far the two ends have got.  What is due to bring them on is in flight, unless it may be
lost.  A client that cannot send its SYN is over at once. -/
inductive Opening (P : Parties) (file : File) (disk : Disk) (lossy : Prop) (syn synAck op : Bytes)
    (s : Conversation) : Prop
  | unsent (hport : P.ccfg.serverAddress.port = 0) (hc : s.client.point = .ended)
      (hs : Idle P disk s.server) (hw : s.toWelcoming = []) (hr : s.toConnection = [])
      (hl : s.toClient = [])
  | greeting (hc : Greets P file syn s.client) (hs : Idle P disk s.server)
      (hw : ∀ raw ∈ s.toWelcoming, raw = syn) (hdue : s.toWelcoming ≠ [] ∨ lossy)
      (hr : s.toConnection = []) (hl : s.toClient = [])
  | answered (hc : Greets P file syn s.client) (hs : Shakes P disk synAck s.server)
      (hw : ∀ raw ∈ s.toWelcoming, raw = syn) (hr : s.toConnection = [])
      (hl : ∀ m ∈ s.toClient, m = (synAck, P.ccfg.serverAddress)) (hdue : s.toClient ≠ [] ∨ lossy)
  | requested (hc : Requests P file s.client) (hout : s.client.Emits Plain)
      (hs : Shakes P disk synAck s.server) (hw : Due lossy (· = syn) (· = op) s.toWelcoming)
      (hr : s.toConnection = []) (hl : ∀ m ∈ s.toClient, m = (synAck, P.ccfg.serverAddress))
  | linked (c : Connection) (h : Linked P file disk lossy c s)

/-! ## The pool -/

theorem connectionOf_of_clients {a a' : Accepter} (h : a'.clients = a.clients) :
    connectionOf P a' = connectionOf P a := by rw [connectionOf, h, connectionOf]

theorem replies_of_none (h : connectionOf P a = none) : replies P a = [] := by rw [replies, h]

theorem replies_of_some (h : connectionOf P a = some c) :
    replies P a = (c.thread.outbox.to P.clientAddress).map (·, P.bound.toAddress) := by
  rw [replies, h]

/-- Without a connection there is nothing to step. -/
theorem step_unopened (h : connectionOf P a = none) :
    a.step P.scfg (.connection P.bound.toCombined ev) = { a with outbox := [] } := by
  have hnone : (a.clients.find? fun e ↦ e.1 == P.bound.toCombined) = none := Option.map_eq_none_iff.mp h
  simp only [Accepter.step, Accepter.onConnection, hnone]

/-- The connection gets an event; it works on the storage of the server. -/
theorem step_opened (ev : Event) (h : connectionOf P a = some c) (hdisk : a.disk = c.thread.disk) :
    ∃ clients, a.step P.scfg (.connection P.bound.toCombined ev) =
        { a with outbox := [], clients, disk := (c.thread.step c.cfg ev).disk } ∧
      connectionOf P (a.step P.scfg (.connection P.bound.toCombined ev)) =
        some ⟨c.cfg, c.thread.step c.cfg ev⟩ := by
  obtain ⟨⟨key, c'⟩, hfind, rfl⟩ := Option.map_eq_some_iff.mp h
  have hkey : key = P.bound.toCombined := by simpa using List.find?_some hfind
  have hthread : { c'.thread with disk := a.disk } = c'.thread := by rw [hdisk]
  simp only [Accepter.step, Accepter.onConnection, hfind, hthread]
  refine ⟨_, rfl, ?_⟩
  have hsame : ∀ e : String × Connection, ((if e.1 = P.bound.toCombined then (P.bound.toCombined,
      { c' with thread := c'.thread.step c'.cfg ev }) else e).1 == P.bound.toCombined) =
        (e.1 == P.bound.toCombined) := by
    intro e
    split
    · rename_i he
      rw [he]
    · rfl
  simp only [connectionOf, List.find?_map, Function.comp_def, hsame, hfind, Option.map_some, hkey, if_true]

/-- A connection that is added is found. -/
theorem connectionOf_add (h : connectionOf P a = none) (c : Connection)
    (f : String × Connection → Bool) {a' : Accepter}
    (hclients : a'.clients = ClientPool.add (a.clients.filter f) P.bound.toCombined c) :
    connectionOf P a' = some c := by
  have hnone : ∀ e ∈ a.clients, ¬(e.1 == P.bound.toCombined) = true :=
    List.find?_eq_none.mp (Option.map_eq_none_iff.mp h)
  have hfresh : ∀ e ∈ a.clients.filter f, ¬(e.1 == P.bound.toCombined) = true :=
    fun e he ↦ hnone e (List.mem_of_mem_filter he)
  have hadd : ClientPool.add (a.clients.filter f) P.bound.toCombined c =
      a.clients.filter f ++ [(P.bound.toCombined, c)] := by
    refine if_neg ?_
    rw [ClientPool.contains, List.any_eq_true]
    rintro ⟨e, he, heq⟩
    exact hfresh e he heq
  rw [connectionOf, hclients, hadd, List.find?_append, List.find?_eq_none.mpr hfresh]
  simp

/-! ## The start -/

theorem exists_packets (P : Parties) : ∃ syn synAck op, Packets P syn synAck op := by
  obtain ⟨syn, hsyn⟩ := exists_packetAt P.ccfg.protocolVersion (Nat.zero_le 2) false true
    P.ccfg.myAddress.port (Protocol.nil_lt_payloadLimit _)
  obtain ⟨synAck, hsynAck⟩ := exists_packetAt P.scfg.protocolVersion (Nat.zero_le 2) true true P.bound.port
    (Protocol.nil_lt_payloadLimit _)
  obtain ⟨op, hop⟩ := exists_packetAt P.ccfg.protocolVersion (Nat.le_succ 1) true false
    P.ccfg.myAddress.port
    (Protocol.toBytes_lt_payloadLimit _ (show 2 ≤ 4 by decide) (Client.operationCode P.ccfg))
  exact ⟨syn, synAck, op, hsyn, hsynAck, hop⟩

theorem Begins.opening (h : Begins P file s) (hp : Packets P syn synAck op) (lossy : Prop) :
    Opening P file s.server.disk lossy syn synAck op s := by
  obtain ⟨disk, disk', now, hopen, hstart⟩ := h.client
  obtain ⟨serverDisk, es, hserver⟩ := h.server
  have hfresh : connectionOf P s.server = none := by
    rw [connectionOf, List.find?_eq_none.mpr]
    · rfl
    · exact List.any_eq_false.mp h.fresh
  have hkeyed : s.server.clients.Keyed := by
    rw [hserver]
    exact Accepter.run_keyed P.scfg serverDisk es
  have hidle : Idle P s.server.disk s.server :=
    ⟨⟨h.running, hkeyed, hfresh, rfl⟩, h.point, h.stranger⟩
  by_cases hport : P.ccfg.serverAddress.port = 0
  · obtain ⟨hended, hout⟩ := start_ended now hport hstart
    refine .unsent hport hended hidle ?_ h.toConnection h.toClient
    rw [h.toWelcoming, hout, Outbox.to_nil]
  · obtain ⟨hgreets, hout⟩ := greets_start hopen hstart hport hp.syn
    have hsent : s.toWelcoming = [syn] := by
      rw [h.toWelcoming, hout]
      exact Outbox.to_cons_self ..
    refine .greeting hgreets hidle ?_ (.inl ?_) h.toConnection h.toClient
    · rw [hsent]
      exact fun raw hr ↦ List.mem_singleton.mp hr
    · rw [hsent]
      exact List.cons_ne_nil syn []

/-! ## The turns of the handshake -/

section Turns

variable {o : Outbox} {A B : Address} {raw : Bytes} {rest : List Bytes} {q : List (Bytes × Address)}

theorem eq_of_mem_to (h : ∀ x ∈ o, x = (raw, A)) : ∀ r ∈ o.to A, r = raw := by
  intro r hr
  obtain ⟨x, hx, hto⟩ := List.mem_filterMap.mp hr
  rw [h x hx] at hto
  exact (Option.some.inj (Option.ite_none_right_eq_some.mp hto).2).symm

theorem to_eq_nil (h : ∀ x ∈ o, x = (raw, A)) (hne : A ≠ B) : o.to B = [] := by
  refine List.eq_nil_iff_forall_not_mem.mpr fun r hr ↦ ?_
  obtain ⟨x, hx, hto⟩ := List.mem_filterMap.mp hr
  rw [h x hx] at hto
  exact hne (Option.ite_none_right_eq_some.mp hto).1

/-- What the accepter says to the client. -/
theorem toClient_welcoming (h : ∀ m ∈ q, m = (synAck, P.ccfg.serverAddress))
    (ho : ∀ x ∈ o, x = (synAck, P.clientAddress.toAddress)) :
    ∀ m ∈ q ++ (o.to P.clientAddress).map (·, P.ccfg.serverAddress),
      m = (synAck, P.ccfg.serverAddress) := by
  intro m hm
  rcases List.mem_append.mp hm with hm | hm
  · exact h m hm
  · obtain ⟨r, hr, rfl⟩ := List.mem_map.mp hm
    rw [eq_of_mem_to ho r hr]

theorem comes_nil {α : Type} {event : α → Time → Event} {rest : List α}
    (h : Comes event [] ev rest) : ev.Quiet ∧ rest = [] := by
  cases h with
  | takes now hq => cases hq
  | passes hev => exact ⟨hev, rfl⟩

/-- What comes to the client of a connection that is not open yet -/
theorem comes_answer (h : Comes atClient s.toClient ev q)
    (hl : ∀ m ∈ s.toClient, m = (synAck, P.ccfg.serverAddress)) :
    (ev.Quiet ∧ q = s.toClient ∨ ∃ now, ev = .datagram synAck (some P.ccfg.serverAddress) now) ∧
      ∀ m ∈ q, m = (synAck, P.ccfg.serverAddress) := by
  cases h with
  | @takes m _ now hq =>
      rw [hq] at hl
      obtain rfl := hl m List.mem_cons_self
      exact ⟨.inr ⟨now, rfl⟩, fun x hx ↦ hl x (List.mem_cons_of_mem _ hx)⟩
  | passes hev => exact ⟨.inl ⟨hev, rfl⟩, hl⟩

/-- The client still says SYN. -/
theorem greeting_client (hP : P.Matched) (hc : Greets P file syn s.client) (hev : ev.Quiet)
    (hok : (s.client.listened P.ccfg ev).gaveUp = false) (hw : ∀ raw ∈ s.toWelcoming, raw = syn)
    (hr : s.toConnection = []) :
    Greets P file syn (s.clientTurn P ev q).client ∧
      (∀ raw ∈ (s.clientTurn P ev q).toWelcoming, raw = syn) ∧
      (s.clientTurn P ev q).toConnection = [] := by
  obtain ⟨hc', hout⟩ := hc.passes hev hok
  refine ⟨hc', forall_append hw (eq_of_mem_to hout), ?_⟩
  show s.toConnection ++ (s.client.step P.ccfg ev).outbox.to P.bound = []
  rw [hr, to_eq_nil hout hP.apart, List.append_nil]

/-- The answer comes, and the client asks for its operation. -/
theorem answered_client (hP : P.Matched) (hp : Packets P syn synAck op)
    (hc : Greets P file syn s.client) (hs : Shakes P disk synAck s.server)
    (hw : ∀ raw ∈ s.toWelcoming, raw = syn) (hr : s.toConnection = [])
    (hl : ∀ m ∈ q, m = (synAck, P.ccfg.serverAddress)) {now : Time} :
    Opening P file disk lossy syn synAck op
      (s.clientTurn P (.datagram synAck (some P.ccfg.serverAddress) now) q) := by
  obtain ⟨hc', hout⟩ := hc.answered hP.protocol hP.host hp.synAck hp.op now
  have hall : ∀ x ∈ (s.client.step P.ccfg (.datagram synAck (some P.ccfg.serverAddress) now)).outbox,
      x = (op, P.ccfg.serverAddress) := by
    rw [hout]
    exact fun x hx ↦ List.mem_singleton.mp hx
  refine .requested hc' (hc'.emits hp.op hall) hs (.of_sent hw (eq_of_mem_to hall) (.inl ?_)) ?_ hl
  · rw [hout, Outbox.to_cons_self]
    exact List.cons_ne_nil op _
  · show s.toConnection ++ Outbox.to _ P.bound = []
    rw [hr, to_eq_nil hall hP.apart, List.append_nil]

theorem requested_client (hP : P.Matched) (hp : Packets P syn synAck op)
    (hc : Requests P file s.client) (hout : s.client.Emits Plain) (hs : Shakes P disk synAck s.server)
    (hw : Due lossy (· = syn) (· = op) s.toWelcoming) (hr : s.toConnection = [])
    (hl : ∀ m ∈ s.toClient, m = (synAck, P.ccfg.serverAddress)) (hev : Comes atClient s.toClient ev q)
    (hok : (s.client.listened P.ccfg ev).gaveUp = false) :
    Opening P file disk lossy syn synAck op (s.clientTurn P ev q) := by
  have hconfirms : Confirms P.ccfg.protocolVersion 0 true synAck := by
    rw [hP.protocol]
    exact confirms_packetAt hp.synAck
  obtain ⟨hcomes, hrest⟩ := comes_answer hev hl
  obtain ⟨hc', hall⟩ := hc.waits hp.op (hcomes.imp And.left fun ⟨now, hev⟩ ↦ ⟨_, _, now, hev, hconfirms⟩)
    hok
  refine .requested hc' (hout.step composes_plain ev) hs (hw.append (eq_of_mem_to hall)) ?_ hrest
  show s.toConnection ++ Outbox.to _ P.bound = []
  rw [hr, to_eq_nil hall hP.apart, List.append_nil]

/-- As long as the connection is not open, only the accepter speaks. -/
theorem toClient_unopened (h : connectionOf P (s.server.step P.scfg (.welcoming ev P.bound)) = none) :
    (s.welcomingTurn P ev rest).toClient = s.toClient ++
      ((s.server.step P.scfg (.welcoming ev P.bound)).outbox.to P.clientAddress).map
        (·, P.ccfg.serverAddress) := by
  simp only [welcomingTurn, replies_of_none h, ite_self, List.append_nil]

/-- An accepter that gets nothing goes on waiting for a SYN. -/
theorem idle_welcoming (rest : List Bytes) (hs : Idle P disk s.server) (hev : ev.Quiet) :
    Idle P disk (s.welcomingTurn P ev rest).server ∧
      (s.welcomingTurn P ev rest).toClient = s.toClient := by
  have hstep : s.server.step P.scfg (.welcoming ev P.bound) = _ :=
    step_quiet hs.running hs.point hev
  refine ⟨?_, ?_⟩
  · simp only [welcomingTurn, hstep]
    exact ⟨⟨hs.running, hs.keyed, hs.fresh, hs.disk⟩, hs.point, hs.stranger⟩
  · rw [toClient_unopened, hstep]
    · exact List.append_nil s.toClient
    · rw [hstep]
      exact hs.fresh

theorem greeting_welcoming (hP : P.Matched) (hp : Packets P syn synAck op)
    (hc : Greets P file syn s.client) (hs : Idle P disk s.server) (hw : ∀ raw ∈ s.toWelcoming, raw = syn)
    (hdue : s.toWelcoming ≠ [] ∨ lossy) (hr : s.toConnection = []) (hl : s.toClient = [])
    (hev : Comes (atServer P) s.toWelcoming ev rest) :
    Opening P file disk lossy syn synAck op (s.welcomingTurn P ev rest) := by
  cases hev with
  | @takes m _ now hq =>
      rw [hq] at hw
      obtain rfl := hw m List.mem_cons_self
      have hstep : s.server.step P.scfg (.welcoming (atServer P m now) P.bound) = _ :=
        step_syn hs.running hs.point hs.stranger hP.protocol hp.syn hp.synAck
      have htoClient : (s.welcomingTurn P (atServer P m now) rest).toClient =
          [(synAck, P.ccfg.serverAddress)] := by
        rw [toClient_unopened, hl, hstep]
        · simp
        · rw [hstep]
          exact hs.fresh
      refine .answered hc ?_ (fun x hx ↦ hw x (List.mem_cons_of_mem _ hx)) hr ?_ ?_
      · simp only [welcomingTurn, hstep]
        exact ⟨⟨hs.running, hs.keyed, hs.fresh, hs.disk⟩, ⟨_, rfl⟩, rfl⟩
      · rw [htoClient]
        exact fun x hx ↦ List.mem_singleton.mp hx
      · rw [htoClient]
        exact .inl (List.cons_ne_nil _ _)
  | passes hev =>
      obtain ⟨hs', hl'⟩ := idle_welcoming s.toWelcoming hs hev
      exact .greeting hc hs' hw hdue hr (hl'.trans hl)

/-- The accepter that waits for the operation goes on waiting. -/
theorem shakes_waits (rest : List Bytes) (hp : Packets P syn synAck op) (hs : Shakes P disk synAck s.server)
    (hev : ev.Quiet ∨ ∃ A now, ev = .datagram syn (some A) now) (hok : s.server.gaveUp ev = false)
    (hl : ∀ m ∈ s.toClient, m = (synAck, P.ccfg.serverAddress)) :
    Shakes P disk synAck (s.welcomingTurn P ev rest).server ∧
      (∀ m ∈ (s.welcomingTurn P ev rest).toClient, m = (synAck, P.ccfg.serverAddress)) ∧
      (s.toClient ≠ [] → (s.welcomingTurn P ev rest).toClient ≠ []) := by
  obtain ⟨r, hpoint⟩ := hs.point
  obtain ⟨r', b, hstep⟩ := step_waits hs.running hpoint hs.socket hp.syn hev hok
  have htoClient : (s.welcomingTurn P ev rest).toClient = s.toClient ++ (Outbox.to
      (if b then [(synAck, P.clientAddress.toAddress)] else []) P.clientAddress).map (·, P.ccfg.serverAddress) := by
    rw [toClient_unopened, hstep]
    rw [hstep]
    exact hs.fresh
  rw [htoClient]
  refine ⟨?_, toClient_welcoming hl ?_, fun hne hnil ↦ hne (List.append_eq_nil_iff.mp hnil).1⟩
  · simp only [welcomingTurn, hstep]
    exact ⟨⟨hs.running, hs.keyed, hs.fresh, hs.disk⟩, ⟨r', rfl⟩, hs.socket⟩
  · cases b with
    | false => exact fun x hx ↦ (by cases hx)
    | true => exact fun x hx ↦ List.mem_singleton.mp hx

theorem answered_welcoming (hp : Packets P syn synAck op)
    (hc : Greets P file syn s.client) (hs : Shakes P disk synAck s.server)
    (hw : ∀ raw ∈ s.toWelcoming, raw = syn) (hr : s.toConnection = [])
    (hl : ∀ m ∈ s.toClient, m = (synAck, P.ccfg.serverAddress)) (hdue : s.toClient ≠ [] ∨ lossy)
    (hev : Comes (atServer P) s.toWelcoming ev rest) (hok : s.server.gaveUp ev = false) :
    Opening P file disk lossy syn synAck op (s.welcomingTurn P ev rest) := by
  have hcomes : (ev.Quiet ∨ ∃ A now, ev = .datagram syn (some A) now) ∧ ∀ raw ∈ rest, raw = syn := by
    cases hev with
    | @takes m _ now hq =>
        rw [hq] at hw
        obtain rfl := hw m List.mem_cons_self
        exact ⟨.inr ⟨_, now, rfl⟩, fun x hx ↦ hw x (List.mem_cons_of_mem _ hx)⟩
    | passes hev => exact ⟨.inl hev, hw⟩
  obtain ⟨hs', hl', hne⟩ := shakes_waits rest hp hs hcomes.1 hok hl
  exact .answered hc hs' hcomes.2 hr hl' (hdue.imp_left hne)

theorem Requests.operationSent {c : Client} (h : Requests P file c) :
    OperationSent P.ccfg P.bound file c := by
  obtain ⟨c₀, now, e, hc₀, hsent, hc⟩ := h
  exact ⟨c₀, now, e, hc₀.sent, hc₀.serverAddress, hsent, hc⟩

theorem Requests.sentOperation {c : Client} (h : Requests P file c)
    (hproto : P.ccfg.protocolVersion = .stopAndWait) :
    ∃ c₀, c₀.file = file ∧ Saw.SentOperation P.ccfg P.bound c₀ c := by
  obtain ⟨c₀, now, e, hc₀, hsent, hc⟩ := h
  refine ⟨c₀, hc₀.file, hproto, ?_, ?_, hc₀.reports, now, e, hsent, hc⟩
  · rw [hc₀.sequenceNumber, hproto]
    rfl
  · rw [hc₀.ackNumber, hproto]
    rfl

/-- The thread of the connection has started, and the two ends are linked. -/
theorem linkStarts (hP : P.Matched) (hp : Packets P syn synAck op)
    {w : World Client ClientConnection Bytes Bytes} {now : Time} (hc : Requests P file w.left)
    (hcfg : c.cfg = (Accepter.createConnection P.scfg P.bound P.clientAddress
      (getPacketFromBytes (op.take commsBufferSize)) disk now).cfg)
    (hright : w.right = ClientConnection.start c.cfg disk now) (htr : w.toRight = [])
    (old : List Bytes) (hold : ∀ raw ∈ old, raw = synAck)
    (htl : w.toLeft = old ++ w.right.outbox.to P.clientAddress) :
    LinkStarts P file disk c.cfg w := by
  have hsynAck : ∀ raw ∈ old, Protocol.encode P.scfg.protocolVersion (numberAt P.scfg.protocolVersion 0)
      (ackAt P.scfg.protocolVersion 0) true true false P.bound.port [] = .ok raw :=
    fun raw hr ↦ hold raw hr ▸ hp.synAck
  obtain ⟨-, -, hsocket⟩ := hc.spec hp.op
  have hpacket : ∃ raw ∈ w.left.socket.lastRawPacket,
      c.cfg.initialPacket = getPacketFromBytes (raw.take commsBufferSize) := by
    rw [hsocket, hcfg]
    exact ⟨op, rfl, rfl⟩
  have hclient : c.cfg.clientAddress = P.clientAddress := by rw [hcfg]; rfl
  have haddress : c.cfg.address = P.bound := by rw [hcfg]; rfl
  have hversion : c.cfg.protocolVersion = P.ccfg.protocolVersion := by
    rw [hcfg]
    exact hP.protocol.symm
  refine ⟨⟨_, now, hcfg⟩, ⟨hversion, ?_, ?_, hpacket, ⟨now, hright⟩, htr, old, ?_, ?_⟩, hc.kept hp.op,
    fun hproto ↦ ?_⟩
  · rw [haddress]
    exact hP.apart
  · rw [haddress]
    exact hc.operationSent
  · rw [hP.protocol]
    exact fun raw hr ↦ confirms_packetAt (hsynAck raw hr)
  · rw [hclient, htl]
  · obtain ⟨c₀, hfile, hsent⟩ := hc.sentOperation hproto
    refine ⟨c₀, hfile, ?_, ⟨hversion.trans hproto, hpacket, now, hright⟩, htr, old, ?_, ?_⟩
    · rw [haddress]
      exact hsent
    · intro raw hr
      have hraw := hsynAck raw hr
      rw [← hP.protocol, hproto] at hraw
      exact Saw.carries_of_encode (by decide) hraw
    · rw [hclient, htl]

/-- The operation comes: the connection is opened. -/
theorem requested_opens (hP : P.Matched) (hp : Packets P syn synAck op) (hc : Requests P file s.client)
    (hout : s.client.Emits Plain) (hs : Shakes P disk synAck s.server) (hr : s.toConnection = [])
    (hl : ∀ m ∈ s.toClient, m = (synAck, P.ccfg.serverAddress)) (hrest : ∀ raw ∈ rest, raw = op)
    (now : Time) :
    ∃ c, Linked P file disk lossy c
      (s.welcomingTurn P (.datagram op (some P.clientAddress) now) rest) := by
  obtain rfl := hs.disk
  obtain ⟨r, hpoint⟩ := hs.point
  let c := Accepter.createConnection P.scfg P.bound P.clientAddress
    (getPacketFromBytes (op.take commsBufferSize)) s.server.disk now
  have hstep := step_completes hs.keyed hs.running hpoint hP.protocol hp.op P.clientAddress now
  have hopen : connectionOf P (s.server.step P.scfg
      (.welcoming (.datagram op (some P.clientAddress) now) P.bound)) = some c := by
    rw [hstep]
    exact connectionOf_add hs.fresh c (fun e ↦ !e.2.isReadyToDie) rfl
  have htoClient : (s.welcomingTurn P (.datagram op (some P.clientAddress) now) rest).toClient =
      s.toClient ++ (c.thread.outbox.to P.clientAddress).map (·, P.bound.toAddress) := by
    simp only [welcomingTurn, hs.fresh, Option.isNone_none, if_true, replies_of_some hopen]
    rw [hstep]
    rfl
  have htoLeft : (s.welcomingTurn P (.datagram op (some P.clientAddress) now) rest).toClient.map
      Prod.fst = s.toClient.map Prod.fst ++ c.thread.outbox.to P.clientAddress := by
    rw [htoClient, List.map_append, List.map_map]
    exact congrArg _ (List.map_id _)
  have hserver : (s.welcomingTurn P (.datagram op (some P.clientAddress) now) rest).server =
      s.server.step P.scfg (.welcoming (.datagram op (some P.clientAddress) now) P.bound) := rfl
  refine ⟨c, ?_, ?_, hopen, ?_, rfl, rfl, hout, ?_, ?_, _,
    linkStarts hP hp hc rfl rfl hr (s.toClient.map Prod.fst) ?_ htoLeft, Lts.Run.refl _⟩
  · rw [hserver, hstep]
    exact hs.running
  · rw [hserver, hstep]
  · rw [hserver, hstep]
  · exact fun raw hr ↦ hrest raw hr ▸ ⟨isFrame_of_encode hp.op, isSyn_of_encode hp.op⟩
  · rw [htoClient]
    intro m hm
    rcases List.mem_append.mp hm with hm | hm
    · exact .inr (congrArg Prod.snd (hl m hm))
    · obtain ⟨raw, -, rfl⟩ := List.mem_map.mp hm
      exact .inl rfl
  · intro raw hr
    obtain ⟨m, hm, rfl⟩ := List.mem_map.mp hr
    exact congrArg Prod.fst (hl m hm)

theorem requested_welcoming (hP : P.Matched) (hp : Packets P syn synAck op)
    (hc : Requests P file s.client) (hout : s.client.Emits Plain) (hs : Shakes P disk synAck s.server)
    (hw : Due lossy (· = syn) (· = op) s.toWelcoming) (hr : s.toConnection = [])
    (hl : ∀ m ∈ s.toClient, m = (synAck, P.ccfg.serverAddress))
    (hev : Comes (atServer P) s.toWelcoming ev rest) (hok : s.server.gaveUp ev = false) :
    Opening P file disk lossy syn synAck op (s.welcomingTurn P ev rest) := by
  have waits : (ev.Quiet ∨ ∃ A now, ev = .datagram syn (some A) now) →
      Due lossy (· = syn) (· = op) rest → Opening P file disk lossy syn synAck op
        (s.welcomingTurn P ev rest) := by
    intro hev hrest
    obtain ⟨hs', hl', -⟩ := shakes_waits rest hp hs hev hok hl
    exact .requested hc hout hs' hrest hr hl'
  cases hev with
  | @takes m _ now hq =>
      rw [hq] at hw
      rcases hw.cons with ⟨rfl, hrest⟩ | ⟨rfl, hrest⟩
      · exact waits (.inr ⟨P.clientAddress, now, rfl⟩) hrest
      · obtain ⟨c, hc⟩ := requested_opens hP hp hc hout hs hr hl hrest now
        exact .linked c hc
  | passes hev => exact waits (.inl hev) hw

end Turns

/-! ## The turns of the link -/

namespace Linked

variable {rest : List Bytes} {q : List (Bytes × Address)}

theorem clientTurn (h : Linked P file disk lossy c s) (hev : Comes atClient s.toClient ev q)
    (hok : (s.client.listened P.ccfg ev).gaveUp = false) :
    Linked P file disk lossy c (s.clientTurn P ev q) := by
  have hemits : (s.client.step P.ccfg ev).Emits Plain := h.client.step composes_plain ev
  obtain ⟨w, hstarts, hrun⟩ := h.run
  have hlink : (s.clientTurn P ev q).link c = ⟨s.client.step P.ccfg ev, c.thread,
      s.toConnection ++ (s.client.step P.ccfg ev).outbox.to c.cfg.address, q.map Prod.fst⟩ := by
    rw [h.address]
    rfl
  have hto : ∀ raw ∈ (s.clientTurn P ev q).toWelcoming, Plain raw := by
    refine forall_append h.toWelcoming fun raw hr ↦ ?_
    obtain ⟨o, ho, hto⟩ := List.mem_filterMap.mp hr
    obtain ⟨-, hraw⟩ := Option.ite_none_right_eq_some.mp hto
    exact Option.some.inj hraw ▸ hemits.outbox o ho
  cases hev with
  | @takes m _ now hq =>
      have hsource := h.sources m (by rw [hq]; exact List.mem_cons_self)
      have htake : Take .fifo (s.link c).toLeft m.1 (q.map Prod.fst) := by
        rw [link, hq]
        exact .head _ _
      have harrives : atClient m now ∈ arrivals c.cfg.address (some m.1) ∪
          arrivals P.ccfg.serverAddress (some m.1) := by
        rw [h.address]
        rcases hsource with hm | hm
        · exact .inl ⟨now, by rw [atClient, hm]⟩
        · exact .inr ⟨now, by rw [atClient, hm]⟩
      refine ⟨h.running, h.point, h.connection, h.storage, h.address, h.clientAddress, hemits, hto, ?_,
        w, hstarts, ?_⟩
      · exact fun x hx ↦ h.sources x (by rw [hq]; exact List.mem_cons_of_mem m hx)
      · rw [hlink]
        exact Lts.Run.tail hrun (fun hlose ↦ (by cases hlose))
          (.leftTakes htake ⟨_, harrives, hok, rfl⟩)
  | passes hev =>
      refine ⟨h.running, h.point, h.connection, h.storage, h.address, h.clientAddress, hemits, hto,
        h.sources, w, hstarts, ?_⟩
      rw [hlink]
      exact Lts.Run.tail hrun (fun hlose ↦ (by cases hlose)) (.leftMoves ⟨ev, .inl hev, hok, rfl⟩)

/-- What still comes to the welcoming socket changes nothing. -/
theorem welcomingTurn (h : Linked P file disk lossy c s)
    (hev : Comes (atServer P) s.toWelcoming ev rest) :
    Linked P file disk lossy c (s.welcomingTurn P ev rest) := by
  obtain ⟨w, hstarts, hrun⟩ := h.run
  have key : ∀ server : Accepter, s.server.step P.scfg (.welcoming ev P.bound) = server →
      server.Running ∧ server.point = .acceptConnection ∧ server.clients = s.server.clients ∧
        server.disk = s.server.disk ∧ server.outbox = [] → (∀ raw ∈ rest, Plain raw) →
      Linked P file disk lossy c (s.welcomingTurn P ev rest) := by
    rintro server hstep ⟨hrunning, hpoint, hclients, hdisk, hout⟩ hrest
    have hnew : s.welcomingTurn P ev rest = { s with server, toWelcoming := rest } := by
      simp only [Conversation.welcomingTurn, hstep, h.connection, hout, Option.isNone_some,
        Bool.false_eq_true, if_false, Outbox.to_nil, List.map_nil, List.append_nil]
    rw [hnew]
    exact ⟨hrunning, hpoint, (connectionOf_of_clients hclients).trans h.connection,
      hdisk.trans h.storage, h.address, h.clientAddress, h.client, hrest, h.sources, w, hstarts, hrun⟩
  cases hev with
  | @takes m _ now hq =>
      have hplain := h.toWelcoming
      rw [hq] at hplain
      refine key _ (step_plain h.running h.point (hplain m List.mem_cons_self) _)
        ⟨h.running, rfl, rfl, rfl, rfl⟩ fun x hx ↦ hplain x (List.mem_cons_of_mem m hx)
  | passes hev =>
      exact key _ (step_quiet h.running h.point hev) ⟨h.running, h.point, rfl, rfl, rfl⟩ h.toWelcoming

theorem connectionTurn (h : Linked P file disk lossy c s)
    (hev : Comes (atServer P) s.toConnection ev rest)
    (hok : (c.thread.listened c.cfg ev).gaveUp = false) :
    Linked P file disk lossy ⟨c.cfg, c.thread.step c.cfg ev⟩ (s.connectionTurn P ev rest) := by
  obtain ⟨w, hstarts, hrun⟩ := h.run
  obtain ⟨clients, hstep, hopen⟩ := step_opened ev h.connection h.storage
  have htoClient : (s.connectionTurn P ev rest).toClient = s.toClient ++
      ((c.thread.step c.cfg ev).outbox.to P.clientAddress).map (·, P.bound.toAddress) :=
    congrArg (s.toClient ++ ·) (replies_of_some hopen)
  have hserver : (s.connectionTurn P ev rest).server = _ := hstep
  have hlink : (s.connectionTurn P ev rest).link ⟨c.cfg, c.thread.step c.cfg ev⟩ =
      ⟨s.client, c.thread.step c.cfg ev, rest, s.toClient.map Prod.fst ++
        (c.thread.step c.cfg ev).outbox.to c.cfg.clientAddress⟩ := by
    rw [link, htoClient, List.map_append, List.map_map, h.clientAddress]
    exact congrArg (fun raws ↦ World.mk _ _ _ (s.toClient.map Prod.fst ++ raws)) (List.map_id _)
  have hsources : ∀ m ∈ (s.connectionTurn P ev rest).toClient,
      m.2 = P.bound ∨ m.2 = P.ccfg.serverAddress := by
    rw [htoClient]
    refine forall_append h.sources fun m hm ↦ ?_
    obtain ⟨raw, -, rfl⟩ := List.mem_map.mp hm
    exact .inl rfl
  refine ⟨?_, ?_, hopen, ?_, h.address, h.clientAddress, h.client, h.toWelcoming, hsources, w, hstarts,
    ?_⟩
  · rw [hserver]
    exact h.running
  · rw [hserver]
    exact h.point
  · rw [hserver]
  · rw [hlink]
    cases hev with
    | @takes m _ now hq =>
        have htake : Take .fifo (s.link c).toRight m rest := by
          rw [link, hq]
          exact .head _ _
        have harrives : atServer P m now ∈ arrivals c.cfg.clientAddress (some m) :=
          ⟨now, by rw [h.clientAddress]; rfl⟩
        exact Lts.Run.tail hrun (fun hlose ↦ (by cases hlose))
          (.rightTakes htake ⟨_, harrives, hok, rfl⟩)
    | passes hev =>
        exact Lts.Run.tail hrun (fun hlose ↦ (by cases hlose)) (.rightMoves ⟨ev, hev, hok, rfl⟩)

theorem lose (h : Linked P file disk lossy c s) (hlossy : lossy) {p r : List Bytes}
    (hp : p.Sublist s.toWelcoming) (hr : r.Sublist s.toConnection) (hq : q.Sublist s.toClient) :
    Linked P file disk lossy c { s with toWelcoming := p, toConnection := r, toClient := q } := by
  obtain ⟨w, hstarts, hrun⟩ := h.run
  exact ⟨h.running, h.point, h.connection, h.storage, h.address, h.clientAddress, h.client,
    forall_sublist h.toWelcoming hp, forall_sublist h.sources hq, w, hstarts,
    Lts.Run.tail hrun (fun _ ↦ hlossy) (.lose hr (hq.map Prod.fst))⟩

end Linked

/-! ## Every run -/

section Run

variable {t : Turn} {rest : List Bytes}

theorem connectionTurn_unopened (h : connectionOf P s.server = none) :
    s.connectionTurn P ev rest =
      { s with server := { s.server with outbox := [] }, toConnection := rest } := by
  have hnone : connectionOf P { s.server with outbox := [] } = none := h
  simp only [connectionTurn, step_unopened h, replies_of_none hnone, List.append_nil]

theorem Opening.client (h : Opening P file disk lossy syn synAck op s) (hP : P.Matched)
    (hp : Packets P syn synAck op) {q : List (Bytes × Address)} (hev : Comes atClient s.toClient ev q)
    (hok : (s.client.listened P.ccfg ev).gaveUp = false) :
    Opening P file disk lossy syn synAck op (s.clientTurn P ev q) := by
  cases h with
  | unsent hport hc hs hw hr hl =>
      rw [hl] at hev
      obtain ⟨-, rfl⟩ := comes_nil hev
      have hstep : s.client.step P.ccfg ev = { s.client with outbox := [] } := Client.step_ended hc
      refine .unsent hport ?_ hs ?_ ?_ rfl
      · simp only [clientTurn, hstep, hc]
      · simp only [clientTurn, hstep, hw, Outbox.to_nil, List.append_nil]
      · simp only [clientTurn, hstep, hr, Outbox.to_nil, List.append_nil]
  | greeting hc hs hw hdue hr hl =>
      rw [hl] at hev
      obtain ⟨hquiet, rfl⟩ := comes_nil hev
      obtain ⟨hc', hw', hr'⟩ := greeting_client (q := []) hP hc hquiet hok hw hr
      exact .greeting hc' hs hw' (hdue.imp_left fun hne hnil ↦ hne (List.append_eq_nil_iff.mp hnil).1) hr'
        rfl
  | answered hc hs hw hr hl hdue =>
      obtain ⟨⟨hquiet, rfl⟩ | ⟨now, rfl⟩, hrest⟩ := comes_answer hev hl
      · obtain ⟨hc', hw', hr'⟩ := greeting_client (q := s.toClient) hP hc hquiet hok hw hr
        exact .answered hc' hs hw' hr' hl hdue
      · exact answered_client hP hp hc hs hw hr hrest
  | requested hc hout hs hw hr hl => exact requested_client hP hp hc hout hs hw hr hl hev hok
  | linked c h => exact .linked c (h.clientTurn hev hok)

theorem Opening.welcoming (h : Opening P file disk lossy syn synAck op s) (hP : P.Matched)
    (hp : Packets P syn synAck op) (hev : Comes (atServer P) s.toWelcoming ev rest)
    (hok : s.server.gaveUp ev = false) :
    Opening P file disk lossy syn synAck op (s.welcomingTurn P ev rest) := by
  cases h with
  | unsent hport hc hs hw hr hl =>
      rw [hw] at hev
      obtain ⟨hquiet, rfl⟩ := comes_nil hev
      obtain ⟨hs', hl'⟩ := idle_welcoming [] hs hquiet
      exact .unsent hport hc hs' rfl hr (hl'.trans hl)
  | greeting hc hs hw hdue hr hl => exact greeting_welcoming hP hp hc hs hw hdue hr hl hev
  | answered hc hs hw hr hl hdue => exact answered_welcoming hp hc hs hw hr hl hdue hev hok
  | requested hc hout hs hw hr hl => exact requested_welcoming hP hp hc hout hs hw hr hl hev hok
  | linked c h => exact .linked c (h.welcomingTurn hev)

theorem Opening.connection (h : Opening P file disk lossy syn synAck op s)
    (hev : Comes (atServer P) s.toConnection ev rest)
    (hok : ∀ c ∈ connectionOf P s.server, (c.thread.listened c.cfg ev).gaveUp = false) :
    Opening P file disk lossy syn synAck op (s.connectionTurn P ev rest) := by
  have idle : connectionOf P s.server = none → s.toConnection = [] → s.connectionTurn P ev rest =
      { s with server := { s.server with outbox := [] } } := by
    intro hf hr
    rw [hr] at hev
    obtain ⟨-, rfl⟩ := comes_nil hev
    rw [connectionTurn_unopened hf, ← hr]
  cases h with
  | unsent hport hc hs hw hr hl =>
      rw [idle hs.fresh hr]
      exact .unsent hport hc ⟨⟨hs.running, hs.keyed, hs.fresh, hs.disk⟩, hs.point, hs.stranger⟩ hw hr hl
  | greeting hc hs hw hdue hr hl =>
      rw [idle hs.fresh hr]
      exact .greeting hc ⟨⟨hs.running, hs.keyed, hs.fresh, hs.disk⟩, hs.point, hs.stranger⟩ hw hdue hr hl
  | answered hc hs hw hr hl hdue =>
      rw [idle hs.fresh hr]
      exact .answered hc ⟨⟨hs.running, hs.keyed, hs.fresh, hs.disk⟩, hs.point, hs.socket⟩ hw hr hl hdue
  | requested hc hout hs hw hr hl =>
      rw [idle hs.fresh hr]
      exact .requested hc hout ⟨⟨hs.running, hs.keyed, hs.fresh, hs.disk⟩, hs.point, hs.socket⟩ hw hr hl
  | linked c h => exact .linked _ (h.connectionTurn hev (hok c h.connection))

theorem Opening.lose (h : Opening P file disk lossy syn synAck op s) (hlossy : lossy) {p r : List Bytes}
    {q : List (Bytes × Address)} (hp : p.Sublist s.toWelcoming) (hr : r.Sublist s.toConnection)
    (hq : q.Sublist s.toClient) : Opening P file disk lossy syn synAck op
      { s with toWelcoming := p, toConnection := r, toClient := q } := by
  cases h with
  | unsent hport hc hs hw hnil hl =>
      exact .unsent hport hc hs (List.sublist_nil.mp (hw ▸ hp)) (List.sublist_nil.mp (hnil ▸ hr))
        (List.sublist_nil.mp (hl ▸ hq))
  | greeting hc hs hw _ hnil hl =>
      exact .greeting hc hs (forall_sublist hw hp) (.inr hlossy) (List.sublist_nil.mp (hnil ▸ hr))
        (List.sublist_nil.mp (hl ▸ hq))
  | answered hc hs hw hnil hl _ =>
      exact .answered hc hs (forall_sublist hw hp) (List.sublist_nil.mp (hnil ▸ hr)) (forall_sublist hl hq)
        (.inr hlossy)
  | requested hc hout hs hw hnil hl =>
      exact .requested hc hout hs (hw.sublist hlossy hp) (List.sublist_nil.mp (hnil ▸ hr))
        (forall_sublist hl hq)
  | linked c h => exact .linked c (h.lose hlossy hp hr hq)

theorem Opening.step (h : Opening P file disk lossy syn synAck op s) (hP : P.Matched)
    (hp : Packets P syn synAck op) (ht : t = .lose → lossy) (hs : (system P).step s t s') :
    Opening P file disk lossy syn synAck op s' := by
  cases hs with
  | client hev hok => exact h.client hP hp hev hok
  | welcoming hev hok => exact h.welcoming hP hp hev hok
  | connection hev hok => exact h.connection hev hok
  | lose hw hr hl => exact h.lose (ht rfl) hw hr hl

theorem Begins.run (h : Begins P file s) (lossy : Prop)
    (hrun : (system P).Run (fun _ t ↦ t = .lose → lossy) s s') :
    ∃ syn synAck op, Packets P syn synAck op ∧
      Opening P file s.server.disk lossy syn synAck op s' := by
  obtain ⟨syn, synAck, op, hp⟩ := exists_packets P
  refine ⟨syn, synAck, op, hp, hrun.invariant ?_ (h.opening hp lossy)⟩
  exact fun h' ht hs ↦ h'.step h.matched hp ht hs

/-- Nothing but the stages before the link has no connection. -/
theorem Opening.linked_of_some (h : Opening P file disk lossy syn synAck op s)
    (hc : connectionOf P s.server = some c) : Linked P file disk lossy c s := by
  cases h with
  | unsent _ _ hs =>
      rw [hs.fresh] at hc
      cases hc
  | greeting _ hs =>
      rw [hs.fresh] at hc
      cases hc
  | answered _ hs =>
      rw [hs.fresh] at hc
      cases hc
  | requested _ _ hs =>
      rw [hs.fresh] at hc
      cases hc
  | linked c' h =>
      obtain rfl := Option.some.inj (h.connection.symm.trans hc)
      exact h

end Run

end Rdt.Conversation
