import Rdt.Server.Isolation
import Rdt.Server.Welcoming

/-!
# The threads of a server and the storage they share

What one event of the server does to its connections and to the storage; and that every
connection behaves as if it were alone.
-/

namespace Rdt.Server

open AccepterProtocol PacketParser

/-- The event, if it is one of the connection with this key -/
def ServerEvent.addressed (key : String) : ServerEvent → Option Event
  | .connection k ev => if k = key then some ev else none
  | .welcoming _ _ => none

namespace Accepter

variable {cfg : AccepterConfig} {disk : Disk} {a a' : Accepter} {e : ServerEvent}

/-- The connection after one event of its thread, which finds the storage of the server -/
def turn (a : Accepter) (c : Connection) (ev : Event) : Connection :=
  { c with thread := ClientConnection.step c.cfg (c.thread.withDisk a.disk) ev }

/-- What one event does to the connections and to the storage. -/
inductive Turns (cfg : AccepterConfig) (a : Accepter) (e : ServerEvent) (a' : Accepter) : Prop
  | rests (hnone : ∀ key ev, e = .connection key ev → key ∉ a.clients.map Prod.fst)
      (hclients : a'.clients = a.clients) (hdisk : a'.disk = a.disk) (hrests : a.completes e = false)
  | runs {key : String} {ev : Event} {c : Connection} (he : e = .connection key ev)
      (hmem : (key, c) ∈ a.clients)
      (hclients : a'.clients = a.clients.map fun e ↦ if e.1 = key then (key, a.turn c ev) else e)
      (hdisk : a'.disk = (a.turn c ev).thread.disk)
  | adds {raw : Bytes} {B : Address} {A c bound : Peer} {now : Time} {ack : Option SequenceNumber} {r : ReListen}
      (he : e = .welcoming (.datagram raw (some B) now) bound) (hcompletes : a.completes e = true)
      (hpoint : a.point = .handshake A c ack r)
      (hclients : a'.clients = ClientPool.add (a.clients.filter fun e ↦ !e.2.isReadyToDie) c.toCombined
        (createConnection cfg c A (getPacketFromBytes (raw.take commsBufferSize)) a.disk now))
      (hdisk : a'.disk = a.disk)

/-! ## The storage stays with the threads -/

theorem disk_handle (a : Accepter) (e : Exn) : (a.handle e).disk = a.disk := by
  unfold handle
  split <;> rfl

theorem disk_send {protocol : ProtocolType} {n : Nat} {ack : Option Nat} {isAck isSyn isFin : Bool}
    {port : UInt16} {A : Address} {peer : Peer}
    (h : a.send protocol n ack isAck isSyn isFin port A = .ok (a', peer)) : a'.disk = a.disk := by
  obtain ⟨raw, -, h⟩ := except_bind_eq_ok.mp h
  obtain ⟨peer', -, h⟩ := except_bind_eq_ok.mp h
  obtain ⟨rfl, -⟩ := Prod.mk.inj (Except.ok.inj h)
  rfl

theorem disk_handshake (a : Accepter) (packet : Packet) (A : Address) (bound : Peer) (now : Time) :
    (handshake cfg a packet A bound now).disk = a.disk := by
  unfold handshake
  split
  · exact disk_handle a _
  · split
    · split
      · rename_i h
        exact (disk_handle _ _).trans (disk_send h)
      · exact disk_handle a _
    · split
      · exact disk_handle a _
      · rename_i a₁ peer h
        exact show a₁.disk = a.disk from disk_send h

theorem disk_onAcceptConnection (a : Accepter) (ev : Event) (bound : Peer) :
    (onAcceptConnection cfg a ev bound).disk = a.disk := by
  unfold onAcceptConnection
  split
  · split
    · exact disk_handle a _
    · exact disk_handshake a _ _ bound _
  · exact disk_handle a _
  · rfl
  · rfl

theorem disk_addClient {c A : Peer} {packet : Packet} {now : Time}
    (h : addClient cfg a c A packet now = .ok a') : a'.disk = a.disk := by
  unfold addClient at h
  cases hrip : ripFinishedClients a.clients with
  | error e =>
      rw [hrip] at h
      cases h
  | ok clients =>
      rw [hrip] at h
      obtain rfl := Except.ok.inj h
      exact congrArg ClientConnection.Store.disk (ClientConnection.starts _ a.disk now).store

theorem disk_onHandshake (a : Accepter) (A c : Peer) (ack : Option SequenceNumber) (r : ReListen)
    (ev : Event) : (onHandshake cfg a A c ack r ev).disk = a.disk := by
  unfold onHandshake
  split
  · rfl
  · split
    · rename_i a₁ h
      exact show a₁.disk = a.disk from disk_addClient h
    · exact disk_handle a _
  · exact disk_handle _ _

theorem disk_welcoming (cfg : AccepterConfig) (a : Accepter) (ev : Event) (bound : Peer) :
    (step cfg a (.welcoming ev bound)).disk = a.disk := by
  unfold step
  dsimp only
  split
  · split
    · exact disk_onAcceptConnection _ ev bound
    · exact disk_onHandshake _ _ _ _ _ ev
  · rfl

/-! ## One event -/

theorem turns_connection (key : String) (ev : Event) :
    Turns cfg a (.connection key ev) (step cfg a (.connection key ev)) := by
  simp only [step, onConnection]
  split
  · rename_i hfind
    refine .rests ?_ rfl rfl rfl
    rintro _ _ ⟨⟩ hmem
    obtain ⟨e, he, rfl⟩ := List.mem_map.mp hmem
    simpa using List.find?_eq_none.mp hfind e he
  · rename_i k c hfind
    obtain rfl : k = key := by simpa using List.find?_some hfind
    exact .runs rfl (List.mem_of_find?_eq_some hfind) rfl rfl

theorem completes_of_halted (h : ¬a.Running) (e : ServerEvent) : a.completes e = false := by
  unfold completes
  split
  · split
    · rfl
    · simp [h]
  · rfl

theorem turns_step (hk : a.clients.Keyed) (e : ServerEvent) : Turns cfg a e (step cfg a e) := by
  cases e with
  | connection key ev => exact turns_connection key ev
  | welcoming ev bound =>
      have hdisk := disk_welcoming cfg a ev bound
      have hnone : ∀ key ev', ServerEvent.welcoming ev bound = .connection key ev' →
          key ∉ a.clients.map Prod.fst := fun key ev' h ↦ (by cases h)
      have hdoes : Does cfg a (.welcoming ev bound) _ := step_does hk (.welcoming ev bound)
      generalize step cfg a (.welcoming ev bound) = a' at hdisk hdoes
      cases hdoes with
      | nothing h =>
          refine .rests hnone rfl hdisk ?_
          rcases h with h | ⟨hp, -⟩
          · exact completes_of_halted h _
          · exact completes_of_acceptConnection hp _
      | halted _ _ hc _ hclients => exact .rests hnone hclients hdisk hc
      | returns _ _ _ _ hc => exact .rests hnone rfl hdisk hc
      | answers _ _ hp => exact .rests hnone rfl hdisk (completes_of_acceptConnection hp _)
      | waits _ _ _ _ _ hc => exact .rests hnone rfl hdisk hc
      | completes hr hp hraw hack =>
          refine .adds rfl ?_ hp rfl hdisk
          simp [completes, hp, hr, hraw, hack]

theorem run_turns (cfg : AccepterConfig) (disk : Disk) (es : List ServerEvent) (e : ServerEvent) :
    Turns cfg (run cfg disk es) e (run cfg disk (es ++ [e])) := by
  rw [run_append]
  exact turns_step (run_keyed cfg disk es) e

/-- Where a connection of the pool has come from at the last event -/
inductive Comes (cfg : AccepterConfig) (a : Accepter) (e : ServerEvent) (b : String × Connection) : Prop
  | stays (hmem : b ∈ a.clients) (he : ∀ ev, e ≠ .connection b.1 ev)
      (hready : a.completes e = true → b.2.isReadyToDie = false)
  | runs {key : String} {ev : Event} {c : Connection} (he : e = .connection key ev)
      (hmem : (key, c) ∈ a.clients) (heq : b = (key, a.turn c ev))
  | accepted {raw : Bytes} {B : Address} {A c bound : Peer} {now : Time}
      (he : e = .welcoming (.datagram raw (some B) now) bound) (hcompletes : a.completes e = true)
      (heq : b = (c.toCombined,
        createConnection cfg c A (getPacketFromBytes (raw.take commsBufferSize)) a.disk now))

theorem Turns.comes (h : Turns cfg a e a') {b : String × Connection} (hb : b ∈ a'.clients) :
    Comes cfg a e b := by
  cases h with
  | rests hnone hclients _ hrests =>
      rw [hclients] at hb
      exact .stays hb (fun ev he ↦ hnone b.1 ev he (List.mem_map_of_mem hb))
        fun h ↦ (by cases hrests.symm.trans h)
  | @runs key ev c he hmem hclients =>
      rw [hclients] at hb
      obtain ⟨b', hb', rfl⟩ := List.mem_map.mp hb
      split
      · exact .runs he hmem rfl
      · rename_i hkey
        exact .stays hb' (fun ev' he' ↦ hkey (by cases he.symm.trans he'; rfl))
          fun h ↦ (by rw [he] at h; cases h)
  | adds he hcompletes _ hclients =>
      rw [hclients] at hb
      rcases ClientPool.mem_add.mp hb with rfl | ⟨hb, -⟩
      · exact .accepted he hcompletes rfl
      · exact .stays (List.mem_of_mem_filter hb) (fun ev he' ↦ (by cases he.symm.trans he'))
          fun _ ↦ (by simpa using List.of_mem_filter hb)

/-! ## Every connection on its own -/

/-- The events of one connection in a run of the server, each with the storage its thread finds -/
def share (cfg : AccepterConfig) (key : String) : Accepter → List ServerEvent → List (Disk × Event)
  | _, [] => []
  | a, e :: es =>
      ((e.addressed key).map fun ev ↦ (a.disk, ev)).toList ++ share cfg key (step cfg a e) es

theorem share_append (key : String) (a : Accepter) (es es' : List ServerEvent) :
    share cfg key a (es ++ es') = share cfg key a es ++ share cfg key (es.foldl (step cfg) a) es' := by
  induction es generalizing a with
  | nil => rfl
  | cons e es ih => simp only [List.cons_append, share, List.foldl_cons, ih, List.append_assoc]

theorem share_events (key : String) (a : Accepter) (es : List ServerEvent) :
    (share cfg key a es).map Prod.snd = es.filterMap (ServerEvent.addressed key) := by
  induction es generalizing a with
  | nil => rfl
  | cons e es ih =>
      rw [share, List.map_append, ih, List.filterMap_cons]
      cases e.addressed key <;> rfl

/-- The storages a thread finds are those of the server. -/
theorem share_storages {key : String} {a : Accepter} {es : List ServerEvent} {d : Disk}
    (h : d ∈ (share cfg key a es).map Prod.fst) :
    ∃ moment, moment <+: es ∧ d = (moment.foldl (step cfg) a).disk := by
  induction es generalizing a with
  | nil => exact absurd h List.not_mem_nil
  | cons e es ih =>
      rw [share, List.map_append, List.mem_append] at h
      rcases h with h | h
      · refine ⟨[], List.nil_prefix, ?_⟩
        cases haddressed : e.addressed key with
        | none =>
            rw [haddressed] at h
            exact absurd h List.not_mem_nil
        | some ev =>
            rw [haddressed] at h
            exact List.mem_singleton.mp h
      · obtain ⟨moment, hmoment, rfl⟩ := ih h
        exact ⟨e :: moment, List.cons_prefix_cons.mpr ⟨rfl, hmoment⟩, rfl⟩

/-- The connection was accepted after `base`: since the packet that completed its handshake its thread
has only had its own events, each with the storage it found. -/
structure Among (cfg : AccepterConfig) (disk : Disk) (base es : List ServerEvent)
    (e : String × Connection) : Prop where
  since : ∃ before raw B now bound after,
    es = before ++ .welcoming (.datagram raw (some B) now) bound :: after ∧ base <+: before ∧
      (run cfg disk before).completes (.welcoming (.datagram raw (some B) now) bound) = true ∧
      e.2.cfg.initialPacket = getPacketFromBytes (raw.take commsBufferSize) ∧
      e.2.thread = ClientConnection.runAmong e.2.cfg (run cfg disk before).disk now (share cfg e.1
        (run cfg disk (before ++ [.welcoming (.datagram raw (some B) now) bound])) after)

theorem run_append_append (es es' : List ServerEvent) :
    run cfg disk (es ++ es') = es'.foldl (step cfg) (run cfg disk es) := by
  simp [run]

variable {base es : List ServerEvent} {b : String × Connection}

/-- The last event was one of the connection. -/
theorem Among.runs {key : String} {c : Connection} (h : Among cfg disk base es (key, c)) (ev : Event) :
    Among cfg disk base (es ++ [.connection key ev]) (key, (run cfg disk es).turn c ev) := by
  obtain ⟨before, raw, B, now, bound, after, rfl, hbase, hcompletes, hpacket, hthread⟩ := h.since
  refine ⟨before, raw, B, now, bound, after ++ [.connection key ev], by simp, hbase, hcompletes,
    hpacket, ?_⟩
  have hone : ∀ a : Accepter, share cfg key a [.connection key ev] = [(a.disk, ev)] := by
    intro a
    simp [share, ServerEvent.addressed]
  dsimp only [turn] at hthread ⊢
  rw [share_append, ← run_append_append, List.append_assoc, List.singleton_append, hone,
    ClientConnection.runAmong_append, ← hthread]

/-- It was none. -/
theorem Among.others (h : Among cfg disk base es b) (he : ∀ ev, e ≠ .connection b.1 ev) :
    Among cfg disk base (es ++ [e]) b := by
  obtain ⟨before, raw, B, now, bound, after, rfl, hbase, hcompletes, hpacket, hthread⟩ := h.since
  refine ⟨before, raw, B, now, bound, after ++ [e], by simp, hbase, hcompletes, hpacket, ?_⟩
  have hnothing : ∀ a : Accepter, share cfg b.1 a [e] = [] := by
    intro a
    cases e with
    | welcoming => rfl
    | connection k ev =>
        have hk : k ≠ b.1 := fun hk ↦ he ev (hk ▸ rfl)
        simp [share, ServerEvent.addressed, hk]
  rw [share_append, hnothing, List.append_nil]
  exact hthread

theorem among_accepted {raw : Bytes} {B : Address} {A c bound : Peer} {now : Time} (hbase : base <+: es)
    (hcompletes : (run cfg disk es).completes (.welcoming (.datagram raw (some B) now) bound) = true) :
    Among cfg disk base (es ++ [.welcoming (.datagram raw (some B) now) bound]) (c.toCombined,
      createConnection cfg c A (getPacketFromBytes (raw.take commsBufferSize)) (run cfg disk es).disk now) :=
  ⟨es, raw, B, now, bound, [], rfl, hbase, hcompletes, rfl, rfl⟩

theorem among_step {p : String → Prop} (hbase : base <+: es)
    (h : ∀ b ∈ (run cfg disk es).clients, p b.1 → Among cfg disk base es b) (e : ServerEvent) :
    ∀ b ∈ (run cfg disk (es ++ [e])).clients, p b.1 → Among cfg disk base (es ++ [e]) b := by
  intro b hb hp
  cases (run_turns cfg disk es e).comes hb with
  | stays hmem he => exact (h b hmem hp).others he
  | runs he hmem heq =>
      subst he heq
      exact (h _ hmem hp).runs _
  | accepted he hcompletes heq =>
      subst he heq
      exact among_accepted hbase hcompletes

theorem among_run {p : String → Prop} (hbase : base <+: es)
    (h : ∀ b ∈ (run cfg disk es).clients, p b.1 → Among cfg disk base es b) (es' : List ServerEvent) :
    ∀ b ∈ (run cfg disk (es ++ es')).clients, p b.1 → Among cfg disk base (es ++ es') b := by
  induction es' using List.reverseRecOn with
  | nil => rwa [List.append_nil]
  | append_singleton es' e ih =>
      rw [← List.append_assoc]
      exact among_step (hbase.trans (List.prefix_append es es')) ih e

theorem run_among (cfg : AccepterConfig) (disk : Disk) (es : List ServerEvent) :
    ∀ b ∈ (run cfg disk es).clients, Among cfg disk [] es b := by
  intro b hb
  have hnobody : ∀ b ∈ (run cfg disk []).clients, True → Among cfg disk [] [] b :=
    fun _ h ↦ absurd h List.not_mem_nil
  exact among_run (p := fun _ ↦ True) (List.prefix_refl []) hnobody es b hb trivial

/-- The key of the connection that the event adds to the pool, if it does. -/
def accepts (a : Accepter) (e : ServerEvent) : Option String :=
  match a.point with
  | .acceptConnection => none
  | .handshake _ c _ _ => if a.completes e then some c.toCombined else none

/-- A connection that goes by the key of one accepted after `base` -/
theorem among_of_accepts (hbase : base <+: es)
    (haccepts : (run cfg disk es).accepts e = some b.1) (es' : List ServerEvent)
    (hb : b ∈ (run cfg disk (es ++ e :: es')).clients) : Among cfg disk base (es ++ e :: es') b := by
  have hcompletes : (run cfg disk es).completes e = true := by
    unfold accepts at haccepts
    split at haccepts
    · cases haccepts
    · exact (Option.ite_none_right_eq_some.mp haccepts).1
  have hadded : ∀ b' ∈ (run cfg disk (es ++ [e])).clients, b'.1 = b.1 →
      Among cfg disk base (es ++ [e]) b' := by
    intro b' hb' hkey
    cases run_turns cfg disk es e with
    | rests _ _ _ hrests => cases hrests.symm.trans hcompletes
    | runs he =>
        rw [he] at hcompletes
        cases hcompletes
    | adds he _ hpoint hclients =>
        subst he
        simp only [accepts, hpoint, hcompletes, if_true] at haccepts
        rw [hclients] at hb'
        rcases ClientPool.mem_add.mp hb' with rfl | ⟨-, hne⟩
        · exact among_accepted hbase hcompletes
        · exact absurd (hkey.trans (Option.some.inj haccepts).symm) hne
  have hrun := among_run (p := (· = b.1)) (hbase.trans (List.prefix_append es [e])) hadded es'
  rw [List.append_assoc, List.singleton_append] at hrun
  exact hrun b hb rfl

/-- Where the connection, accepted after `base`, would be alone: with its own events since the packet
that completed its handshake, and with the storage the server had at one moment since -/
structure Alone (cfg : AccepterConfig) (disk : Disk) (base es : List ServerEvent)
    (e : String × Connection) : Prop where
  since : ∃ before raw B now bound after moment,
    es = before ++ .welcoming (.datagram raw (some B) now) bound :: after ∧ base <+: before ∧
      (run cfg disk before).completes (.welcoming (.datagram raw (some B) now) bound) = true ∧
      e.2.cfg.initialPacket = getPacketFromBytes (raw.take commsBufferSize) ∧
      before <+: moment ∧ moment <+: es ∧
      e.2.thread = (ClientConnection.run e.2.cfg (run cfg disk moment).disk now
        (after.filterMap (ServerEvent.addressed e.1))).withDisk e.2.thread.disk

theorem Among.alone (h : Among cfg disk base es b) : Alone cfg disk base es b := by
  obtain ⟨before, raw, B, now, bound, after, rfl, hbase, hcompletes, hpacket, hthread⟩ := h.since
  obtain ⟨d, hd, heq⟩ := ClientConnection.runAmong_eq b.2.cfg (run cfg disk before).disk now (share cfg
    b.1 (run cfg disk (before ++ [.welcoming (.datagram raw (some B) now) bound])) after)
  rw [← hthread, share_events] at heq
  rcases List.mem_cons.mp hd with rfl | hd
  · exact ⟨before, raw, B, now, bound, after, before, rfl, hbase, hcompletes, hpacket,
      List.prefix_refl before, List.prefix_append .., heq⟩
  · obtain ⟨moment, ⟨later, rfl⟩, rfl⟩ := share_storages hd
    rw [← run_append_append] at heq
    exact ⟨before, raw, B, now, bound, moment ++ later, _, rfl, hbase, hcompletes, hpacket,
      ⟨_, (List.append_assoc ..).symm⟩, ⟨later, by simp⟩, heq⟩

/-- An upload cannot tell the other clients of the server: as long as its connection is in the pool it
is, but for the storage, where the same events would have taken it alone. -/
theorem run_alone (cfg : AccepterConfig) (disk : Disk) (es : List ServerEvent) :
    ∀ b ∈ (run cfg disk es).clients,
      ServerProtocol.processOperationIntention b.2.cfg.initialPacket ≠ .ok downloadOperation →
        Alone cfg disk [] es b :=
  fun b hb _ ↦ (run_among cfg disk es b hb).alone

namespace Local

open ClientConnection.Local (saw)

def fromAlice (raw : Bytes) : ServerEvent :=
  .connection connectionAddress.toCombined (.datagram raw (some alice) 0)

/-- The upload of five bytes under the name "a", up to the last of them -/
def upload : List ServerEvent :=
  [arrives syn alice, arrives ack alice, fromAlice (saw 0 [97]), fromAlice (saw 32 [0, 0, 0, 5]),
    fromAlice (saw 0 [1, 2, 3])]

theorem upload_pos : 0 < (run (accepter .stopAndWait) (fun _ ↦ none) upload).clients.length := by
  decide +kernel

end Local

theorem run_alone_upload : Alone (Local.accepter .stopAndWait) (fun _ ↦ none) [] Local.upload
    ((run (Local.accepter .stopAndWait) (fun _ ↦ none) Local.upload).clients.get
      ⟨0, Local.upload_pos⟩) :=
  run_alone (Local.accepter .stopAndWait) (fun _ ↦ none) Local.upload _ (List.get_mem _ _)
    (by decide +kernel)

end Accepter

end Rdt.Server
