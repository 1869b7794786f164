import Rdt.Server.Silence
import Rdt.Server.Threads

/-!
# The time a server gives its clients

A client that leaves its handshake half open holds up the accepter for the limit of a wrapped
receive.  The connection of a client that is silent for as long is out of the pool once another
handshake completes.
-/

namespace Rdt.Server

open AccepterProtocol PacketParser

/-- What the receive gets -/
def ServerEvent.event : ServerEvent → Event
  | .welcoming ev _ => ev
  | .connection _ ev => ev

namespace Accepter

variable {cfg : AccepterConfig} {disk : Disk} {a a' : Accepter} {e : ServerEvent} {ev : Event}
  {bound : Peer} {es later : List ServerEvent} {start now since t : Time}

/-! ## The wait for a handshake -/

/-- The accepter, if it still runs, is at the receive of `accept_connection`. -/
def Free (a : Accepter) : Prop := a.Running → a.point = .acceptConnection

/-- Where an event of the welcoming socket takes the accepter -/
inductive Moves (a : Accepter) (ev : Event) (a' : Accepter) : Prop
  | free (h : a'.Free) (hpoint : a'.point = .acceptConnection ∨ a'.point = a.point)
  | enters {A c : Peer} {ack : Option SequenceNumber} (h : a.point = .acceptConnection)
      (hpoint : a'.point = .handshake A c ack (.start ev.now))
  | listens {A c : Peer} {ack : Option SequenceNumber} {r r' : ReListen} {b : Bool}
      (h : a.point = .handshake A c ack r)
      (hl : reListenIfFailed (expectHandshakeCompletion ack) a.welcomingSocket r ev = .listening r' b)
      (hpoint : a'.point = .handshake A c ack r')

theorem moves_handle (e : Exn) (h : a'.point = a.point) : Moves a ev (a'.handle e) := by
  unfold handle
  split
  case h_7 => exact .free (fun hr ↦ (by cases hr.1)) (.inr h)
  case h_8 => exact .free (fun hr ↦ (by cases hr.2)) (.inr h)
  all_goals exact .free (fun _ ↦ rfl) (.inl rfl)

theorem point_send {protocol : ProtocolType} {n : Nat} {ack : Option Nat} {isAck isSyn isFin : Bool}
    {port : UInt16} {A : Address} {peer : Peer}
    (h : a.send protocol n ack isAck isSyn isFin port A = .ok (a', peer)) : a'.point = a.point := by
  obtain ⟨raw, -, h⟩ := except_bind_eq_ok.mp h
  obtain ⟨peer', -, h⟩ := except_bind_eq_ok.mp h
  obtain ⟨rfl, -⟩ := Prod.mk.inj (Except.ok.inj h)
  rfl

theorem moves_acceptConnection (h : a.point = .acceptConnection) :
    Moves a ev (onAcceptConnection cfg a ev bound) := by
  cases ev with
  | osError now => exact moves_handle ExnClass.connectionLost.exn rfl
  | timeout now | proceed now => exact .free (fun _ ↦ h) (.inr rfl)
  | datagram raw source now =>
      simp only [onAcceptConnection]
      split
      · exact moves_handle _ rfl
      · unfold handshake
        split
        · exact moves_handle _ rfl
        · split
          · split
            · rename_i hsend
              exact moves_handle _ (point_send hsend)
            · exact moves_handle _ rfl
          · split
            · exact moves_handle _ rfl
            · exact .enters h rfl

theorem moves_handshake {A c : Peer} {ack : Option SequenceNumber} {r : ReListen}
    (h : a.point = .handshake A c ack r) : Moves a ev (onHandshake cfg a A c ack r ev) := by
  unfold onHandshake
  split
  · rename_i hl
    exact .listens h hl rfl
  · split
    · exact .free (fun _ ↦ rfl) (.inl rfl)
    · exact moves_handle _ rfl
  · exact moves_handle _ rfl

theorem Moves.of_outbox (h : Moves { a with outbox := [] } ev a') : Moves a ev a' := by
  cases h with
  | free h hpoint => exact .free h hpoint
  | enters h hpoint => exact .enters h hpoint
  | listens h hl hpoint => exact .listens h hl hpoint

theorem moves_welcoming (cfg : AccepterConfig) (a : Accepter) (ev : Event) (bound : Peer) :
    Moves a ev (step cfg a (.welcoming ev bound)) := by
  unfold step
  dsimp only
  split
  · split
    · rename_i hp
      exact .of_outbox (moves_acceptConnection hp)
    · rename_i hp
      exact .of_outbox (moves_handshake hp)
  · rename_i hr
    exact .free (fun h ↦ absurd h hr) (.inr rfl)

theorem point_connection (a : Accepter) (key : String) (ev : Event) :
    (step cfg a (.connection key ev)).point = a.point := by
  simp only [step, onConnection]
  split <;> rfl

/-! ## The times of a reachable server -/

/-- The times of the receives of all threads -/
structure Timely (a : Accepter) (now : Time) : Prop where
  handshake : ∀ A c ack r, a.point = .handshake A c ack r → r.Timely now
  threads : ∀ b ∈ a.clients, b.2.thread.listening.Timely now

theorem Timely.step_handshake (h : a.Timely now) (hle : now ≤ e.event.now) {A c : Peer}
    {ack : Option SequenceNumber} {r : ReListen} (hp : (step cfg a e).point = .handshake A c ack r) :
    r.Timely e.event.now := by
  cases e with
  | connection key ev =>
      rw [point_connection] at hp
      exact (h.handshake A c ack r hp).mono hle
  | welcoming ev bound =>
      cases moves_welcoming cfg a ev bound with
      | free _ hpoint =>
          rcases hpoint with h' | h'
          · cases h'.symm.trans hp
          · exact (h.handshake A c ack r (h'.symm.trans hp)).mono hle
      | enters _ hpoint =>
          cases hpoint.symm.trans hp
          exact ReListen.timely_start ev.now
      | listens hwait hl hpoint =>
          cases hpoint.symm.trans hp
          exact ((h.handshake A c ack _ hwait).goesOn hle hl).timely

theorem Timely.step (h : a.Timely now) (hk : a.clients.Keyed) (hle : now ≤ e.event.now) :
    (step cfg a e).Timely e.event.now where
  handshake _ _ _ _ hp := h.step_handshake hle hp
  threads b hb := by
    cases (turns_step hk e).comes hb with
    | stays hmem => exact (h.threads b hmem).mono hle
    | @runs key ev c he hmem heq =>
        subst he heq
        have hthread : (c.thread.withDisk a.disk).listening.Timely now := h.threads (key, c) hmem
        exact ClientConnection.step_timely hthread hle
    | accepted he _ heq =>
        subst he heq
        exact ClientConnection.start_timely ..

theorem run_timely (cfg : AccepterConfig) (disk : Disk)
    (hclock : Clocked start (es.map ServerEvent.event)) :
    (run cfg disk es).Timely (lastTime start (es.map ServerEvent.event)) := by
  induction es using List.reverseRecOn with
  | nil =>
      exact ⟨fun _ _ _ _ hp ↦ (by cases hp), fun b hb ↦ absurd hb List.not_mem_nil⟩
  | append_singleton es e ih =>
      rw [List.map_append, List.map_singleton] at hclock ⊢
      obtain ⟨hclock, hle, -⟩ := clocked_append.mp hclock
      rw [run_append, lastTime_append]
      exact (ih hclock).step (run_keyed cfg disk es) hle

/-! ## A handshake left half open -/

theorem free_or_waits (cfg : AccepterConfig) {A c : Peer} {ack : Option SequenceNumber}
    {r : ReListen} (hp : a.point = .handshake A c ack r) (ht : r.Timely now) (hle : now ≤ e.event.now) :
    (step cfg a e).Free ∨ ∃ r', (step cfg a e).point = .handshake A c ack r' ∧
      r'.Timely e.event.now ∧ r'.entered = r.entered ∧
      ∀ ev bound, e = .welcoming ev bound → ev.Wakes → ev.now < r.entered + waitingLimit := by
  cases e with
  | connection key ev' =>
      exact .inr ⟨r, (point_connection a key ev').trans hp, ht.mono hle, rfl, fun _ _ he ↦ (by cases he)⟩
  | welcoming ev' bound' =>
      cases moves_welcoming cfg a ev' bound' with
      | free h => exact .inl h
      | enters h => cases h.symm.trans hp
      | listens h hl hpoint =>
          cases h.symm.trans hp
          have hgoes := ht.goesOn hle hl
          refine .inr ⟨_, hpoint, hgoes.timely, hgoes.entered, fun _ _ he hw ↦ ?_⟩
          cases he
          exact hgoes.young hw

theorem free_of_entered (hw : ev.Wakes) (hlong : since + waitingLimit ≤ ev.now) {A c : Peer}
    {ack : Option SequenceNumber} {r : ReListen} (hp : (run cfg disk es).point = .handshake A c ack r)
    (ht : r.Timely now) (hentered : r.entered ≤ since)
    (hclock : Clocked now ((later ++ [ServerEvent.welcoming ev bound]).map ServerEvent.event)) :
    ∃ moment, es <+: moment ∧ moment <+: es ++ (later ++ [ServerEvent.welcoming ev bound]) ∧
      (run cfg disk moment).Free := by
  induction later generalizing es now r with
  | nil =>
      rcases free_or_waits cfg hp ht hclock.1 with h | ⟨r', -, -, -, hyoung⟩
      · exact ⟨es ++ [.welcoming ev bound], List.prefix_append .., List.prefix_refl _,
          run_append es _ ▸ h⟩
      · exact absurd ((hyoung ev bound rfl hw).trans_le (Nat.add_le_add_right hentered _)) (not_lt.mpr hlong)
  | cons e later ih =>
      rcases free_or_waits cfg hp ht hclock.1 with h | ⟨r', hp', ht', hr', -⟩
      · exact ⟨es ++ [e], List.prefix_append .., ⟨later ++ [.welcoming ev bound], by simp⟩,
          run_append es _ ▸ h⟩
      · rw [← run_append] at hp'
        obtain ⟨moment, hes, hmoment, hfree⟩ := ih hp' ht' (hr'.trans_le hentered) hclock.2
        refine ⟨moment, (List.prefix_append es [e]).trans hes, ?_, hfree⟩
        rw [List.append_assoc, List.singleton_append] at hmoment
        exact hmoment

/-- Whatever the clients do, no handshake holds up the accepter for longer than the limit: by the time
its receive is woken that much later, it has been back at `accept_connection`, if it still runs. -/
theorem free_again (cfg : AccepterConfig) (disk : Disk) (start : Time) (es later : List ServerEvent)
    (ev : Event) (bound : Peer)
    (hclock : Clocked start ((es ++ (later ++ [ServerEvent.welcoming ev bound])).map ServerEvent.event))
    (hw : ev.Wakes) (hlong : lastTime start (es.map ServerEvent.event) + waitingLimit ≤ ev.now) :
    ∃ moment, es <+: moment ∧ moment <+: es ++ (later ++ [ServerEvent.welcoming ev bound]) ∧
      (run cfg disk moment).Free := by
  rw [List.map_append] at hclock
  obtain ⟨hbefore, hafter⟩ := clocked_append.mp hclock
  cases hp : (run cfg disk es).point with
  | acceptConnection => exact ⟨es, List.prefix_refl es, List.prefix_append .., fun _ ↦ hp⟩
  | handshake A c ack r =>
      have ht := (run_timely cfg disk hbefore).handshake A c ack r hp
      exact free_of_entered hw hlong hp ht ht.entered_le hafter

theorem free_again_alice : ∃ moment, [Local.arrives Local.syn Local.alice] <+: moment ∧
    moment <+: [Local.arrives Local.syn Local.alice] ++ ([.welcoming (.timeout 15000) Local.connectionAddress] ++
      [ServerEvent.welcoming (.timeout 60015000) Local.connectionAddress]) ∧
    (run (Local.accepter .stopAndWait) (fun _ ↦ none) moment).Free :=
  free_again (Local.accepter .stopAndWait) (fun _ ↦ none) 0 [Local.arrives Local.syn Local.alice]
    [.welcoming (.timeout 15000) Local.connectionAddress] (.timeout 60015000) Local.connectionAddress
    (by decide +kernel) (by decide +kernel) (by decide +kernel)

/-! ## The connection of a silent client -/

/-- Every connection of this key was accepted after `base`, or is in such a state. -/
def Renewed (cfg : AccepterConfig) (disk : Disk) (base es : List ServerEvent) (key : String)
    (P : ClientConnection → Prop) : Prop :=
  ∀ b ∈ (run cfg disk es).clients, b.1 = key → Among cfg disk base es b ∨ P b.2.thread

variable {base : List ServerEvent} {key : String} {P P' : ClientConnection → Prop}

theorem Renewed.step (h : Renewed cfg disk base es key P) (hbase : base <+: es)
    (hstays : ∀ c, (∀ ev, e ≠ .connection key ev) →
      ((run cfg disk es).completes e = true → c.isReadyToDie = false) → P c → P' c)
    (hruns : ∀ config c ev d, e = .connection key ev → P c →
      P' (ClientConnection.step config (c.withDisk d) ev)) :
    Renewed cfg disk base (es ++ [e]) key P' := by
  intro b hb hkey
  cases (run_turns cfg disk es e).comes hb with
  | stays hmem he hready =>
      rcases h b hmem hkey with h | h
      · exact .inl (h.others he)
      · exact .inr (hstays _ (fun ev ↦ hkey ▸ he ev) hready h)
  | runs he hmem heq =>
      subst he heq
      rcases h _ hmem hkey with h | h
      · exact .inl (h.runs _)
      · exact .inr (hruns _ _ _ _ (hkey ▸ rfl) h)
  | accepted he hcompletes heq =>
      subst he heq
      exact .inl (among_accepted hbase hcompletes)

/-- The thread is over, and its connection will be collected. -/
def Over (c : ClientConnection) : Prop := c.point = .ended ∧ c.isReadyToDie = true

theorem Over.step {c : ClientConnection} (h : Over c) (config : Config) (d : Disk) (ev : Event) :
    Over (ClientConnection.step config (c.withDisk d) ev) := by
  rw [ClientConnection.step_ended (c := c.withDisk d) h.1]
  exact h

theorem Renewed.over (h : Renewed cfg disk base es key Over) (hbase : base <+: es) :
    Renewed cfg disk base (es ++ later) key Over := by
  induction later using List.reverseRecOn with
  | nil =>
      rw [List.append_nil]
      exact h
  | append_singleton later e ih =>
      rw [← List.append_assoc]
      exact ih.step (hbase.trans (List.prefix_append ..)) (fun _ _ _ h ↦ h)
        fun config _ ev d _ h ↦ h.step config d ev

theorem Renewed.dies (h : Renewed cfg disk base es key (ClientConnection.Dies since now))
    (hbase : base <+: es) (hclock : Clocked now (later.map ServerEvent.event))
    (hquiet : ∀ ev, .connection key ev ∈ later → ev.Quiet) :
    Renewed cfg disk base (es ++ later) key
      (ClientConnection.Dies since (lastTime now (later.map ServerEvent.event))) := by
  induction later using List.reverseRecOn with
  | nil =>
      rw [List.append_nil]
      exact h
  | append_singleton later e ih =>
      rw [List.map_append, List.map_singleton] at hclock ⊢
      obtain ⟨hclock, hle, -⟩ := clocked_append.mp hclock
      rw [lastTime_append, ← List.append_assoc]
      refine (ih hclock fun ev he ↦ hquiet ev (List.mem_append_left _ he)).step
        (hbase.trans (List.prefix_append ..)) (fun _ _ _ h ↦ h.mono hle) ?_
      rintro config c ev d rfl h
      have hev : ev.Quiet := hquiet ev (List.mem_append_right _ (List.mem_singleton_self _))
      exact (h.withDisk d).step hev hle

/-- A connection that is still running will be collected once silence has ended it. -/
theorem running_proceeds {b : String × Connection} (hb : b ∈ (run cfg disk es).clients)
    (hrunning : b.2.thread.point ≠ .ended) : b.2.thread.Proceeds := by
  obtain ⟨_, _, _, now, _, after, moment, -, -, -, -, -, -, hthread⟩ :=
    (run_among cfg disk es b hb).alone.since
  rw [hthread] at hrunning ⊢
  have h := ClientConnection.run_proceeds b.2.cfg (run cfg disk moment).disk now _ hrunning
  exact ⟨⟨h.stands.refusing, h.stands.working⟩, h.ready⟩

theorem renewed_begin {b : String × Connection} (hb : b ∈ (run cfg disk es).clients)
    (hclock : Clocked start (es.map ServerEvent.event)) (hrunning : b.2.thread.point ≠ .ended)
    (hpoint : ∀ s, b.2.thread.point ≠ .sendFileGbn s) :
    Renewed cfg disk es es b.1 (ClientConnection.Dies (lastTime start (es.map ServerEvent.event))
      (lastTime start (es.map ServerEvent.event))) := by
  intro b' hb' hkey
  obtain rfl := (run_keyed cfg disk es).eq_of_key hb' hb hkey
  exact .inr ⟨.begin ((run_timely cfg disk hclock).threads b' hb') hpoint, running_proceeds hb' hrunning⟩

/-- The client of a running connection falls silent while the server goes on with all others: once
a minute later another handshake has completed, no connection in the pool is that one. -/
theorem gone_after_silence (cfg : AccepterConfig) (disk : Disk) (start t : Time)
    (es later rest : List ServerEvent) (e : ServerEvent) (b : String × Connection)
    (hclock : Clocked start
      ((es ++ (later ++ [ServerEvent.connection b.1 (.timeout t)])).map ServerEvent.event))
    (hb : b ∈ (run cfg disk es).clients) (hrunning : b.2.thread.point ≠ .ended)
    (hpoint : ∀ s, b.2.thread.point ≠ .sendFileGbn s)
    (hquiet : ∀ ev, .connection b.1 ev ∈ later → ev.Quiet)
    (hlong : lastTime start (es.map ServerEvent.event) + waitingLimit ≤ t)
    (hcompletes : (run cfg disk
      (es ++ later ++ [ServerEvent.connection b.1 (.timeout t)] ++ rest)).completes e = true) :
    ∀ b' ∈ (run cfg disk
        (es ++ later ++ [ServerEvent.connection b.1 (.timeout t)] ++ rest ++ [e])).clients,
      b'.1 = b.1 → Among cfg disk es
        (es ++ later ++ [ServerEvent.connection b.1 (.timeout t)] ++ rest ++ [e]) b' := by
  rw [List.map_append, List.map_append] at hclock
  obtain ⟨hbefore, hafter⟩ := clocked_append.mp hclock
  obtain ⟨hafter, hlast, -⟩ := clocked_append.mp hafter
  have hstarts : es <+: es ++ later ++ [ServerEvent.connection b.1 (.timeout t)] :=
    (List.prefix_append es later).trans (List.prefix_append ..)
  have hsilent := (renewed_begin hb hbefore hrunning hpoint).dies (List.prefix_refl es) hafter hquiet
  have hover : Renewed cfg disk es (es ++ later ++ [.connection b.1 (.timeout t)]) b.1 Over := by
    refine hsilent.step (List.prefix_append es later) (fun _ he ↦ absurd rfl (he _)) ?_
    rintro config c ev d he h
    cases he
    exact (h.withDisk d).timeout hlast hlong
  have hgone : Renewed cfg disk es _ b.1 fun _ ↦ False :=
    (hover.over hstarts).step (hstarts.trans (List.prefix_append ..))
      (fun c _ hready h ↦ (by cases (hready hcompletes).symm.trans h.2)) fun _ _ ev _ he _ ↦ (by
        subst he
        cases hcompletes)
  intro b' hb' hkey
  exact (hgone b' hb' hkey).resolve_right id

namespace Local

/-- Alice has her connection. -/
def accepted : List ServerEvent := [arrives syn alice, arrives ack alice]

/-- Bob gets his a minute later, and the port is free again. -/
def laterFromBob (raw : Bytes) : ServerEvent :=
  .welcoming (.datagram raw (some bob) 60015000) connectionAddress

def silence : ServerEvent := .connection connectionAddress.toCombined (.timeout 60015000)

def replaced : List ServerEvent := accepted ++ [] ++ [silence] ++ [laterFromBob syn] ++ [laterFromBob ack]

theorem replaced_pos :
    0 < (run (accepter .stopAndWait) (fun _ ↦ none) replaced).clients.length := by decide +kernel

end Local

theorem gone_after_silence_alice :
    ∃ b' ∈ (run (Local.accepter .stopAndWait) (fun _ ↦ none) Local.replaced).clients,
      b'.1 = Local.connectionAddress.toCombined ∧
        Among (Local.accepter .stopAndWait) (fun _ ↦ none) Local.accepted Local.replaced b' := by
  have hkey : ((run (Local.accepter .stopAndWait) (fun _ ↦ none) Local.replaced).clients.get
      ⟨0, Local.replaced_pos⟩).1 = Local.connectionAddress.toCombined := by decide +kernel
  refine ⟨_, List.get_mem _ ⟨0, Local.replaced_pos⟩, hkey, ?_⟩
  exact gone_after_silence (Local.accepter .stopAndWait) (fun _ ↦ none) 0 60015000 Local.accepted []
    [Local.laterFromBob Local.syn] (Local.laterFromBob Local.ack)
    (Local.connectionAddress.toCombined, createConnection (Local.accepter .stopAndWait)
      Local.connectionAddress ⟨Local.alice, by decide⟩ (getPacketFromBytes (Local.ack.take commsBufferSize))
      (fun _ ↦ none) 0)
    (by decide +kernel) (List.mem_singleton_self _) (by decide +kernel)
    (fun s h ↦ by
      have hpoint : (createConnection (Local.accepter .stopAndWait) Local.connectionAddress
          ⟨Local.alice, by decide⟩ (getPacketFromBytes (Local.ack.take commsBufferSize)) (fun _ ↦ none)
          0).thread.point = .receiveFilenameForUpload := by decide +kernel
      cases hpoint.symm.trans h)
    (fun ev h ↦ absurd h List.not_mem_nil) (by decide +kernel) (by decide +kernel) _
    (List.get_mem _ ⟨0, Local.replaced_pos⟩) hkey

end Accepter

end Rdt.Server
