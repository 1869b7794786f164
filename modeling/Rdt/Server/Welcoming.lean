import Rdt.Lib.Transition
import Rdt.Server.Accepting

/-!
# Runs of the accepter

When it keeps accepting, whom a finished handshake was with, and when the pool knows its
clients.
-/

namespace Rdt.Server

open AccepterProtocol PacketParser

namespace Accepter

variable {cfg : AccepterConfig} {disk : Disk} {a a' : Accepter} {e : ServerEvent}

/-- The server after a sequence of events. -/
def run (cfg : AccepterConfig) (disk : Disk) (es : List ServerEvent) : Accepter :=
  es.foldl (step cfg) (init disk)

theorem run_append (es : List ServerEvent) (e : ServerEvent) :
    run cfg disk (es ++ [e]) = step cfg (run cfg disk es) e := by
  simp [run]

theorem Does.keyed (h : Does cfg a e a') (hk : a.clients.Keyed) : a'.clients.Keyed := by
  cases h with
  | thread disk f =>
      refine ⟨fun e he ↦ ?_, ?_⟩
      · obtain ⟨e', he', rfl⟩ := List.mem_map.mp he
        exact hk.key e' he'
      · rw [List.map_map]
        exact hk.nodup
  | nothing | returns | answers | waits => exact hk
  | halted _ _ _ _ hclients => exact hclients ▸ hk
  | completes => exact (hk.filter _).add (createConnection cfg _ _ _ _ _)

theorem keyed_nil : ClientPool.Keyed [] := ⟨fun _ h ↦ absurd h List.not_mem_nil, List.nodup_nil⟩

theorem run_keyed (cfg : AccepterConfig) (disk : Disk) (es : List ServerEvent) :
    (run cfg disk es).clients.Keyed := by
  induction es using List.reverseRecOn with
  | nil => exact keyed_nil
  | append_singleton es e ih =>
      rw [run_append]
      exact (step_does ih e).keyed ih

/-! ## The accepter keeps accepting -/

/-- The system's own socket fails only when it is shut down. -/
def ServerEvent.Works : ServerEvent → Prop
  | .welcoming (.osError _) _ => False
  | _ => True

theorem fatalAck_of_fault {ack : Option SequenceNumber} {packet : Packet} (gaveUp : Bool)
    (h : handshakeFault ack packet = none) : fatalAck ack gaveUp packet = false := by
  rw [Bool.eq_false_iff]
  intro hf
  rcases fatalAck_iff.mp hf with hf | ⟨-, hf | hf⟩ <;> rw [h] at hf <;> cases hf

/-- A step leaves a running accepter running unless its event is fatal. -/
theorem Does.running (h : Does cfg a e a') (hw : ServerEvent.Works e) :
    a'.Running ↔ a.Running ∧ a.fatal e = false := by
  cases h with
  | thread => exact (and_iff_left rfl).symm
  | @nothing ev bound h =>
      rcases h with h | ⟨-, hev⟩
      · exact ⟨fun hr ↦ absurd hr h, fun hr ↦ absurd hr.1 h⟩
      · cases ev with
        | datagram => exact absurd rfl (hev _ _ _)
        | timeout | osError | proceed => exact (and_iff_left rfl).symm
  | halted hr hf _ ho =>
      rcases hf with hf | ⟨now, rfl⟩
      · exact ⟨fun hr' ↦ absurd hr' ho, fun h ↦ absurd (hf.symm.trans h.2) nofun⟩
      · exact hw.elim
  | returns _ _ hr hf => exact ⟨fun _ ↦ ⟨hr, hf⟩, fun h ↦ h.1⟩
  | @answers _ _ A _ _ _ hr hp hraw =>
      exact ⟨fun _ ↦ ⟨hr, by simp [fatal, hp, hraw, A.reachable]⟩, fun h ↦ h.1⟩
  | waits _ _ hr _ hf => exact ⟨fun _ ↦ ⟨hr, hf⟩, fun h ↦ h.1⟩
  | completes hr hp hraw hack =>
      exact ⟨fun _ ↦ ⟨hr, by simp [fatal, hp, hraw, fatalAck_of_fault _ hack]⟩, fun h ↦ h.1⟩

namespace Local

def accepter (protocol : ProtocolType) : AccepterConfig :=
  ⟨protocol, ⟨"127.0.0.1", 7000⟩, ⟨"storage", fun _ ↦ true, some, 2 * minimumFreeGap, fun _ ↦ 0⟩⟩

def alice : Address := ⟨"127.0.0.1", 5001⟩

def bob : Address := ⟨"127.0.0.1", 5002⟩

theorem connectionPort_ne_zero : (7001 : UInt16) ≠ 0 := by decide

def connectionAddress : Peer := ⟨⟨"127.0.0.1", 7001⟩, connectionPort_ne_zero⟩

/-- A Stop-and-Wait SYN. -/
def syn : Bytes := [8, 0, 19, 137, 0, 0]

/-- A Stop-and-Wait ACK with the operation code of an upload. -/
def ack : Bytes := [48, 0, 19, 137, 0, 2, 0, 2]

def arrives (raw : Bytes) (source : Address) : ServerEvent :=
  .welcoming (.datagram raw (some source) 0) connectionAddress

end Local

/-- A handshake is completed only with a connection at the client's own address. -/
def OwnAddress (a : Accepter) (e : ServerEvent) : Prop :=
  match a.point with
  | .acceptConnection => True
  | .handshake A c _ _ => a.completes e = true → c = A

instance (a : Accepter) (e : ServerEvent) : Decidable (OwnAddress a e) := by
  unfold OwnAddress
  split <;> infer_instance

/-- The pool knows the addresses that own a connection, no address owns two, and a SYN from an
address that owns one is refused. -/
structure OnePerClient (cfg : AccepterConfig) (a : Accepter) : Prop where
  connected : ∀ A, a.clients.isClientConnected A = true ↔
    ∃ e ∈ a.clients, e.2.cfg.clientAddress = A
  unique : ∀ e ∈ a.clients, ∀ e' ∈ a.clients,
    e.2.cfg.clientAddress = e'.2.cfg.clientAddress → e = e'
  refused : ∀ e ∈ a.clients, ∀ raw, raw ≠ [] → (getPacketFromBytes raw).isSyn = true →
    a.acceptConnection raw (some e.2.cfg.clientAddress) = .error ExnClass.clientAlreadyConnected.exn
  nothing : ∀ e ∈ a.clients, ∀ raw now bound, a.point = .acceptConnection → raw ≠ [] →
    (getPacketFromBytes (raw.take commsBufferSize)).isSyn = true →
    (step cfg a (.welcoming (.datagram raw (some e.2.cfg.clientAddress) now) bound)).clients =
      a.clients

theorem isClientConnected_iff (hk : a.clients.Keyed) {A : Address} :
    a.clients.isClientConnected A = true ↔ ∃ e ∈ a.clients, e.2.cfg.address = A := by
  rw [ClientPool.isClientConnected, ClientPool.contains_iff, List.mem_map]
  refine exists_congr fun e ↦ and_congr_right fun he ↦ ?_
  rw [hk.key e he, Address.toCombined_inj]

theorem onAcceptConnection_of_error {raw : Bytes} {source : Option Address} {e : Exn}
    (h : a.acceptConnection (raw.take commsBufferSize) source = .error e) (now : Time) (bound : Peer) :
    onAcceptConnection cfg a (.datagram raw source now) bound = a.handle e := by
  simp only [onAcceptConnection, h]

/-- The accepter as long as every connection has its client's own address. -/
structure Owned (a : Accepter) : Prop where
  keyed : a.clients.Keyed
  own : ∀ e ∈ a.clients, e.2.cfg.address = e.2.cfg.clientAddress
  free : ∀ A c ack r, a.point = .handshake A c ack r → a.clients.isClientConnected A = false

theorem Owned.onePerClient (cfg : AccepterConfig) (h : a.Owned) : OnePerClient cfg a := by
  have connected : ∀ A, a.clients.isClientConnected A = true ↔
      ∃ e ∈ a.clients, e.2.cfg.clientAddress = A := by
    intro A
    rw [isClientConnected_iff h.keyed]
    refine exists_congr fun e ↦ and_congr_right fun he ↦ ?_
    rw [h.own e he]
  have refused : ∀ e ∈ a.clients, ∀ raw, raw ≠ [] → (getPacketFromBytes raw).isSyn = true →
      a.acceptConnection raw (some e.2.cfg.clientAddress) =
        .error ExnClass.clientAlreadyConnected.exn := by
    intro e he raw hraw hsyn
    have hcon := (connected e.2.cfg.clientAddress).mpr ⟨e, he, rfl⟩
    simp [acceptConnection, AccepterProtocol.validateInboundPacket,
      Protocol.validateInboundPacket_of_ne_nil hraw, bind, Except.bind, hsyn, hcon]
  refine ⟨connected, fun e he e' he' heq ↦ h.keyed.eq_of_key he he' ?_, refused,
    fun e he raw now bound hp hraw hsyn ↦ ?_⟩
  · rw [h.keyed.key e he, h.keyed.key e' he', h.own e he, h.own e' he', heq]
  · have hno : acceptConnection { a with outbox := [] } (raw.take commsBufferSize)
        (some e.2.cfg.clientAddress) = .error ExnClass.clientAlreadyConnected.exn :=
      refused e he _ (take_comms_ne_nil hraw) hsyn
    unfold step
    dsimp only
    split
    · split
      · rw [onAcceptConnection_of_error hno]
        rfl
      · rename_i hpoint
        cases hp.symm.trans hpoint
    · rfl

/-- A step keeps this if it completes a handshake with no other address than the client's own,
and only then can the pool still know its clients. -/
theorem Owned.does (h : a.Owned) (hd : Does cfg a e a') :
    (OwnAddress a e → a'.Owned) ∧ (¬OwnAddress a e → ¬OnePerClient cfg a') := by
  have keyed := hd.keyed h.keyed
  have harmless : a.completes e = false → OwnAddress a e := by
    intro hc
    unfold OwnAddress
    split
    · trivial
    · exact fun hc' ↦ absurd (hc.symm.trans hc') Bool.false_ne_true
  have kept : a'.Owned → OwnAddress a e →
      (OwnAddress a e → a'.Owned) ∧ (¬OwnAddress a e → ¬OnePerClient cfg a') :=
    fun ho hown ↦ ⟨fun _ ↦ ho, fun hn ↦ absurd hown hn⟩
  cases hd with
  | thread disk f =>
      refine kept ⟨keyed, fun e he ↦ ?_, fun A c ack r hp ↦ ?_⟩ (harmless rfl)
      · obtain ⟨e', he', rfl⟩ := List.mem_map.mp he
        exact h.own e' he'
      · rw [Bool.eq_false_iff]
        intro hcon
        obtain ⟨e, he, hA⟩ := (isClientConnected_iff keyed).mp hcon
        obtain ⟨e', he', rfl⟩ := List.mem_map.mp he
        exact absurd ((isClientConnected_iff h.keyed).mpr ⟨e', he', hA⟩)
          (Bool.eq_false_iff.mp (h.free A c ack r hp))
  | @nothing ev bound hn =>
      refine kept ⟨keyed, h.own, h.free⟩ (harmless ?_)
      rcases hn with hn | ⟨hp, -⟩
      · unfold completes
        split
        · split <;> simp [hn]
        · rfl
      · exact completes_of_acceptConnection hp _
  | halted _ _ hc _ hclients hpoint =>
      refine kept ⟨keyed, by rw [hclients]; exact h.own, ?_⟩ (harmless hc)
      rw [hclients, hpoint]
      exact h.free
  | returns _ _ _ _ hc =>
      exact kept ⟨keyed, h.own, fun _ _ _ _ h ↦ by cases h⟩ (harmless hc)
  | answers _ _ hp _ _ hfree =>
      refine kept ⟨keyed, h.own, ?_⟩ (harmless (completes_of_acceptConnection hp _))
      rintro A c ack r ⟨⟩
      exact hfree
  | waits _ _ _ hp _ hc =>
      refine kept ⟨keyed, h.own, ?_⟩ (harmless hc)
      rintro A c ack r ⟨⟩
      exact h.free _ _ _ _ hp
  | @completes raw B bound A c now ack r hr hp hraw hack =>
      have hcomp : a.completes (.welcoming (.datagram raw (some B) now) bound) = true := by
        simp [Accepter.completes, hp, hr, hraw, hack]
      have hiff : OwnAddress a (.welcoming (.datagram raw (some B) now) bound) ↔ c = A := by
        unfold OwnAddress
        rw [hp]
        exact ⟨fun hown ↦ hown hcomp, fun heq _ ↦ heq⟩
      rw [hiff]
      refine ⟨fun heq ↦ ⟨keyed, fun e he ↦ ?_, fun _ _ _ _ h ↦ by cases h⟩, fun hne hone ↦ ?_⟩
      · rcases ClientPool.mem_add.mp he with rfl | ⟨he, -⟩
        · exact congrArg Peer.toAddress heq
        · exact h.own e (List.mem_of_mem_filter he)
      · have hcon := (hone.connected A).mpr ⟨_, ClientPool.mem_add.mpr (.inl rfl), rfl⟩
        obtain ⟨e, he, hA⟩ := (isClientConnected_iff keyed).mp hcon
        rcases ClientPool.mem_add.mp he with rfl | ⟨he, -⟩
        · exact hne (Peer.toAddress_injective hA)
        · exact absurd ((isClientConnected_iff h.keyed).mpr ⟨e, List.mem_of_mem_filter he, hA⟩)
            (Bool.eq_false_iff.mp (h.free A c ack r hp))

/-- The pool knows its clients as long as, and only as long as, every completed handshake got a
connection at the client's own address. -/
theorem onePerClient_iff (cfg : AccepterConfig) (disk : Disk) (es : List ServerEvent) :
    Lts.Always (step cfg) (OnePerClient cfg) (init disk) es ↔
      Lts.Admits (step cfg) OwnAddress (init disk) es := by
  have start : (init disk).Owned := ⟨keyed_nil, fun _ h ↦ absurd h List.not_mem_nil, nofun⟩
  generalize init disk = a at start
  induction es generalizing a with
  | nil => simpa [Lts.always_nil, Lts.Admits] using start.onePerClient cfg
  | cons e es ih =>
      obtain ⟨kept, lost⟩ := start.does (step_does start.keyed e)
      rw [Lts.always_cons, Lts.Admits, and_iff_right (start.onePerClient cfg)]
      by_cases hown : OwnAddress a e
      · exact (ih _ (kept hown)).trans (and_iff_right hown).symm
      · refine iff_of_false (fun h ↦ lost hown ?_) (fun h ↦ hown h.1)
        exact h [] (List.nil_prefix)

/-- After one handshake the pool does not know the client it was with. -/
theorem not_onePerClient : ¬Lts.Always (step (Local.accepter .stopAndWait))
    (OnePerClient (Local.accepter .stopAndWait)) (init fun _ ↦ none)
    [Local.arrives Local.syn Local.alice, Local.arrives Local.ack Local.alice] :=
  fun h ↦ absurd (((h _ (List.prefix_refl _)).connected Local.alice).mpr
    ⟨_, List.mem_singleton_self _, rfl⟩) (by decide +kernel)

/-! ## Whom a handshake was with -/

/-- The last thing the accepter did was to answer a SYN of `A`, and it is waiting for the ACK. -/
structure Answering (cfg : AccepterConfig) (disk : Disk) (es : List ServerEvent)
    (A connectionAddress : Peer) : Prop where
  since : ∃ before during syn now,
    es = before ++ .welcoming (.datagram syn (some A) now) connectionAddress :: during ∧
      (run cfg disk before).point = .acceptConnection ∧
      (getPacketFromBytes (syn.take commsBufferSize)).isSyn = true ∧
      ∀ d, d <+: during → ∃ ack r,
        (run cfg disk (before ++ .welcoming (.datagram syn (some A) now) connectionAddress :: d)).point =
          .handshake A connectionAddress ack r

/-- The connection was built from an ACK of the client whose SYN was being answered. -/
structure Bound (cfg : AccepterConfig) (disk : Disk) (es : List ServerEvent) (config : Config) :
    Prop where
  built : ∃ before after ack now bound,
    es = before ++ .welcoming (.datagram ack (some config.clientAddress) now) bound :: after ∧
      Answering cfg disk before config.client config.bound ∧
      config.initialPacket = getPacketFromBytes (ack.take commsBufferSize)

/-- While the accepter waits for the ACK of one client, no other client sends an ACK without FIN that
carries the number waited for. -/
def OwnSource (a : Accepter) (e : ServerEvent) : Prop :=
  match a.point, e with
  | .handshake A _ ack _, .welcoming (.datagram raw (some B) _) _ =>
      a.Running → B ≠ A → ¬Continues ack (getPacketFromBytes (raw.take commsBufferSize))
  | _, _ => True

instance (a : Accepter) (e : ServerEvent) : Decidable (OwnSource a e) := by
  unfold OwnSource
  split <;> infer_instance

variable {es : List ServerEvent}

theorem Answering.append {A c : Peer} {ack : Option SequenceNumber} {r : ReListen}
    (h : Answering cfg disk es A c)
    (hp : (run cfg disk (es ++ [e])).point = .handshake A c ack r) :
    Answering cfg disk (es ++ [e]) A c := by
  obtain ⟨before, during, syn, now, rfl, haccept, hsyn, hwait⟩ := h.since
  refine ⟨before, during ++ [e], syn, now, by simp, haccept, hsyn, fun d hd ↦ ?_⟩
  rcases List.prefix_concat_iff.mp hd with rfl | hd
  · exact ⟨ack, r, by simpa using hp⟩
  · exact hwait d hd

theorem Bound.append {config : Config} (h : Bound cfg disk es config) (e : ServerEvent) :
    Bound cfg disk (es ++ [e]) config := by
  obtain ⟨before, after, ack, now, bound, rfl, hans, hpacket⟩ := h.built
  exact ⟨before, after ++ [e], ack, now, bound, by simp, hans, hpacket⟩

/-- What the pool and the handshake in progress go back to. -/
structure Traced (cfg : AccepterConfig) (disk : Disk) (es : List ServerEvent) (a : Accepter) :
    Prop where
  answering : ∀ A c ack r, a.point = .handshake A c ack r → Answering cfg disk es A c
  bound : ∀ e ∈ a.clients, Bound cfg disk es e.2.cfg

theorem Traced.does (ha : a = run cfg disk es) (ha' : a' = run cfg disk (es ++ [e]))
    (h : Traced cfg disk es a) (hd : Does cfg a e a') (hown : OwnSource a e) :
    Traced cfg disk (es ++ [e]) a' := by
  have kept : ∀ b ∈ a.clients, Bound cfg disk (es ++ [e]) b.2.cfg :=
    fun b hb ↦ (h.bound b hb).append e
  have waiting : a'.point = a.point → ∀ A c ack r, a'.point = .handshake A c ack r →
      Answering cfg disk (es ++ [e]) A c :=
    fun hpoint A c ack r hp ↦ (h.answering A c ack r (hpoint ▸ hp)).append (ha' ▸ hp)
  cases hd with
  | thread disk f =>
      refine ⟨waiting rfl, fun b hb ↦ ?_⟩
      obtain ⟨b', hb', rfl⟩ := List.mem_map.mp hb
      exact kept b' hb'
  | nothing => exact ⟨waiting rfl, kept⟩
  | halted _ _ _ _ hclients hpoint => exact ⟨waiting hpoint, hclients ▸ kept⟩
  | returns => exact ⟨fun _ _ _ _ h ↦ (by cases h), kept⟩
  | @answers raw raw' A bound now ws hr hp hraw hsyn =>
      refine ⟨?_, kept⟩
      rintro A c ack r ⟨⟩
      refine ⟨es, [], raw, now, rfl, ha ▸ hp, hsyn, fun d hd ↦ ?_⟩
      obtain rfl := List.prefix_nil.mp hd
      exact ⟨_, _, congrArg Accepter.point ha'.symm⟩
  | @waits ev bound A c ack r r' outbox hr hp =>
      refine ⟨?_, kept⟩
      rintro _ _ _ _ ⟨⟩
      exact (h.answering A c ack r hp).append (congrArg Accepter.point ha'.symm)
  | @completes raw B bound A c now ack r hr hp hraw hack =>
      refine ⟨fun _ _ _ _ h ↦ (by cases h), fun b hb ↦ ?_⟩
      rcases ClientPool.mem_add.mp hb with rfl | ⟨hb, -⟩
      · obtain rfl : B = A := by
          unfold OwnSource at hown
          rw [hp] at hown
          exact by_contra fun hne ↦ hown hr hne (handshakeFault_eq_none.mp hack)
        exact ⟨es, [], raw, now, bound, rfl, h.answering A c ack r hp, rfl⟩
      · exact kept b (List.mem_of_mem_filter hb)

/-- The accepter builds no connection to one client out of another's ACK, as long as no such ACK
arrives while it waits for one. -/
theorem handshake_bound (cfg : AccepterConfig) (disk : Disk) (es : List ServerEvent)
    (h : Lts.Admits (step cfg) OwnSource (init disk) es) :
    ∀ e ∈ (run cfg disk es).clients, Bound cfg disk es e.2.cfg := by
  have traced : Traced cfg disk es (run cfg disk es) := by
    refine h.invariant (I := Traced cfg disk) ⟨nofun, fun _ h ↦ absurd h List.not_mem_nil⟩ ?_
    rintro es a e rfl hI hown
    refine hI.does rfl (run_append es e).symm (step_does (run_keyed cfg disk es) e) hown
  exact traced.bound

theorem handshake_bound_pair :
    ∃ e ∈ (run (Local.accepter .stopAndWait) (fun _ ↦ none)
        [Local.arrives Local.syn Local.alice, Local.arrives Local.syn Local.bob,
          Local.arrives Local.ack Local.alice]).clients,
      Bound (Local.accepter .stopAndWait) (fun _ ↦ none)
        [Local.arrives Local.syn Local.alice, Local.arrives Local.syn Local.bob,
          Local.arrives Local.ack Local.alice] e.2.cfg :=
  ⟨_, List.mem_singleton_self _,
    handshake_bound (Local.accepter .stopAndWait) (fun _ ↦ none) _ (by decide +kernel) _
      (List.mem_singleton_self _)⟩

/-- Bob's ACK completes the handshake of Alice. -/
theorem not_handshake_bound :
    ¬∀ e ∈ (run (Local.accepter .stopAndWait) (fun _ ↦ none)
        [Local.arrives Local.syn Local.alice, Local.arrives Local.ack Local.bob]).clients,
      Bound (Local.accepter .stopAndWait) (fun _ ↦ none)
        [Local.arrives Local.syn Local.alice, Local.arrives Local.ack Local.bob] e.2.cfg := by
  intro h
  obtain ⟨before, after, ack, now, bound, hes, -, hpacket⟩ := (h _ (List.mem_singleton_self _)).built
  have hmem : ServerEvent.welcoming (.datagram ack (some Local.alice) now) bound ∈
      [Local.arrives Local.syn Local.alice, Local.arrives Local.ack Local.bob] := by
    rw [hes]
    exact List.mem_append_right _ List.mem_cons_self
  rcases List.mem_pair.mp hmem with heq | heq
  · obtain ⟨⟨rfl, -, -⟩, -⟩ := by simpa [Local.arrives] using heq
    exact absurd (congrArg Packet.isAck hpacket) (by decide +kernel)
  · exact absurd heq (by simp [Local.arrives, Local.alice, Local.bob])

end Accepter

end Rdt.Server
