import Rdt.Common.Frames
import Rdt.Server.Datagrams
import Rdt.Server.Threads

/-!
# To whom a server speaks

Every datagram of a server is a frame, for an address that a SYN has come from: the accepter answers
SYNs, and a connection sends to its client alone.
-/

namespace Rdt.Server

open AccepterProtocol PacketParser

/-- A SYN of `A` arrives at the welcoming socket. -/
def ServerEvent.Asks (e : ServerEvent) (A : Address) : Prop :=
  ∃ raw now bound, e = .welcoming (.datagram raw (some A) now) bound ∧
    (getPacketFromBytes (raw.take commsBufferSize)).isSyn = true

/-- A SYN of `A` has arrived. -/
def Asked (es : List ServerEvent) (A : Address) : Prop := ∃ e ∈ es, e.Asks A

theorem Asked.append {es : List ServerEvent} {A : Address} (h : Asked es A) (e : ServerEvent) :
    Asked (es ++ [e]) A := by
  obtain ⟨e', he', h⟩ := h
  exact ⟨e', List.mem_append_left _ he', h⟩

theorem ServerEvent.Asks.asked {e : ServerEvent} {A : Address} (h : e.Asks A) (es : List ServerEvent) :
    Asked (es ++ [e]) A := ⟨e, List.mem_append_right es (List.mem_singleton_self e), h⟩

namespace Accepter

variable {cfg : AccepterConfig} {disk : Disk} {a a' : Accepter} {Q : Bytes × Address → Prop}
  {A : Address} {bound : Peer} {ev : Event} {e : ServerEvent} {es : List ServerEvent}

/-! ## The accepter -/

/-- What the accepter has handed over, and what it would repeat, has `Q`. -/
structure Says (Q : Bytes × Address → Prop) (a : Accepter) : Prop where
  outbox : ∀ o ∈ a.outbox, Q o
  repeats : ∀ o ∈ a.welcomingSocket.retransmission, Q o

namespace Says

theorem loop (h : Says Q a) : Says Q a.loop := ⟨h.outbox, fun _ ho ↦ (by cases ho)⟩

theorem handle (h : Says Q a) (e : Exn) : Says Q (a.handle e) := by
  unfold Accepter.handle
  split
  case h_7 => exact ⟨h.outbox, h.repeats⟩
  case h_8 => exact ⟨h.outbox, h.repeats⟩
  all_goals exact h.loop

theorem retransmit (h : Says Q a) (b : Bool) : Says Q (a.retransmit b) := by
  refine ⟨fun o ho ↦ ?_, h.repeats⟩
  rcases List.mem_append.mp ho with ho | ho
  · exact h.outbox o ho
  · split at ho
    · exact h.repeats o ho
    · cases ho

theorem send (h : Says Q a) (hQ : ∀ raw, IsFrame raw → Q (raw, A)) {protocol : ProtocolType} {n : Nat}
    {ack : Option Nat} {isAck isSyn isFin : Bool} {port : UInt16} {peer : Peer}
    (hsend : a.send protocol n ack isAck isSyn isFin port A = .ok (a', peer)) : Says Q a' := by
  obtain ⟨raw, hraw, hsend⟩ := except_bind_eq_ok.mp hsend
  obtain ⟨peer', hpeer, hsend⟩ := except_bind_eq_ok.mp hsend
  obtain ⟨rfl, -⟩ := Prod.mk.inj (Except.ok.inj hsend)
  have hq : Q (raw, peer'.toAddress) := by
    rw [toAddress_of_sendto hpeer]
    exact hQ raw (isFrame_of_encode hraw)
  constructor
  · intro o ho
    rcases List.mem_append.mp ho with ho | ho
    · exact h.outbox o ho
    · exact List.mem_singleton.mp ho ▸ hq
  · intro o ho
    exact List.mem_singleton.mp ho ▸ hq

theorem handshake (h : Says Q a) (hQ : ∀ raw, IsFrame raw → Q (raw, A)) (packet : Packet)
    (now : Time) : Says Q (Accepter.handshake cfg a packet A bound now) := by
  unfold Accepter.handshake
  split
  · exact h.handle _
  · split
    · split
      · rename_i hsend
        exact (h.send hQ hsend).handle _
      · exact h.handle _
    · split
      · exact h.handle _
      · rename_i hsend
        have hsaid := h.send hQ hsend
        exact ⟨hsaid.outbox, hsaid.repeats⟩

/-- Only a SYN is accepted. -/
theorem accepted {raw : Bytes} {source : Option Address} {packet : Packet}
    (h : a.acceptConnection raw source = .ok (packet, A)) :
    source = some A ∧ (getPacketFromBytes raw).isSyn = true := by
  obtain ⟨⟨packet', A'⟩, hin, hchecks⟩ := except_bind_eq_ok.mp h
  obtain ⟨-, rfl, rfl⟩ := Protocol.validateInboundPacket_eq_ok.mp hin
  dsimp only at hchecks
  split at hchecks
  · cases hchecks
  · rename_i hsyn
    split at hchecks
    · cases hchecks
    · cases hchecks
      exact ⟨rfl, by simpa using hsyn⟩

/-- It is answered at the address it has come from. -/
theorem onAcceptConnection (h : Says Q a)
    (hQ : ∀ A, ServerEvent.Asks (.welcoming ev bound) A → ∀ raw, IsFrame raw → Q (raw, A)) :
    Says Q (Accepter.onAcceptConnection cfg a ev bound) := by
  unfold Accepter.onAcceptConnection
  split
  · rename_i raw source now
    split
    · exact h.handle _
    · rename_i packet A haccept
      obtain ⟨rfl, hsyn⟩ := accepted haccept
      exact h.handshake (hQ A ⟨raw, now, bound, rfl, hsyn⟩) packet now
  · exact h.handle _
  · exact h
  · exact h

theorem onHandshake (h : Says Q a) {A c : Peer} {ack : Option SequenceNumber} {r : ReListen} :
    Says Q (Accepter.onHandshake cfg a A c ack r ev) := by
  unfold Accepter.onHandshake
  split
  · have hb := h.retransmit (by assumption)
    exact ⟨hb.outbox, hb.repeats⟩
  · split
    · rename_i a₁ hadd
      unfold addClient at hadd
      obtain ⟨clients, -, hadd⟩ := except_bind_eq_ok.mp hadd
      obtain rfl := Except.ok.inj hadd
      exact loop ⟨h.outbox, h.repeats⟩
    · exact h.handle _
  · exact (h.retransmit _).handle _

/-- One event of the server -/
theorem step (h : ∀ o ∈ a.welcomingSocket.retransmission, Q o)
    (hQ : ∀ A, e.Asks A → ∀ raw, IsFrame raw → Q (raw, A)) : Says Q (Accepter.step cfg a e) := by
  have hclear : Says Q { a with outbox := [] } := ⟨fun _ ho ↦ (by cases ho), h⟩
  cases e with
  | connection key ev =>
      simp only [Accepter.step, onConnection]
      split
      · exact hclear
      · exact ⟨hclear.outbox, hclear.repeats⟩
  | welcoming ev bound =>
      unfold Accepter.step
      dsimp only
      split
      · split
        · exact hclear.onAcceptConnection hQ
        · exact hclear.onHandshake
      · exact hclear

end Says

/-! ## The server -/

/-- Whom the server speaks to, and in what -/
structure Spoken (es : List ServerEvent) (a : Accepter) : Prop where
  accepter : a.Says fun o ↦ IsFrame o.1 ∧ Asked es o.2
  handshake : ∀ (A c : Peer) ack r, a.point = .handshake A c ack r → Asked es A
  clients : ∀ b ∈ a.clients, Asked es b.2.cfg.clientAddress ∧ b.2.thread.Emits b.2.cfg Plain

theorem Spoken.threads_step (h : Spoken es a) {key : String} {ev : Event} :
    ∀ b ∈ (step cfg a (.connection key ev)).clients,
      Asked es b.2.cfg.clientAddress ∧ b.2.thread.Emits b.2.cfg Plain := by
  intro b hb
  have hturns : Turns cfg a (.connection key ev) (step cfg a (.connection key ev)) :=
    turns_connection key ev
  cases hturns.comes hb with
  | stays hmem => exact h.clients b hmem
  | runs he hmem heq =>
      subst heq
      obtain ⟨hasked, hemits⟩ := h.clients _ hmem
      refine ⟨hasked, ClientConnection.Emits.step composes_plain ?_ _⟩
      exact ⟨⟨hemits.socket, hemits.address, hemits.outbox⟩, hemits.at_point⟩
  | accepted he => cases he

/-- A new connection is one to the client whose SYN is being answered. -/
theorem Spoken.clients_step (h : Spoken es a) (hk : a.clients.Keyed) (cfg : AccepterConfig)
    (e : ServerEvent) : ∀ b ∈ (step cfg a e).clients,
      Asked es b.2.cfg.clientAddress ∧ b.2.thread.Emits b.2.cfg Plain := by
  intro b hb
  cases e with
  | connection key ev => exact h.threads_step b hb
  | welcoming ev bound =>
      have hdoes : Does cfg a (.welcoming ev bound) (step cfg a (.welcoming ev bound)) :=
        step_does hk _
      generalize step cfg a (.welcoming ev bound) = a' at hb hdoes
      cases hdoes with
      | nothing | returns | answers | waits => exact h.clients b hb
      | halted _ _ _ _ hclients => exact h.clients b (hclients ▸ hb)
      | @completes raw B _ A c now ack r _ hp =>
          rcases ClientPool.mem_add.mp hb with rfl | ⟨hb, -⟩
          · exact ⟨h.handshake A c ack r hp, ClientConnection.emits_start composes_plain _ _ _⟩
          · exact h.clients b (List.mem_of_mem_filter hb)

theorem Spoken.handshake_step (h : Spoken es a) (hk : a.clients.Keyed) (cfg : AccepterConfig)
    (e : ServerEvent) {A c : Peer} {ack : Option SequenceNumber} {r : ReListen}
    (hp : (step cfg a e).point = .handshake A c ack r) : Asked (es ++ [e]) A := by
  have hdoes : Does cfg a e (step cfg a e) := step_does hk e
  generalize step cfg a e = a' at hp hdoes
  cases hdoes with
  | thread | nothing => exact (h.handshake A c ack r hp).append _
  | halted _ _ _ _ _ hpoint => exact (h.handshake A c ack r (hpoint ▸ hp)).append _
  | returns | completes => cases hp
  | answers _ _ _ _ hsyn =>
      cases hp
      exact ServerEvent.Asks.asked ⟨_, _, _, rfl, hsyn⟩ es
  | waits _ _ _ hwait =>
      cases hp
      exact (h.handshake A c ack _ hwait).append _

theorem Spoken.step (h : Spoken es a) (hk : a.clients.Keyed) (cfg : AccepterConfig)
    (e : ServerEvent) : Spoken (es ++ [e]) (Accepter.step cfg a e) where
  accepter := Says.step (fun o ho ↦ (h.accepter.repeats o ho).imp_right (·.append e))
    fun _ hasks _ hraw ↦ ⟨hraw, hasks.asked es⟩
  handshake _ _ _ _ hp := h.handshake_step hk cfg e hp
  clients b hb := (h.clients_step hk cfg e b hb).imp_left (·.append e)

theorem run_spoken (cfg : AccepterConfig) (disk : Disk) (es : List ServerEvent) :
    Spoken es (run cfg disk es) := by
  induction es using List.reverseRecOn with
  | nil =>
      refine ⟨⟨fun _ ho ↦ (by cases ho), fun _ ho ↦ (by cases ho)⟩, fun _ _ _ _ hp ↦ (by cases hp), ?_⟩
      exact fun _ hb ↦ absurd hb List.not_mem_nil
  | append_singleton es e ih =>
      rw [run_append]
      exact ih.step (run_keyed cfg disk es) cfg e

/-- Whatever arrives, the server hands over frames only, and none for an address that no SYN has come
from; what a connection hands over is for its client, and opens no connection. -/
theorem speaks_when_asked (cfg : AccepterConfig) (disk : Disk) (es : List ServerEvent) :
    (∀ o ∈ (run cfg disk es).outbox, IsFrame o.1 ∧ Asked es o.2) ∧
      ∀ b ∈ (run cfg disk es).clients, Asked es b.2.cfg.clientAddress ∧
        ∀ o ∈ b.2.thread.outbox, Plain o.1 ∧ o.2 = b.2.cfg.clientAddress := by
  have h := run_spoken cfg disk es
  refine ⟨h.accepter.outbox, fun b hb ↦ ?_⟩
  obtain ⟨hasked, hemits⟩ := h.clients b hb
  exact ⟨hasked, hemits.outbox⟩

end Accepter

end Rdt.Server
