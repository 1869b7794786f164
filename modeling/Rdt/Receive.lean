import Rdt.Common.Codec
import Rdt.Server.Protocol
import Rdt.Client.Protocol

/-!
# All receive operations, and what can arrive

The receiver drops the type that `get_packet_from_bytes` returns next to the packet, so that a
frame of the other protocol goes through the same checks as one of its own.
-/

namespace Rdt

open PacketParser

/-- The exceptions of `lib/*/exceptions` -/
def projectExceptions : List ExnClass :=
  [.connectionLost, .invalidAckNumber, .invalidFilename, .invalidSequenceNumber, .messageIsNotAck,
    .messageIsNotFin, .messageIsNotFinAck, .messageIsNotSyn, .messageNotFinNorAck,
    .retransmissionNeeded, .socketShutdown, .unexpectedFinMessage, .connectionRefused,
    .fileAlreadyExists, .fileDoesNotExist, .fileTooBig, .missingServerAddress,
    .clientAlreadyConnected, .missingClientAddress, .protocolMismatch, .unexpectedOperation]

/-- The receive operations that are used once the protocol is agreed, class by class.
`accept_connection`, which agrees on it, is none of them. -/
inductive Receive where
  | serverExpectHandshakeCompletion
  | serverReceiveFilename
  | serverReceiveFilesize
  | serverReceiveFileChunk
  | serverWaitForAck
  | serverWaitForFinOrAck
  | serverGbnReceiveFileChunk
  | serverGbnWaitForAck
  | accepterExpectHandshakeCompletion
  | accepterReceiveOperationIntention
  | accepterReceiveFilename
  | accepterReceiveFilesize
  | accepterReceiveFileChunk
  | accepterWaitForAck
  | clientWaitForConnectionRequestAnswer
  | clientWaitForOperationConfirmation
  | clientWaitForAck
  | clientReceiveFileChunkSaw
  | clientWaitForFinOrAck
  | clientGbnWaitForAck
  | clientGbnReceiveFileChunk
deriving DecidableEq, Repr

/-- What an endpoint waits with: its protocol, the numbers it expects, the exceptions that the call
lets through. -/
structure Awaited where
  version : ProtocolType
  sequenceNumber : SequenceNumber
  ackNumber : SequenceNumber
  exceptionsToLetThrough : List ExnClass

/-- The ACK number is looked at under Go-Back-N only. -/
def Awaited.ackNumber? (w : Awaited) : Option SequenceNumber :=
  match w.version with
  | .stopAndWait => none
  | .goBackN => some w.ackNumber

namespace Receive

/-- One event in a receive of the Go-Back-N classes -/
def onSocketGbn (bufferSize : Nat) (wait : Bytes → Option Address → Except Exn Packet)
    (r : ReListen) (ev : Event) : Listened Unit :=
  match SocketGbn.recvfrom bufferSize ev with
  | none => .listening r false
  | some (.error e) => .raised e false
  | some (.ok (raw, source)) =>
      match wait raw source with
      | .ok _ => .returned ()
      | .error e => .raised e false

/-- One event in a receive of the other classes -/
def onSocketSaw {α : Type} (op : Operation α) (w : Awaited) (s : SocketSaw) (r : ReListen)
    (ev : Event) : Listened Unit :=
  (reListenIfFailed (op.letThrough w.exceptionsToLetThrough) s r ev).void

/-- One event while the operation waits -/
def listen (w : Awaited) (s : SocketSaw) (r : ReListen) (ev : Event) : Receive → Listened Unit
  | serverExpectHandshakeCompletion =>
      onSocketSaw ServerProtocol.expectHandshakeCompletion w s r ev
  | serverReceiveFilename =>
      onSocketSaw (ServerProtocol.receiveFilename w.version w.sequenceNumber) w s r ev
  | serverReceiveFilesize =>
      onSocketSaw (ServerProtocol.receiveFilesize w.version w.sequenceNumber) w s r ev
  | serverReceiveFileChunk =>
      onSocketSaw (ServerProtocol.receiveFileChunk w.version w.sequenceNumber) w s r ev
  | serverWaitForAck => onSocketSaw (ServerProtocol.waitForAck w.sequenceNumber) w s r ev
  | serverWaitForFinOrAck => onSocketSaw (ServerProtocol.waitForFinOrAck w.sequenceNumber) w s r ev
  | serverGbnReceiveFileChunk =>
      onSocketGbn fullBufferSize (ServerProtocolGbn.receiveFileChunkNumbered w.sequenceNumber) r ev
  | serverGbnWaitForAck => onSocketGbn commsBufferSize (ServerProtocolGbn.waitForAck w.ackNumber) r ev
  | accepterExpectHandshakeCompletion =>
      onSocketSaw (AccepterProtocol.expectHandshakeCompletion w.ackNumber?) w s r ev
  | accepterReceiveOperationIntention =>
      onSocketSaw (AccepterProtocol.receiveOperationIntention w.version) w s r ev
  | accepterReceiveFilename =>
      onSocketSaw (AccepterProtocol.receiveFilename w.version w.sequenceNumber) w s r ev
  | accepterReceiveFilesize =>
      onSocketSaw (AccepterProtocol.receiveFilesize w.version w.sequenceNumber) w s r ev
  | accepterReceiveFileChunk =>
      onSocketSaw (AccepterProtocol.receiveFileChunk w.version w.sequenceNumber) w s r ev
  | accepterWaitForAck => onSocketSaw (AccepterProtocol.waitForAck w.sequenceNumber) w s r ev
  | clientWaitForConnectionRequestAnswer =>
      onSocketSaw (ClientProtocol.waitForConnectionRequestAnswer w.sequenceNumber w.ackNumber?) w s r ev
  | clientWaitForOperationConfirmation =>
      onSocketSaw (ClientProtocol.waitForOperationConfirmation w.sequenceNumber w.ackNumber?) w s r ev
  | clientWaitForAck =>
      onSocketSaw (ClientProtocol.waitForAck w.sequenceNumber w.ackNumber?) w s r ev
  | clientReceiveFileChunkSaw =>
      onSocketSaw (ClientProtocol.receiveFileChunkSaw w.version w.sequenceNumber) w s r ev
  | clientWaitForFinOrAck =>
      onSocketSaw (ClientProtocol.waitForFinOrAck w.sequenceNumber w.ackNumber?) w s r ev
  | clientGbnWaitForAck => onSocketGbn commsBufferSize ClientProtocolGbn.waitForAck r ev
  | clientGbnReceiveFileChunk =>
      onSocketGbn fullBufferSize (ClientProtocolGbn.receiveFileChunkNumbered w.sequenceNumber) r ev

/-- The operations that read whole chunks have the larger buffer. -/
def bufferSize : Receive → Nat
  | serverReceiveFilename | serverReceiveFileChunk | serverGbnReceiveFileChunk
  | accepterReceiveFilename | accepterReceiveFileChunk | clientReceiveFileChunkSaw
  | clientGbnReceiveFileChunk => fullBufferSize
  | _ => commsBufferSize

/-- The protocol of the endpoint -/
def own (w : Awaited) : Receive → ProtocolType
  | serverGbnReceiveFileChunk | serverGbnWaitForAck | clientGbnWaitForAck
  | clientGbnReceiveFileChunk => .goBackN
  | _ => w.version

/-- The header of the frame carries the protocol. -/
def Carries (version : ProtocolType) (frame : Bytes) : Prop := versionOf frame = versionBits version

instance (version : ProtocolType) (frame : Bytes) : Decidable (Carries version frame) :=
  inferInstanceAs (Decidable (_ = _))

/-- An event makes the operation return a packet of the endpoint's own protocol, or raise one of the
project's exceptions, if it makes it return or raise anything. -/
def Meets (w : Awaited) (s : SocketSaw) (r : ReListen) (ev : Event) (o : Receive) : Prop :=
  (∀ u, o.listen w s r ev = .returned u → ∃ raw source now, ev = .datagram raw source now ∧
    Carries (o.own w) (raw.take o.bufferSize)) ∧
  ∀ e b, o.listen w s r ev = .raised e b → e.cls ∈ projectExceptions

/-- No check turns the packet down before it is accepted, or has its ACK number looked at. -/
def Reads (w : Awaited) (p : Packet) : Receive → Prop
  | serverExpectHandshakeCompletion => p.isAck = true ∧ p.isFin = false
  | serverReceiveFilename | serverReceiveFilesize | serverReceiveFileChunk
  | serverGbnReceiveFileChunk | accepterReceiveFilename | accepterReceiveFilesize
  | accepterReceiveFileChunk | clientReceiveFileChunkSaw | clientGbnReceiveFileChunk =>
      p.sequenceNumber = w.sequenceNumber.value
  | serverWaitForAck =>
      p.isAck = true ∧ p.isFin = false ∧ p.sequenceNumber = w.sequenceNumber.value
  | serverWaitForFinOrAck | clientWaitForFinOrAck =>
      p.sequenceNumber = w.sequenceNumber.value ∧ (p.isAck = true ∨ p.isFin = true)
  | serverGbnWaitForAck => p.isAck = true
  | accepterExpectHandshakeCompletion =>
      p.isAck = true ∧ (w.version = .stopAndWait → p.isFin = false)
  | accepterReceiveOperationIntention =>
      BigEndian.fromBytes p.data = uploadOperation ∨ BigEndian.fromBytes p.data = downloadOperation
  | accepterWaitForAck => True
  | clientWaitForConnectionRequestAnswer =>
      p.isAck = true ∧ (w.version = .stopAndWait →
        p.isFin = false ∧ p.sequenceNumber = w.sequenceNumber.value ∧ p.isSyn = true)
  | clientWaitForOperationConfirmation | clientWaitForAck =>
      p.isAck = true ∧ (w.version = .stopAndWait →
        p.isFin = false ∧ p.sequenceNumber = w.sequenceNumber.value)
  | clientGbnWaitForAck => p.isFin = false

/-- Where a name is awaited the payload is one. -/
def Decodes (p : Packet) : Receive → Prop
  | serverReceiveFilename | accepterReceiveFilename => ∃ name, decodeUtf8 p.data = .ok name
  | _ => True

/-- The packet is of the endpoint's own protocol, unless it is turned down before that matters. -/
def Suits (w : Awaited) (frame : Bytes) (o : Receive) : Prop :=
  o.Decodes (getPacketFromBytes frame) ∧
    (o.Reads w (getPacketFromBytes frame) → Carries (o.own w) frame)

/-- What may arrive: a datagram that suits, or an empty one or one without a source. -/
def Admits (w : Awaited) (o : Receive) : Event → Prop
  | .datagram raw source _ =>
      o ≠ accepterWaitForAck ∧
        (raw = [] ∨ source = none ∨ o.Suits w (raw.take o.bufferSize))
  | _ => True

/-! ## The result of the checks -/

/-- The property of one check of a packet: `Q` says that it may be accepted. -/
def Keeps {α : Type} (Q : Prop) (x : Except Exn α) : Prop :=
  (∀ a, x = .ok a → Q) ∧ ∀ e, x = .error e → e.cls ∈ projectExceptions

section Keeps

variable {α β : Type} {Q : Prop} {p : Packet}

theorem keeps_ok {a : α} : Keeps Q (.ok a) ↔ Q :=
  ⟨fun h ↦ h.1 a rfl, fun h ↦ ⟨fun _ _ ↦ h, fun _ he ↦ (by cases he)⟩⟩

theorem keeps_error {e : Exn} : Keeps Q (.error e : Except Exn α) ↔ e.cls ∈ projectExceptions :=
  ⟨fun h ↦ h.2 e rfl, fun h ↦ ⟨fun _ ha ↦ (by cases ha), fun _ he ↦ Except.error.inj he ▸ h⟩⟩

/-- A guard that raises one of the project's exceptions if it does not hold -/
theorem keeps_guard {G : Prop} {guard : Except Exn Unit} {f : Unit → Except Exn α}
    (hok : guard = .ok () ↔ G) (herror : ∀ e, guard = .error e → e.cls ∈ projectExceptions) :
    Keeps Q (guard >>= f) ↔ (G → Keeps Q (f ())) := by
  cases guard with
  | ok => exact ⟨fun h _ ↦ h, fun h ↦ h (hok.mp rfl)⟩
  | error e =>
      refine iff_of_true (keeps_error.mpr (herror e rfl)) fun hG ↦ ?_
      cases hok.mpr hG

theorem keeps_sequenceNumber {exn : Exn} {n : SequenceNumber} {f : Unit → Except Exn α}
    (hexn : exn.cls ∈ projectExceptions) :
    Keeps Q (Protocol.validateSequenceNumber exn p n >>= f) ↔
      (p.sequenceNumber = n.value → Keeps Q (f ())) :=
  keeps_guard Protocol.validateSequenceNumber_eq_ok
    fun _ he ↦ (Protocol.validateSequenceNumber_error he).1 ▸ hexn

/-- The check that an operation ends with -/
theorem keeps_last_sequenceNumber {exn : Exn} {n : SequenceNumber} (hexn : exn.cls ∈ projectExceptions) :
    Keeps Q (Protocol.validateSequenceNumber exn p n) ↔
      (p.sequenceNumber = n.value → Q) := by
  rw [← bind_pure (Protocol.validateSequenceNumber exn p n), keeps_sequenceNumber hexn]
  exact imp_congr_right fun _ ↦ keeps_ok

theorem keeps_ack {exn : Exn} {f : Unit → Except Exn α} (hexn : exn.cls ∈ projectExceptions) :
    Keeps Q (Protocol.validateAck exn p >>= f) ↔ (p.isAck = true → Keeps Q (f ())) :=
  keeps_guard Protocol.validateAck_eq_ok fun _ he ↦ (Protocol.validateAck_error he).1 ▸ hexn

theorem keeps_notFin {f : Unit → Except Exn α} :
    Keeps Q (Protocol.validateNotFin p >>= f) ↔ (p.isFin = false → Keeps Q (f ())) :=
  keeps_guard Protocol.validateNotFin_eq_ok fun _ he ↦
    (Protocol.validateNotFin_error he).1 ▸ show ExnClass.unexpectedFinMessage ∈ projectExceptions by decide

/-- A packet without an ACK number makes the check fail with an `AttributeError`. -/
theorem keeps_ackNumber {n : SequenceNumber} {f : Unit → Except Exn α} :
    Keeps Q (ClientProtocol.validateAckNumber p n >>= f) ↔
      p.ackNumber ≠ none ∧ (p.ackNumber = some n.value → Keeps Q (f ())) := by
  cases hack : p.ackNumber with
  | none =>
      have herror : ClientProtocol.validateAckNumber p n = .error ExnClass.attributeError.exn := by
        unfold ClientProtocol.validateAckNumber Packet.getAckNumber
        rw [hack]
        rfl
      rw [herror]
      exact iff_of_false (fun h ↦ absurd (keeps_error.mp h) (by decide)) fun h ↦ h.1 rfl
  | some m =>
      refine (keeps_guard (G := m = n.value) ?_ fun e he ↦ ?_).trans ⟨fun h ↦ ⟨Option.some_ne_none m,
        fun heq ↦ h (Option.some.inj heq)⟩, fun h heq ↦ h.2 (congrArg some heq)⟩
      · rw [ClientProtocol.validateAckNumber_eq_ok, hack, Option.some_inj]
      · rcases ClientProtocol.validateAckNumber_error he with hcls | hcls
        · unfold ClientProtocol.validateAckNumber Packet.getAckNumber at he
          simp only [hack, bind, Except.bind] at he
          split at he
          · rw [← Except.error.inj he] at hcls
            cases hcls
          · cases he
        · rw [hcls]
          decide

/-- What comes with a source and is not empty is parsed, and goes through the other checks. -/
theorem keeps_inbound {missing : ExnClass} {raw : Bytes} {source : Option Address}
    {f : Packet × Address → Except Exn α} (hmissing : missing ∈ projectExceptions) :
    Keeps Q (Protocol.validateInboundPacket missing raw source >>= f) ↔
      (raw = [] ∨ source = none ∨ ∀ a ∈ source, Keeps Q (f (getPacketFromBytes raw, a))) := by
  cases hin : Protocol.validateInboundPacket missing raw source with
  | error e =>
      have hcls : e.cls ∈ projectExceptions := by
        rcases Protocol.validateInboundPacket_error hin with h | h
        · rw [h]
          decide
        · rwa [h]
      refine iff_of_true (keeps_error.mpr hcls) ?_
      by_contra hno
      obtain ⟨hraw, hsource, -⟩ := not_or.mp hno |>.imp_right not_or.mp
      obtain ⟨a, rfl⟩ := Option.ne_none_iff_exists'.mp hsource
      rw [Protocol.validateInboundPacket_of_ne_nil hraw a] at hin
      cases hin
  | ok r =>
      obtain ⟨hraw, rfl, hr⟩ := Protocol.validateInboundPacket_eq_ok.mp hin
      obtain ⟨packet, a⟩ := r
      dsimp only at hr
      subst hr
      refine ⟨fun h ↦ .inr (.inr fun b hb ↦ ?_), ?_⟩
      · obtain rfl := Option.some.inj hb
        exact h
      · rintro (h | h | h)
        · exact absurd h hraw
        · cases h
        · exact h a rfl

end Keeps

/-! ## From an event to the checks -/

variable {α : Type} {w : Awaited} {s : SocketSaw} {r : ReListen} {ev : Event} {o : Receive}

theorem mem_projectExceptions_of_catch {e : Exn} {es : List ExnClass}
    (h : e.cls ∈ configureWantedExceptionsToCatch es) : e.cls ∈ projectExceptions := by
  have hall : ∀ cls ∈ wantToCatchAll, cls ∈ projectExceptions := by decide
  exact hall _ (List.mem_filter.mp h).1

/-- Without a datagram only a failed receive can end the operation. -/
theorem fails_of_no_datagram {op : Operation α} {e : Exn}
    (hev : ∀ raw source now, ev ≠ .datagram raw source now) (h : op.Fails s r ev e) :
    ∃ cls ∈ [ExnClass.connectionLost, .socketShutdown], e = op.onFailure cls.exn := by
  rcases h with ⟨raw, source, hr, -⟩ | ⟨e', hr, rfl⟩
  · obtain ⟨raw', now, rfl, -⟩ := ReListen.recvfrom_packet hr
    exact absurd rfl (hev _ _ _)
  · rcases ReListen.recvfrom_failed hr with rfl | rfl
    · exact ⟨.connectionLost, by decide, rfl⟩
    · exact ⟨.socketShutdown, by decide, rfl⟩

variable (w s r) in
theorem onSocketSaw_of_no_datagram (op : Operation α)
    (hev : ∀ raw source now, ev ≠ .datagram raw source now) :
    (∃ r' b, onSocketSaw op w s r ev = .listening r' b) ∨
      ∃ cls ∈ [ExnClass.connectionLost, .socketShutdown], ∃ b,
        onSocketSaw op w s r ev = .raised (op.onFailure cls.exn) b := by
  unfold onSocketSaw
  cases h : reListenIfFailed (op.letThrough w.exceptionsToLetThrough) s r ev with
  | listening r' b => exact .inl ⟨r', b, rfl⟩
  | returned a =>
      obtain ⟨raw, source, hr, -⟩ := returned_check h
      obtain ⟨raw', now, rfl, -⟩ := ReListen.recvfrom_packet hr
      exact absurd rfl (hev _ _ _)
  | raised e b =>
      obtain ⟨cls, hcls, rfl⟩ := fails_of_no_datagram hev (fails_of_raised h)
      exact .inr ⟨cls, hcls, b, rfl⟩

variable (w s r) in
/-- The wrapper catches exceptions of the project only. -/
theorem onSocketSaw_error {op : Operation α} {raw : Bytes} {source : Option Address} (now : Time)
    {e : Exn} (hc : op.check (raw.take op.bufferSize) source = .error e) :
    e.cls ∈ projectExceptions ∧
        (∃ r' b, onSocketSaw op w s r (.datagram raw source now) = .listening r' b) ∨
      ∃ b, onSocketSaw op w s r (.datagram raw source now) = .raised e b := by
  have hlistened : reListenIfFailed (op.letThrough w.exceptionsToLetThrough) s r
      (.datagram raw source now) =
        if e.cls ∈ configureWantedExceptionsToCatch w.exceptionsToLetThrough then r.caught e now
        else .raised e false := reListen_of_error hc
  unfold onSocketSaw
  rw [hlistened]
  by_cases hcaught : e.cls ∈ configureWantedExceptionsToCatch w.exceptionsToLetThrough
  · rw [if_pos hcaught]
    by_cases hx : r.Exhausted now
    · rw [ReListen.caught_of_exhausted hx]
      exact .inr ⟨true, rfl⟩
    · obtain ⟨r', hr'⟩ := ReListen.caught_of_not_exhausted (α := α) (e := e) hx
      rw [hr']
      exact .inl ⟨mem_projectExceptions_of_catch hcaught, r', true, rfl⟩
  · rw [if_neg hcaught]
    exact .inr ⟨false, rfl⟩

/-- Whatever the wrapper does, only the check of a datagram matters. -/
theorem meets_onSocketSaw {op : Operation α} (hop : o.listen w s r ev = onSocketSaw op w s r ev)
    (hsize : op.bufferSize = o.bufferSize)
    (hfailure : ∀ cls ∈ [ExnClass.connectionLost, .socketShutdown],
      (op.onFailure cls.exn).cls ∈ projectExceptions) :
    o.Meets w s r ev ↔ ∀ raw source now, ev = .datagram raw source now →
      Keeps (Carries (o.own w) (raw.take o.bufferSize))
        (op.check (raw.take o.bufferSize) source) := by
  unfold Meets
  rw [hop, ← hsize]
  by_cases hev : ∃ raw source now, ev = .datagram raw source now
  · obtain ⟨raw, source, now, rfl⟩ := hev
    refine Iff.trans ?_ (b := Keeps (Carries (o.own w) (raw.take op.bufferSize))
      (op.check (raw.take op.bufferSize) source)) ⟨?_, fun h ↦ h _ _ _ rfl⟩
    · cases hc : op.check (raw.take op.bufferSize) source with
      | ok a =>
          have hreturned : onSocketSaw op w s r (.datagram raw source now) = .returned () := by
            have hlistened : reListenIfFailed (op.letThrough w.exceptionsToLetThrough) s r
                (.datagram raw source now) = .returned a := reListen_accepts hc
            unfold onSocketSaw
            rw [hlistened]
            rfl
          rw [hreturned, keeps_ok]
          refine ⟨fun h ↦ ?_, fun h ↦ ⟨fun _ _ ↦ ⟨_, _, _, rfl, h⟩, fun _ _ he ↦ (by cases he)⟩⟩
          obtain ⟨raw', source', now', hev, hproto⟩ := h.1 () rfl
          obtain ⟨rfl, -, -⟩ := Event.datagram.inj hev
          exact hproto
      | error e =>
          rw [keeps_error]
          rcases onSocketSaw_error w s r now hc with
            ⟨hown, r', b, hlistening⟩ | ⟨b, hraised⟩
          · rw [hlistening]
            exact iff_of_true ⟨fun _ hu ↦ (by cases hu), fun _ _ he ↦ (by cases he)⟩ hown
          · rw [hraised]
            refine ⟨fun h ↦ h.2 e b rfl, fun h ↦ ⟨fun _ hu ↦ (by cases hu), fun e' b' he ↦ ?_⟩⟩
            obtain ⟨rfl, -⟩ := Listened.raised.inj he
            exact h
    · rintro h raw' source' now' hev
      obtain ⟨rfl, rfl, rfl⟩ := Event.datagram.inj hev
      exact h
  · have hno : ∀ raw source now, ev ≠ .datagram raw source now :=
      fun raw source now h ↦ hev ⟨raw, source, now, h⟩
    refine iff_of_true ?_ fun raw source now h ↦ absurd h (hno raw source now)
    rcases onSocketSaw_of_no_datagram w s r op hno with ⟨r', b, h⟩ | ⟨cls, hcls, b, h⟩
    · rw [h]
      exact ⟨fun _ hu ↦ (by cases hu), fun _ _ he ↦ (by cases he)⟩
    · rw [h]
      refine ⟨fun _ hu ↦ (by cases hu), fun e' b' he ↦ ?_⟩
      obtain ⟨rfl, -⟩ := Listened.raised.inj he
      exact hfailure cls hcls

/-- The Go-Back-N classes have no wrapper. -/
theorem meets_onSocketGbn {wait : Bytes → Option Address → Except Exn Packet}
    (hop : o.listen w s r ev = onSocketGbn o.bufferSize wait r ev) :
    o.Meets w s r ev ↔ ∀ raw source now, ev = .datagram raw source now →
      Keeps (Carries (o.own w) (raw.take o.bufferSize))
        (wait (raw.take o.bufferSize) source) := by
  unfold Meets
  rw [hop]
  unfold onSocketGbn
  cases ev with
  | datagram raw source now =>
      refine Iff.trans ?_ (b := Keeps (Carries (o.own w) (raw.take o.bufferSize))
        (wait (raw.take o.bufferSize) source)) ⟨?_, fun h ↦ h _ _ _ rfl⟩
      · simp only [SocketGbn.recvfrom]
        cases hc : wait (raw.take o.bufferSize) source with
        | ok packet =>
            rw [keeps_ok]
            refine ⟨fun h ↦ ?_, fun h ↦ ⟨fun _ _ ↦ ⟨_, _, _, rfl, h⟩, fun _ _ he ↦ (by cases he)⟩⟩
            obtain ⟨raw', source', now', hev, hproto⟩ := h.1 () rfl
            obtain ⟨rfl, -, -⟩ := Event.datagram.inj hev
            exact hproto
        | error e =>
            rw [keeps_error]
            refine ⟨fun h ↦ h.2 e false rfl, fun h ↦ ⟨fun _ hu ↦ (by cases hu), fun e' b he ↦ ?_⟩⟩
            obtain ⟨rfl, -⟩ := Listened.raised.inj he
            exact h
      · rintro h raw' source' now' hev
        obtain ⟨rfl, rfl, rfl⟩ := Event.datagram.inj hev
        exact h
  | timeout now =>
      refine iff_of_true ⟨fun _ hu ↦ (by cases hu), fun e b he ↦ ?_⟩ (by rintro _ _ _ h; cases h)
      obtain ⟨rfl, -⟩ := Listened.raised.inj he
      decide
  | osError now =>
      refine iff_of_true ⟨fun _ hu ↦ (by cases hu), fun e b he ↦ ?_⟩ (by rintro _ _ _ h; cases h)
      obtain ⟨rfl, -⟩ := Listened.raised.inj he
      decide
  | proceed now =>
      exact iff_of_true ⟨fun _ hu ↦ (by cases hu), fun _ _ he ↦ (by cases he)⟩
        (by rintro _ _ _ h; cases h)

/-- What a check after `validate_inbound_packet` asks of what arrives -/
theorem admits_iff {check : Bytes → Option Address → Except Exn α} {missing : ExnClass}
    {f : Packet × Address → Except Exn α} (hne : o ≠ accepterWaitForAck)
    (hmissing : missing ∈ projectExceptions)
    (hcheck : ∀ raw source, check raw source = Protocol.validateInboundPacket missing raw source >>= f)
    (hf : ∀ raw a, Keeps (Carries (o.own w) raw) (f (getPacketFromBytes raw, a)) ↔
      o.Suits w raw) :
    (∀ raw source now, ev = .datagram raw source now →
      Keeps (Carries (o.own w) (raw.take o.bufferSize))
        (check (raw.take o.bufferSize) source)) ↔ o.Admits w ev := by
  have hpos : o.bufferSize ≠ 0 := by
    cases o <;> decide
  cases ev with
  | timeout | osError | proceed => exact iff_of_true (by rintro _ _ _ h; cases h) trivial
  | datagram raw source now =>
      have hnil : raw.take o.bufferSize = [] ↔ raw = [] := by
        rw [List.take_eq_nil_iff, or_iff_right hpos]
      refine Iff.trans ?_ (b := Keeps (Carries (o.own w) (raw.take o.bufferSize))
        (check (raw.take o.bufferSize) source)) ?_
      · refine ⟨fun h ↦ h _ _ _ rfl, fun h raw' source' now' hev ↦ ?_⟩
        obtain ⟨rfl, rfl, rfl⟩ := Event.datagram.inj hev
        exact h
      · rw [hcheck, keeps_inbound hmissing, hnil]
        refine Iff.trans ?_ (and_iff_right hne).symm
        refine or_congr Iff.rfl ?_
        cases source with
        | none => exact iff_of_true (.inl rfl) (.inl rfl)
        | some a =>
            refine or_congr Iff.rfl ⟨fun h ↦ (hf _ a).mp (h a rfl), fun h b _ ↦ (hf _ b).mpr h⟩

/-! ## Operation by operation -/

section Operations

variable {raw : Bytes} {a : Address}

theorem ackNumber_ne_none_iff (raw : Bytes) :
    (getPacketFromBytes raw).ackNumber ≠ none ↔ Carries .goBackN raw := by
  by_cases h : versionOf raw = 0b01
  · rw [getPacketFromBytes_of_gbn h]
    exact iff_of_true (Option.some_ne_none _) h
  · rw [getPacketFromBytes_of_not_gbn h]
    exact iff_of_false (fun hne ↦ hne rfl) h

/-- `if GO_BACK_N: validate_ack_number` -/
def validateAckNumber? (p : Packet) : Option SequenceNumber → Except Exn Unit
  | some n => ClientProtocol.validateAckNumber p n
  | none => .ok ()

/-- Under Go-Back-N a packet whose ACK number is looked at has to have one. -/
theorem keeps_ackNumber? {f : Unit → Except Exn α} {version : ProtocolType} {w : Awaited} {G : Prop}
    (hversion : version = w.version)
    (hf : Keeps (Carries version raw) (f ()) ↔
      (G → Carries version raw)) :
    Keeps (Carries version raw)
        (validateAckNumber? (getPacketFromBytes raw) w.ackNumber? >>= f) ↔
      ((version = .stopAndWait → G) → Carries version raw) := by
  subst hversion
  cases hv : w.version with
  | stopAndWait =>
      rw [hv] at hf
      simp only [Awaited.ackNumber?, hv]
      exact hf.trans (imp_congr_left (by simp))
  | goBackN =>
      rw [hv] at hf
      simp only [Awaited.ackNumber?, hv, validateAckNumber?]
      rw [keeps_ackNumber, ackNumber_ne_none_iff, hf]
      exact ⟨fun h _ ↦ h.1, fun h ↦ ⟨h (fun hne ↦ (by cases hne)), fun _ _ ↦ h (fun hne ↦ (by cases hne))⟩⟩

theorem keeps_if {Q : Prop} {b : Bool} {e : Exn} {x : Except Exn α}
    (he : e.cls ∈ projectExceptions) :
    Keeps Q (if b then .error e else x) ↔ (b = false → Keeps Q x) := by
  cases b with
  | false => exact ⟨fun h _ ↦ h, fun h ↦ h rfl⟩
  | true => exact iff_of_true (keeps_error.mpr he) fun h ↦ (by cases h)

theorem keeps_if_bind {β : Type} {Q : Prop} {b : Bool} {e : Exn}
    {x : β} {f : β → Except Exn α} (he : e.cls ∈ projectExceptions) :
    Keeps Q ((if b then .error e else pure x) >>= f) ↔
      (b = false → Keeps Q (f x)) := by
  cases b with
  | false => exact ⟨fun h _ ↦ h, fun h ↦ h rfl⟩
  | true => exact iff_of_true (keeps_error.mpr he) fun h ↦ (by cases h)

/-- The operations that look at the number of the packet alone -/
theorem keeps_numbered {Q : Prop} {p : Packet} {cls : ExnClass} {packet : Option Packet}
    {n : SequenceNumber} {x : α} (hcls : cls ∈ projectExceptions) :
    Keeps Q (Protocol.validateSequenceNumber ⟨cls, packet⟩ p n >>= fun _ ↦ pure x) ↔
      True ∧ (p.sequenceNumber = n.value → Q) := by
  rw [keeps_sequenceNumber hcls, true_and]
  exact imp_congr_right fun _ ↦ keeps_ok

theorem map_fst_bind {x : Except Exn (Packet × Address)} {f : Packet → Except Exn α} :
    (x.map Prod.fst >>= f) = x >>= fun r ↦ f r.1 := by
  cases x <;> rfl

theorem map_fst_eq {x : Except Exn (Packet × Address)} :
    x.map Prod.fst = x >>= fun r ↦ pure r.1 := by
  cases x <;> rfl

theorem keeps_operation {Q : Prop} {p : Packet} {f : Nat → α} :
    Keeps Q (ServerProtocol.processOperationIntention p >>= fun opCode ↦ pure (f opCode)) ↔
      (BigEndian.fromBytes p.data = uploadOperation ∨ BigEndian.fromBytes p.data = downloadOperation →
        Q) := by
  unfold ServerProtocol.processOperationIntention
  dsimp only
  split
  · rename_i h
    exact iff_of_true (keeps_error.mpr (by decide)) fun h' ↦ absurd h' (not_or.mpr h)
  · rename_i h
    have hop := (not_and_or.mp h).imp not_not.mp not_not.mp
    exact keeps_ok.trans ⟨fun hproto _ ↦ hproto, fun hproto ↦ hproto hop⟩

/-- A payload that is no name makes the decoding fail with a `UnicodeDecodeError`. -/
theorem keeps_filename {Q : Prop} {p : Packet} {cls : ExnClass}
    {packet : Option Packet} {n : SequenceNumber} {x : String → α} (hcls : cls ∈ projectExceptions) :
    Keeps Q (decodeUtf8 p.data >>= fun name ↦
        Protocol.validateSequenceNumber ⟨cls, packet⟩ p n >>= fun _ ↦ pure (x name)) ↔
      (∃ name, decodeUtf8 p.data = .ok name) ∧ (p.sequenceNumber = n.value → Q) := by
  cases hname : decodeUtf8 p.data with
  | error e =>
      have he : e.cls = .unicodeDecodeError := by
        unfold decodeUtf8 at hname
        split at hname
        · cases hname
        · rw [← Except.error.inj hname]
          rfl
      refine iff_of_false (fun h ↦ ?_) fun h ↦ (by cases h.1.choose_spec)
      have hown := keeps_error.mp h
      rw [he] at hown
      exact absurd hown (by decide)
  | ok name =>
      refine Iff.trans (keeps_numbered hcls) ?_
      exact and_congr_left' (iff_of_true trivial ⟨name, rfl⟩)

theorem keeps_finOrAck {Q : Prop} {p : Packet} {e : Exn} {x : Except Exn α}
    (he : e.cls ∈ projectExceptions) (hx : Keeps Q x ↔ Q) :
    Keeps Q (if (!p.isAck && !p.isFin) = true then .error e else x) ↔
      (p.isAck = true ∨ p.isFin = true → Q) := by
  cases p.isAck with
  | true => exact hx.trans ⟨fun h _ ↦ h, fun h ↦ h (.inl rfl)⟩
  | false =>
      cases p.isFin with
      | true => exact hx.trans ⟨fun h _ ↦ h, fun h ↦ h (.inr rfl)⟩
      | false =>
          exact iff_of_true (keeps_error.mpr he) fun h ↦ (by rcases h with h | h <;> cases h)

end Operations

/-- The checks of `wait_for_ack` of the server's Go-Back-N class, after the parsing -/
def takesAck (n : SequenceNumber) (p : Packet) : Except Exn Packet :=
  if p.isAck then
    ServerProtocolGbn.validateAckNumber p n >>= fun _ ↦ Protocol.validateNotFin p >>= fun _ ↦ pure p
  else if p.isFin then .error (ExnClass.unexpectedFinMessage.carrying p)
  else .error (ExnClass.messageIsNotAck.carrying p)

theorem serverGbnWaitForAck_eq (n : SequenceNumber) (raw : Bytes) (source : Option Address) :
    ServerProtocolGbn.waitForAck n raw source =
      Protocol.validateInboundPacket .missingClientAddress raw source >>= fun r ↦ takesAck n r.1 := by
  unfold ServerProtocolGbn.waitForAck ServerProtocolGbn.validateInboundAck
    ServerProtocolGbn.validateInboundPacket
  cases hin : Protocol.validateInboundPacket .missingClientAddress raw source with
  | error e =>
      obtain ⟨cls, packet⟩ := e
      rcases Protocol.validateInboundPacket_error hin with h | h <;> dsimp only at h <;> subst h <;> rfl
  | ok r =>
      obtain ⟨p, a⟩ := r
      unfold takesAck
      simp only [bind, Except.bind, pure, Except.pure]
      cases hack : p.isAck with
      | false =>
          have hno : Protocol.validateAck (ExnClass.messageIsNotAck.carrying p) p =
              .error (ExnClass.messageIsNotAck.carrying p) := by
            unfold Protocol.validateAck
            rw [hack]
            rfl
          rw [hno]
          rfl
      | true =>
          have hyes : Protocol.validateAck (ExnClass.messageIsNotAck.carrying p) p = .ok () :=
            Protocol.validateAck_eq_ok.mpr hack
          rw [hyes]
          dsimp only
          cases hn : ServerProtocolGbn.validateAckNumber p n with
          | error e =>
              rcases ServerProtocolGbn.validateAckNumber_error hn with rfl | rfl <;> rfl
          | ok _ =>
              dsimp only
              cases hfin : Protocol.validateNotFin p with
              | error e =>
                  obtain ⟨rfl, -⟩ := Protocol.validateNotFin_error hfin
                  rfl
              | ok _ => rfl

theorem keeps_takesAck {n : SequenceNumber} :
    Keeps (Carries .goBackN raw) (takesAck n (getPacketFromBytes raw)) ↔
      ((getPacketFromBytes raw).isAck = true → Carries .goBackN raw) := by
  unfold takesAck
  cases (getPacketFromBytes raw).isAck with
  | false =>
      refine iff_of_true ?_ fun h ↦ (by cases h)
      cases (getPacketFromBytes raw).isFin with
      | true => exact keeps_error.mpr (show ExnClass.unexpectedFinMessage ∈ projectExceptions by decide)
      | false => exact keeps_error.mpr (show ExnClass.messageIsNotAck ∈ projectExceptions by decide)
  | true =>
      refine Iff.trans ?_ ⟨fun h _ ↦ h, fun h ↦ h rfl⟩
      rw [← ackNumber_ne_none_iff, if_pos rfl]
      cases hn : ServerProtocolGbn.validateAckNumber (getPacketFromBytes raw) n with
      | error e =>
          unfold ServerProtocolGbn.validateAckNumber Packet.getAckNumber at hn
          cases hack : (getPacketFromBytes raw).ackNumber with
          | none =>
              rw [hack] at hn
              obtain rfl := Except.error.inj hn
              exact iff_of_false (fun h ↦ absurd (keeps_error.mp h) (by decide)) fun h ↦ h rfl
          | some m =>
              simp only [hack, bind, Except.bind] at hn
              split at hn
              · cases hn
              · obtain rfl := Except.error.inj hn
                exact iff_of_true (keeps_error.mpr (by decide)) (Option.some_ne_none m)
      | ok _ =>
          refine Iff.trans (b := _ → _) (keeps_notFin (f := fun _ ↦ pure _)) ?_
          have hsome : (getPacketFromBytes raw).ackNumber ≠ none := by
            intro hnone
            unfold ServerProtocolGbn.validateAckNumber Packet.getAckNumber at hn
            rw [hnone] at hn
            cases hn
          exact iff_of_true (fun _ ↦ keeps_ok.mpr hsome) hsome

theorem accepterInboundAck_eq (ack : Option SequenceNumber) (raw : Bytes) (source : Option Address) :
    AccepterProtocol.validateInboundAck raw source ack =
      Protocol.validateInboundPacket .missingClientAddress raw source >>= fun r ↦
        Protocol.validateAck ExnClass.messageIsNotAck.exn r.1 >>= fun _ ↦
          validateAckNumber? r.1 ack >>= fun _ ↦
            if r.1.isFin then .error ExnClass.unexpectedFinMessage.exn else pure r := by
  cases ack <;> rfl

/-- The checks that three operations of the client have in common, after the parsing -/
def confirms (n : SequenceNumber) (ack : Option SequenceNumber) (r : Packet × Address) :
    Except Exn (Packet × Address) :=
  Protocol.validateAck ExnClass.messageIsNotAck.exn r.1 >>= fun _ ↦
    validateAckNumber? r.1 ack >>= fun _ ↦ Protocol.validateNotFin r.1 >>= fun _ ↦
      ClientProtocol.validateSequenceNumber r.1 n >>= fun _ ↦ pure r

theorem validateConfirmation_eq (n : SequenceNumber) (ack : Option SequenceNumber) (raw : Bytes)
    (source : Option Address) :
    ClientProtocol.validateConfirmation n ack raw source =
      Protocol.validateInboundPacket .missingServerAddress raw source >>= confirms n ack := by
  have hinbound : ClientProtocol.validateInboundAck raw source ack =
      Protocol.validateInboundPacket .missingServerAddress raw source >>= fun r ↦
        Protocol.validateAck ExnClass.messageIsNotAck.exn r.1 >>= fun _ ↦
          validateAckNumber? r.1 ack >>= fun _ ↦ pure r := by
    cases ack <;> rfl
  unfold ClientProtocol.validateConfirmation
  rw [hinbound]
  simp only [bind_assoc, pure_bind]
  rfl

theorem keeps_confirms {w : Awaited} {version : ProtocolType} (hversion : version = w.version)
    {f : Packet × Address → Except Exn α} {G : Prop}
    (hf : Keeps (Carries version raw) (f (getPacketFromBytes raw, a)) ↔
      (G → Carries version raw)) :
    Keeps (Carries version raw)
        (confirms w.sequenceNumber w.ackNumber? (getPacketFromBytes raw, a) >>= f) ↔
      ((getPacketFromBytes raw).isAck = true ∧ (version = .stopAndWait →
          (getPacketFromBytes raw).isFin = false ∧
            (getPacketFromBytes raw).sequenceNumber = w.sequenceNumber.value ∧ G) →
        Carries version raw) := by
  unfold confirms
  simp only [bind_assoc, pure_bind]
  rw [keeps_ack (by decide), and_imp]
  refine imp_congr_right fun _ ↦ keeps_ackNumber? hversion ?_
  rw [keeps_notFin, and_imp, and_imp]
  refine imp_congr_right fun _ ↦ (keeps_sequenceNumber (show ExnClass.invalidSequenceNumber ∈
    projectExceptions by decide)).trans (imp_congr_right fun _ ↦ hf)

theorem decodes_and {P Q : Prop} (h : P ↔ Q) : P ↔ True ∧ Q := h.trans (Iff.of_eq (true_and Q)).symm

/-- On every event, at every moment of its wait, an operation returns a packet of its own protocol or
raises one of the project's exceptions, if and only if it is an event that it admits. -/
theorem meets_iff_admits (w : Awaited) (s : SocketSaw) (r : ReListen) (ev : Event) (o : Receive) :
    o.Meets w s r ev ↔ o.Admits w ev := by
  have same : ∀ cls ∈ [ExnClass.connectionLost, .socketShutdown],
      (id cls.exn).cls ∈ projectExceptions := by decide
  have number : ExnClass.invalidSequenceNumber.exn.cls ∈ projectExceptions := by decide
  have inbound : ExnClass.missingClientAddress ∈ projectExceptions := by decide
  have inboundClient : ExnClass.missingServerAddress ∈ projectExceptions := by decide
  cases o with
  | serverExpectHandshakeCompletion =>
      have hop : Receive.serverExpectHandshakeCompletion.listen w s r ev =
          onSocketSaw ServerProtocol.expectHandshakeCompletion w s r ev := rfl
      refine (meets_onSocketSaw hop rfl same).trans
        (admits_iff (by decide) (by decide) (fun _ _ ↦ rfl) fun raw a ↦ decodes_and ?_)
      rw [keeps_ack (by decide), keeps_if (by decide)]
      exact (imp_congr_right fun _ ↦ imp_congr_right fun _ ↦ keeps_ok).trans and_imp.symm
  | serverReceiveFilename | accepterReceiveFilename =>
      exact (meets_onSocketSaw rfl rfl same).trans (admits_iff (by decide) (by decide)
        (fun _ _ ↦ rfl) fun raw a ↦ keeps_filename (by decide))
  | serverReceiveFilesize | serverReceiveFileChunk | accepterReceiveFilesize
  | accepterReceiveFileChunk | clientReceiveFileChunkSaw =>
      exact (meets_onSocketSaw rfl rfl same).trans (admits_iff (by decide) (by decide)
        (fun _ _ ↦ rfl) fun raw a ↦ keeps_numbered (by decide))
  | serverWaitForAck =>
      refine (meets_onSocketSaw rfl rfl same).trans (admits_iff (by decide) (by decide)
        (fun _ _ ↦ bind_assoc _ _ _) fun raw a ↦ decodes_and ?_)
      dsimp only
      rw [bind_assoc, keeps_ack (by decide), keeps_if_bind (by decide), Reads, and_imp, and_imp]
      exact imp_congr_right fun _ ↦ imp_congr_right fun _ ↦ keeps_last_sequenceNumber number
  | serverWaitForFinOrAck =>
      refine (meets_onSocketSaw rfl rfl same).trans (admits_iff (by decide) (by decide)
        (fun _ _ ↦ rfl) fun raw a ↦ decodes_and ((keeps_sequenceNumber number).trans ?_))
      rw [Reads, and_imp]
      exact imp_congr_right fun _ ↦ keeps_finOrAck (by decide) keeps_ok
  | serverGbnReceiveFileChunk =>
      exact (meets_onSocketGbn rfl).trans (admits_iff (by decide) inbound
        (fun _ _ ↦ map_fst_bind) fun raw a ↦ keeps_numbered number)
  | clientGbnReceiveFileChunk =>
      exact (meets_onSocketGbn rfl).trans (admits_iff (by decide) inboundClient
        (fun _ _ ↦ map_fst_bind) fun raw a ↦ keeps_numbered number)
  | clientGbnWaitForAck =>
      refine (meets_onSocketGbn rfl).trans (admits_iff (by decide) inboundClient
        (fun _ _ ↦ rfl) fun raw a ↦ decodes_and ?_)
      exact keeps_notFin.trans (imp_congr_right fun _ ↦ keeps_ok)
  | serverGbnWaitForAck =>
      exact (meets_onSocketGbn rfl).trans (admits_iff (by decide) inbound
        (serverGbnWaitForAck_eq w.ackNumber) fun raw a ↦ decodes_and keeps_takesAck)
  | accepterExpectHandshakeCompletion =>
      refine (meets_onSocketSaw rfl rfl same).trans (admits_iff (by decide) inbound
        (accepterInboundAck_eq w.ackNumber?) fun raw a ↦ decodes_and ((keeps_ack (by decide)).trans ?_))
      rw [Reads, and_imp]
      refine imp_congr_right fun _ ↦ ?_
      exact keeps_ackNumber? rfl ((keeps_if (show ExnClass.unexpectedFinMessage ∈ projectExceptions by
        decide)).trans (imp_congr_right fun _ ↦ keeps_ok))
  | accepterReceiveOperationIntention =>
      refine (meets_onSocketSaw rfl rfl same).trans (admits_iff (by decide) inbound
        (fun _ _ ↦ rfl) fun raw a ↦ decodes_and ?_)
      exact keeps_operation
  | accepterWaitForAck =>
      refine (meets_onSocketSaw rfl rfl same).trans ⟨fun h ↦ ?_, fun h raw source now hev ↦ ?_⟩
      · cases ev with
        | datagram raw source now =>
            exact absurd (keeps_error.mp (h raw source now rfl)) (by decide)
        | timeout | osError | proceed => trivial
      · subst hev
        exact absurd rfl h.1
  | clientWaitForConnectionRequestAnswer =>
      refine (meets_onSocketSaw rfl rfl ?_).trans (admits_iff (f := fun r ↦
        confirms w.sequenceNumber w.ackNumber? r >>= fun r ↦
          if !r.1.isSyn then .error ExnClass.messageIsNotSyn.exn
          else pure ⟨r.2.host, UInt16.ofNat r.1.port⟩) (by decide) inboundClient
        (fun raw source ↦ ?_) fun raw a ↦ decodes_and (keeps_confirms rfl ?_))
      · show ∀ cls ∈ [ExnClass.connectionLost, .socketShutdown], (if cls = .connectionLost then
          ExnClass.connectionRefused.exn else cls.exn).cls ∈ projectExceptions
        decide
      · rw [← bind_assoc, ← validateConfirmation_eq]
        rfl
      · refine (keeps_if (by decide)).trans ?_
        rw [Bool.not_eq_false']
        exact imp_congr_right fun _ ↦ keeps_ok
  | clientWaitForOperationConfirmation | clientWaitForAck =>
      refine (meets_onSocketSaw rfl rfl same).trans (admits_iff (f := fun r ↦
        confirms w.sequenceNumber w.ackNumber? r >>= fun r ↦ pure r.1) (by decide) inboundClient
        (fun raw source ↦ ?_) fun raw a ↦ decodes_and ?_)
      · rw [← bind_assoc, ← validateConfirmation_eq]
        exact map_fst_eq
      · refine (keeps_confirms (f := fun r ↦ pure r.1) (G := True) rfl
          (keeps_ok.trans true_imp_iff.symm)).trans ?_
        rw [and_true]
        rfl
  | clientWaitForFinOrAck =>
      refine (meets_onSocketSaw rfl rfl same).trans (admits_iff (by decide) inboundClient
        (fun _ _ ↦ rfl) fun raw a ↦ decodes_and ((keeps_sequenceNumber number).trans ?_))
      rw [Reads, and_imp]
      refine imp_congr_right fun _ ↦ keeps_finOrAck (by decide) ?_
      show Keeps _ (validateAckNumber? (getPacketFromBytes raw) w.ackNumber?) ↔ _
      rw [← bind_pure (validateAckNumber? _ _)]
      refine (keeps_ackNumber? (G := True) rfl (keeps_ok.trans true_imp_iff.symm)).trans ?_
      exact ⟨fun h ↦ h fun _ ↦ trivial, fun h _ ↦ h⟩

namespace Local

/-- A Stop-and-Wait endpoint that expects the number 0 -/
def awaited : Awaited := ⟨.stopAndWait, ⟨0, .stopAndWait⟩, ⟨0, .stopAndWait⟩, []⟩

/-- A Go-Back-N packet with the number 0 and one byte of data -/
def foreign : Event :=
  .datagram [64, 0, 19, 137, 0, 0, 0, 1, 0, 0, 0, 0, 0, 0, 0, 0, 7] (some ⟨"127.0.0.1", 5001⟩) 0

end Local

/-- It is taken for a chunk. -/
theorem not_meets_foreign :
    ¬serverReceiveFileChunk.Meets Local.awaited ⟨none, none⟩ (ReListen.start 0) Local.foreign := by
  intro h
  obtain ⟨raw, source, now, hev, hproto⟩ := h.1 () (by rfl)
  obtain ⟨rfl, -, -⟩ := Event.datagram.inj hev
  exact absurd hproto (by decide +kernel)

end Receive

end Rdt
