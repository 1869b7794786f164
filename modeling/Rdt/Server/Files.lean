import Rdt.Server.Collecting
import Rdt.Server.FileCalls

/-!
# Opened files

Which turns of a connection close the file it opened.
-/

namespace Rdt

/-! ## When `send_file` returns -/

namespace GoBackNSender

variable {s : GoBackNSender}

/-- What a turn of `send_file` leads to: it returns under one condition, and else there is a chunk left
to be acknowledged. -/
structure Result.Leads (done : Prop) (r : Result) : Prop where
  returns : (∃ s, r = .returned s) ↔ done
  left : ∀ s sent, r = .running s sent → s.base < s.totalChunks

/-- A packet of which `await_ack_phase` takes an ACK number that leaves at most the last chunk
unacknowledged: it does not tell a FIN from an ACK there. -/
def Exhausts (s : GoBackNSender) (packet : Packet) : Prop :=
  (packet.isAck = true ∨ packet.isFin = true) ∧ ∃ n ∈ packet.ackNumber, s.ackNumber.value ≤ n ∧
    s.totalChunks ≤ s.base + (n - s.ackNumber.value) + 1

theorem raised_leads (e : Exn) : (Result.raised e).Leads False := ⟨by simp, by simp⟩

theorem loop_leads (s : GoBackNSender) (b : Bool) :
    (s.loop b).Leads (s.totalChunks ≤ s.base ∨ b = true) := by
  unfold loop
  split
  · rename_i h
    refine ⟨iff_of_false (by simp) fun hdone ↦ ?_, fun s' sent hs ↦ ?_⟩
    · exact hdone.elim (Nat.not_le.mpr h.1) h.2
    · obtain ⟨rfl, -⟩ := Result.running.inj hs
      exact h.1
  · rename_i h
    refine ⟨iff_of_true ⟨s, rfl⟩ ?_, by simp⟩
    by_cases hb : b = true
    · exact .inr hb
    · exact .inl (Nat.not_lt.mp fun hlt ↦ h ⟨hlt, hb⟩)

theorem retransmissionNeeded_leads (h : s.base < s.totalChunks) :
    s.retransmissionNeeded.Leads False := by
  obtain ⟨hreturns, hleft⟩ := loop_leads s.resetWindow false
  refine ⟨hreturns.trans (iff_of_false ?_ not_false), hleft⟩
  exact fun hdone ↦ hdone.elim (Nat.not_le.mpr h) (by decide)

theorem accumulate_leads (h : s.base < s.totalChunks) (d : Time) : (s.accumulate d false).Leads False := by
  unfold accumulate
  dsimp only
  split
  · exact retransmissionNeeded_leads h
  · obtain ⟨hreturns, hleft⟩ := loop_leads { s with spentInReception := s.spentInReception + d } false
    refine ⟨hreturns.trans (iff_of_false ?_ not_false), hleft⟩
    exact fun hdone ↦ hdone.elim (Nat.not_le.mpr h) (by decide)

theorem acknowledge_leads (s : GoBackNSender) (n : Nat) :
    ((s.acknowledge n).loop ((s.acknowledge n).base + 1 = (s.acknowledge n).totalChunks)).Leads
      (s.totalChunks ≤ s.base + (n - s.ackNumber.value) + 1) := by
  obtain ⟨hreturns, hleft⟩ := loop_leads (s.acknowledge n)
    ((s.acknowledge n).base + 1 = (s.acknowledge n).totalChunks)
  refine ⟨hreturns.trans ?_, hleft⟩
  have htotal : (s.acknowledge n).totalChunks = s.totalChunks := rfl
  have hbase : (s.acknowledge n).base = s.base + (n - s.ackNumber.value) := rfl
  rw [htotal, hbase, decide_eq_true_eq]
  omega

/-- What `await_ack_phase` makes of a packet, `otherwise` being what it does with an old number. -/
theorem number_leads (s : GoBackNSender) (packet : Packet) {otherwise : Result}
    (ho : otherwise.Leads False) :
    Result.Leads (∃ n ∈ packet.ackNumber, s.ackNumber.value ≤ n ∧
        s.totalChunks ≤ s.base + (n - s.ackNumber.value) + 1)
      (match packet.getAckNumber with
      | .error e => .raised e
      | .ok n =>
          if s.ackNumber.value ≤ n then
            (s.acknowledge n).loop ((s.acknowledge n).base + 1 = (s.acknowledge n).totalChunks)
          else otherwise) := by
  unfold Packet.getAckNumber
  cases packet.ackNumber with
  | none => simpa using raised_leads _
  | some n =>
      dsimp only
      split
      · rename_i hle
        simpa [hle] using acknowledge_leads s n
      · rename_i hle
        simpa [hle] using ho

theorem proceed_leads (h : s.base < s.totalChunks) (port : UInt16) (now : Time) :
    (s.proceed port now).Leads (s.point = .awaitAckPhase ∧ s.base + 1 = s.totalChunks) := by
  unfold proceed
  cases hp : s.point with
  | sendPacketsInWindow packet =>
      dsimp only
      unfold sendPacketsInWindow
      split
      · split
        · exact ⟨by simp, fun s' sent hs ↦ (Result.running.inj hs).1 ▸ h⟩
        · simpa using raised_leads _
      · exact ⟨by simp, fun s' sent hs ↦ (Result.running.inj hs).1 ▸ h⟩
  | waitForAck startTime => exact ⟨by simp, fun s' sent hs ↦ (Result.running.inj hs).1 ▸ h⟩
  | awaitAckPhase =>
      dsimp only
      split
      · rename_i hlast
        simpa [hlast] using loop_leads s true
      · rename_i hlast
        exact ⟨by simp [hlast], fun s' sent hs ↦ (Result.running.inj hs).1 ▸ h⟩

end GoBackNSender

/-- What gets through `wait_for_ack` as a packet: an ACK with a number that is not an old one, with its
`UnexpectedFinMessage` if it has a FIN, or a FIN that is no ACK. -/
theorem ServerProtocolGbn.waitForAck_cases (n : SequenceNumber) (raw : Bytes) (source : Option Address)
    {packet : Packet} (hpacket : PacketParser.getPacketFromBytes raw = packet) :
    (raw ≠ [] ∧ source.isSome = true ∧ (packet.isAck = true ∧ (∃ m ∈ packet.ackNumber, n.value ≤ m) ∨
        packet.isAck = false ∧ packet.isFin = true)) ∧
        (ServerProtocolGbn.waitForAck n raw source = .ok packet ∨
          ServerProtocolGbn.waitForAck n raw source =
            .error (ExnClass.unexpectedFinMessage.carrying packet)) ∨
      ¬(raw ≠ [] ∧ source.isSome = true ∧ (packet.isAck = true ∧ (∃ m ∈ packet.ackNumber, n.value ≤ m) ∨
        packet.isAck = false ∧ packet.isFin = true)) ∧
        ∃ e, ServerProtocolGbn.waitForAck n raw source = .error e ∧ e.cls ≠ .unexpectedFinMessage := by
  unfold ServerProtocolGbn.waitForAck ServerProtocolGbn.validateInboundAck
    ServerProtocolGbn.validateInboundPacket
  by_cases hraw : raw = []
  · exact .inr ⟨fun h ↦ h.1 hraw, _, by rw [hraw]; rfl, by decide⟩
  · cases source with
    | none =>
        refine .inr ⟨fun h ↦ (by cases h.2.1), ExnClass.missingClientAddress.exn, ?_, by decide⟩
        simp [Protocol.validateInboundPacket, hraw, bind, Except.bind, ExnClass.exn]
    | some A =>
        rw [Protocol.validateInboundPacket_of_ne_nil hraw A, hpacket]
        simp only [bind, Except.bind, Protocol.validateAck, ServerProtocolGbn.validateAckNumber,
          Packet.getAckNumber, Protocol.validateNotFin, pure, Except.pure]
        cases hack : packet.isAck with
        | false =>
            cases hfin : packet.isFin with
            | false =>
                exact .inr ⟨by simp, ExnClass.messageIsNotAck.carrying packet, by
                  simp [ExnClass.carrying, hfin], by simp [ExnClass.carrying]⟩
            | true => exact .inl ⟨by simp [hraw], .inr (by simp [ExnClass.carrying, hfin])⟩
        | true =>
            cases hm : packet.ackNumber with
            | none => exact .inr ⟨by simp, _, rfl, by decide⟩
            | some m =>
                by_cases hle : n.value ≤ m
                · cases hfin : packet.isFin with
                  | false => exact .inl ⟨by simp [hraw, hle], .inl (by simp [hle, hfin])⟩
                  | true => exact .inl ⟨by simp [hraw, hle], .inr (by
                      simp [hle, hfin, ExnClass.carrying])⟩
                · exact .inr ⟨by simp [hle], ExnClass.invalidAckNumber.exn, by simp [hle, ExnClass.exn],
                    by decide⟩

namespace GoBackNSender

variable {s : GoBackNSender}

theorem exhausts_iff {packet : Packet} : s.Exhausts packet ↔
    (packet.isAck = true ∧ (∃ m ∈ packet.ackNumber, s.ackNumber.value ≤ m) ∨
      packet.isAck = false ∧ packet.isFin = true) ∧ ∃ n ∈ packet.ackNumber, s.ackNumber.value ≤ n ∧
        s.totalChunks ≤ s.base + (n - s.ackNumber.value) + 1 := by
  unfold Exhausts
  refine and_congr_left fun ⟨n, hn, hle, _⟩ ↦ ?_
  cases packet.isAck with
  | false => simp
  | true => simpa using ⟨n, hn, hle⟩

theorem awaitAckPhaseServer_leads (h : s.base < s.totalChunks) (raw : Bytes) (source : Option Address)
    (d : Time) :
    (s.awaitAckPhaseServer (ServerProtocolGbn.waitForAck s.ackNumber raw source) d).Leads
      (raw ≠ [] ∧ source.isSome = true ∧ s.Exhausts (PacketParser.getPacketFromBytes raw)) := by
  rcases ServerProtocolGbn.waitForAck_cases s.ackNumber raw source rfl with
    ⟨⟨hraw, hsource, hflags⟩, hok | hfin⟩ | ⟨hno, e, he, hcls⟩
  · have hnumber := number_leads s (PacketParser.getPacketFromBytes raw) (accumulate_leads h d)
    rw [hok]
    refine ⟨hnumber.returns.trans ?_, hnumber.left⟩
    rw [exhausts_iff, and_iff_right hraw, and_iff_right hsource, and_iff_right hflags]
  · let finBack := s.alreadyReceivedFinBack || isFinBack (PacketParser.getPacketFromBytes raw)
    have hnumber := number_leads { s with alreadyReceivedFinBack := finBack }
      (PacketParser.getPacketFromBytes raw) (raised_leads ExnClass.unboundLocalError.exn)
    rw [hfin]
    refine ⟨hnumber.returns.trans ?_, hnumber.left⟩
    rw [exhausts_iff, and_iff_right hraw, and_iff_right hsource, and_iff_right hflags]
    rfl
  · have hnot : ¬(raw ≠ [] ∧ source.isSome = true ∧ s.Exhausts (PacketParser.getPacketFromBytes raw)) :=
      fun ⟨hraw, hsource, hexhausts⟩ ↦ hno ⟨hraw, hsource, (exhausts_iff.mp hexhausts).1⟩
    have leads : (s.awaitAckPhaseServer (.error e) d).Leads False := by
      unfold awaitAckPhaseServer
      split
      · cases ‹_›
      · obtain rfl := Except.error.inj ‹_›
        exact absurd rfl hcls
      · split
        · exact accumulate_leads h d
        · split
          · exact retransmissionNeeded_leads h
          · exact raised_leads _
    rw [he]
    exact ⟨leads.returns.trans (iff_of_false not_false hnot), leads.left⟩

end GoBackNSender

namespace Server.ClientConnection

open PacketParser ServerProtocol

variable {cfg : Config} {disk : Disk} {c c' : ClientConnection} {ev : Event} {now : Time}
  {calls : FileCalls}

/-! ## The turns that close -/

/-- The event on which `send_file` returns: the ACK of the first packet of an empty file; the turn of
`await_ack_phase` that finds only the last chunk unacknowledged; or a packet that leaves no more than
that. -/
def Finishes (c : ClientConnection) (ev : Event) : Prop :=
  match c.point, ev with
  | .waitForFirstPacketAck, .datagram raw (some _) _ =>
      let packet := getPacketFromBytes (raw.take commsBufferSize)
      raw ≠ [] ∧ packet.isAck = true ∧ packet.isFin = false ∧
        packet.sequenceNumber = c.sequenceNumber.value ∧ ∃ file ∈ c.file, file.content = []
  | .sendFileGbn sender, .proceed _ =>
      sender.point = .awaitAckPhase ∧ sender.base + 1 = sender.totalChunks
  | .sendFileGbn sender, .datagram raw (some _) _ =>
      (∃ startTime, sender.point = .waitForAck startTime) ∧ raw ≠ [] ∧
        sender.Exhausts (getPacketFromBytes (raw.take commsBufferSize))
  | _, _ => False

/-- The packet that ends the data of an upload is written: under Go-Back-N a first packet without data
is not. -/
def Writes (c : ClientConnection) (packet : Packet) : Prop :=
  match c.point with
  | .receiveFileGbn receiver => receiver.point = .receiveFirstChunk → 0 < packet.payloadLength
  | _ => True

/-- The packet that ends the data of an upload arrives, and its `write` does not raise; or `send_file`
returns. -/
def Closes (c : ClientConnection) (t : Event × FileCalls) : Prop :=
  (∃ packet ∈ c.last t.1, t.2 = .transferFails → ¬c.Writes packet) ∨ c.Finishes t.1

/-- Whether the file is closed, if one was opened. -/
def closed (c : ClientConnection) : Option Bool := c.file.map File.closed

/-- The first packet of a file has been sent that has no chunk, or more than one. -/
def SentFirst (c : ClientConnection) : Prop :=
  c.ackNumber ≠ none ∧ ∀ file ∈ c.file, file.position = min file.content.length fileChunkSizeGbn ∧
    FileHandler.getNumberOfChunks file.content.length fileChunkSizeGbn ≠ 1

/-- The state of the file at a point: it is opened by the filename and closed by the last data. -/
def Holds (c : ClientConnection) : Prop :=
  match c.point with
  | .receiveFilenameForUpload | .receiveFilenameForDownload => c.closed = none
  | .receiveFilesize _ | .receiveFileChunk | .receiveFileGbn _ | .waitForChunkAck _ _ _ =>
      c.closed = some false
  | .waitForFirstPacketAck => c.closed = some false ∧ c.SentFirst
  | .sendFileGbn sender => c.closed = some false ∧ sender.base < sender.totalChunks
  | .closingHandshakeForUpload | .initiateCloseConnection | .closingHandshakeForDownload
  | .ended => True

/-- A stretch of `run` leaves the file closed or not. -/
def Leaves (flag : Option Bool) : Exec → Prop
  | .ok c' => c'.closed = flag ∧ c'.Holds
  | .error (_, c') => c'.closed = flag

/-- The file after one turn is closed if the turn closes it, and else as before or just opened. -/
def Turned (closes : Prop) (before after : Option Bool) : Prop :=
  (closes → after = some true) ∧ (¬closes → after = before ∨ before = none ∧ after = some false)

theorem Turned.same {flag : Option Bool} {closes : Prop} (h : ¬closes) : Turned closes flag flag :=
  ⟨fun hc ↦ absurd hc h, fun _ ↦ .inl rfl⟩

theorem Turned.shut {flag : Option Bool} {closes : Prop} (h : closes) : Turned closes flag (some true) :=
  ⟨fun _ ↦ rfl, fun hc ↦ absurd h hc⟩

theorem Turned.of_iff {closes : Prop} {b : Bool} (h : closes ↔ b = true) :
    Turned closes (some false) (some b) := by
  cases b with
  | true => exact .shut (h.mpr rfl)
  | false => exact .same fun hc ↦ (by cases h.mp hc)

/-! ## Exceptions -/

theorem closed_fileCleanupAfterError (cfg : Config) (c : ClientConnection) :
    (fileCleanupAfterError cfg c).closed = c.closed := by
  unfold fileCleanupAfterError
  split <;> rfl

/-! ## Going on after a receive -/

theorem Leaves.send {flag : Option Bool} {isAck isFin : Bool} {data : Bytes}
    {k : ClientConnection → Exec} (h : c.closed = flag) (hk : ∀ raw, Leaves flag (k (handed cfg c raw))) :
    Leaves flag ((ClientConnection.send cfg c isAck isFin data).bind k) := by
  rw [ClientConnection.send_eq_encode]
  cases Protocol.encode cfg.protocolVersion c.sequenceNumber c.ackNumber isAck false isFin
      cfg.address.port data with
  | ok raw => exact hk raw
  | error e => exact h

/-- A call that raises leaves the file as it is. -/
theorem Leaves.transfer {flag : Option Bool} {k : ClientConnection → Exec} (h : c.closed = flag)
    (hk : Leaves flag (k c)) : Leaves flag ((calls.transfer c).bind k) := by
  unfold FileCalls.transfer
  split
  · exact h
  · exact hk

/-- A `close` that raises has closed the file. -/
theorem Leaves.close {flag : Option Bool} {k : ClientConnection → Exec} (h : c.closed = flag)
    (hk : Leaves flag (k c)) : Leaves flag ((calls.close c).bind k) := by
  unfold FileCalls.close
  split
  · exact h
  · exact hk

theorem Leaves.swallow {flag : Option Bool} {x : Exec} (h : Leaves flag x) :
    Leaves flag (.ok (swallow x)) := by
  cases x with
  | ok c' => exact h
  | error e => exact ⟨h, trivial⟩

theorem Leaves.handle {flag : Option Bool} {x : Exec} (h : Leaves flag x) (now : Time) :
    Leaves flag (.ok (handle cfg now x)) := by
  cases x with
  | ok c' => exact h
  | error e =>
      obtain rfl : e.2.closed = flag := h
      simp only [ClientConnection.handle]
      split
      · exact Leaves.swallow (Leaves.send rfl fun raw ↦ ⟨rfl, trivial⟩)
      · split
        · exact ⟨rfl, trivial⟩
        · exact ⟨closed_fileCleanupAfterError cfg _, trivial⟩

variable (cfg) in
theorem onFilenameForUpload_leaves (h : c.closed = none) (now : Time) (r : SequenceNumber × String) :
    ∃ flag, Leaves flag (onFilenameForUpload cfg now c r) ∧ (flag = none ∨ flag = some false) := by
  unfold onFilenameForUpload
  dsimp only
  split
  · rename_i file disk ho
    obtain ⟨-, rfl, -⟩ := FileHandler.openFileWriteMode_eq_ok ho
    exact ⟨some false, Leaves.send rfl fun raw ↦ ⟨rfl, rfl⟩, .inr rfl⟩
  · split
    · exact ⟨none, h, .inl rfl⟩
    · exact ⟨none, h, .inl rfl⟩

theorem onFilesize_leaves (h : c.closed = some false) (now : Time) (filename : String)
    (r : SequenceNumber × Nat) : Leaves (some false) (onFilesize cfg now filename c r) := by
  unfold onFilesize
  dsimp only
  split
  · refine Leaves.send h fun raw ↦ ?_
    simp only [startReception]
    split
    · exact ⟨h, h⟩
    · exact ⟨h, h⟩
  · exact h

theorem onFilesizeWith_leaves (h : c.closed = some false) (now : Time) (filename : String)
    (r : SequenceNumber × Nat) : Leaves (some false) (onFilesizeWith cfg calls now filename c r) := by
  unfold onFilesizeWith
  by_cases hcalls : calls = .transferFails
  · rw [hcalls]
    exact h
  · rw [FileCalls.transfer_eq_ok hcalls]
    exact onFilesize_leaves h now filename r

theorem closed_appendToFile (cfg : Config) (c : ClientConnection) (packet : Packet) :
    (appendToFile cfg c packet).closed = c.closed := by
  unfold appendToFile closed
  cases hf : c.file with
  | none => simp [hf]
  | some file => rfl

theorem closed_appendTaken (cfg : Config) (c : ClientConnection) (taken : Option Packet) :
    (appendTaken cfg c taken).closed = c.closed := by
  cases taken with
  | none => rfl
  | some packet => exact closed_appendToFile cfg c packet

theorem closed_closeWritten (h : c.closed = some false) : c.closeWritten.closed = some true := by
  unfold closed at h
  unfold closeWritten
  cases hf : c.file with
  | none =>
      rw [hf] at h
      cases h
  | some file => rfl

theorem Leaves.finallyDone {flag : Option Bool} {x : Exec} (h : Leaves flag x) :
    Leaves flag (finallyDone x) := by
  cases x with
  | ok c' => exact h
  | error e => exact h

theorem closingHandshakeForUpload_leaves (h : c.closed = some true) (now : Time) :
    Leaves (some true) (closingHandshakeForUpload cfg now c) :=
  Leaves.finallyDone <| Leaves.send h fun _ ↦ Leaves.send h fun _ ↦ ⟨h, trivial⟩

/-- The end of `receive_file`, and what follows it -/
theorem closeWritten_leaves (h : c.closed = some false) (now : Time) :
    Leaves (some true) ((calls.close c.closeWritten).bind (closingHandshakeForUpload cfg now)) :=
  Leaves.close (closed_closeWritten h) (closingHandshakeForUpload_leaves (closed_closeWritten h) now)

theorem onFileChunkWith_leaves (h : c.closed = some false) (now : Time) (r : SequenceNumber × Packet) :
    Leaves (some (r.2.isFin && calls != .transferFails)) (onFileChunkWith cfg calls now c r) := by
  unfold onFileChunkWith
  dsimp only
  cases r.2.isFin with
  | true =>
      by_cases hcalls : calls = .transferFails
      · subst hcalls
        exact h
      · rw [show (true && calls != .transferFails) = true by simp [hcalls]]
        simp only [if_true, bind, Except.bind, FileCalls.transfer_eq_ok hcalls]
        exact closeWritten_leaves ((closed_appendToFile cfg { c with sequenceNumber := r.1 } r.2).trans h)
          now
  | false =>
      refine Leaves.send h fun raw ↦ Leaves.transfer h ?_
      have happended : (appendToFile cfg (handed cfg { c with sequenceNumber := r.1 } raw) r.2).closed =
          some false := (closed_appendToFile cfg _ r.2).trans h
      exact ⟨happended, happended⟩

/-- The packet the receiver returns on is answered by nothing. -/
theorem replies_of_finished {receiver : GoBackNReceiver} {packet : Packet}
    (h : (receiver.onPacket packet).finished = true) : (receiver.onPacket packet).replies = [] := by
  have nothing : packet.isFin = true → receiver.chunkReplies packet = [] := by
    intro hfin
    rw [GoBackNReceiver.chunkReplies, if_neg fun hr ↦ hr.2 hfin]
  unfold GoBackNReceiver.onPacket at h ⊢
  split at h
  · unfold GoBackNReceiver.onFirstPacket at h ⊢
    split at h
    · rename_i hnum
      rw [if_pos hnum]
      exact nothing h
    · cases h
  · unfold GoBackNReceiver.onLoopPacket at h ⊢
    split at h
    · rename_i hnum
      rw [if_pos hnum]
      exact nothing h
    · cases h

theorem finished_iff {receiver : GoBackNReceiver} {packet : Packet} :
    (receiver.onPacket packet).finished = true ↔
      packet.isFin = true ∧ packet.sequenceNumber = receiver.expected := by
  unfold GoBackNReceiver.onPacket GoBackNReceiver.expected
  cases receiver.point with
  | receiveFirstChunk =>
      dsimp only [GoBackNReceiver.onFirstPacket]
      split
      · rename_i hnum
        exact ⟨fun hfin ↦ ⟨hfin, hnum⟩, And.left⟩
      · rename_i hnum
        exact ⟨fun h ↦ (by cases h), fun h ↦ absurd h.2 hnum⟩
  | receiveLoop =>
      dsimp only [GoBackNReceiver.onLoopPacket]
      split
      · rename_i hnum
        exact ⟨fun hfin ↦ ⟨hfin, hnum.symm⟩, And.left⟩
      · rename_i hnum
        exact ⟨fun h ↦ (by cases h), fun h ↦ absurd h.2.symm hnum⟩

/-- The packet the receiver returns on is appended, unless it is a first one without data. -/
theorem appended_of_finished {receiver : GoBackNReceiver} {packet : Packet}
    (h : (receiver.onPacket packet).finished = true) : (receiver.onPacket packet).appended.isSome = true ↔
      (receiver.point = .receiveFirstChunk → 0 < packet.payloadLength) := by
  obtain ⟨hfin, hnum⟩ := finished_iff.mp h
  unfold GoBackNReceiver.onPacket
  unfold GoBackNReceiver.expected at hnum
  cases hp : receiver.point with
  | receiveFirstChunk =>
      rw [hp] at hnum
      dsimp only [GoBackNReceiver.onFirstPacket]
      rw [if_pos hnum, hfin]
      simp
  | receiveLoop =>
      rw [hp] at hnum
      dsimp only [GoBackNReceiver.onLoopPacket]
      rw [if_pos hnum.symm]
      simp

theorem Leaves.sendReplies {flag : Option Bool} {receiver : GoBackNReceiver} {k : ClientConnection → Exec}
    (hk : ∀ c', c'.closed = flag → Leaves flag (k c')) (replies : List GoBackNReceiver.Reply)
    (h : c.closed = flag) : Leaves flag ((replies.foldlM (sendReply cfg receiver) c : Exec).bind k) := by
  induction replies generalizing c with
  | nil => exact hk c h
  | cons reply replies ih =>
      rw [List.foldlM_cons]
      cases reply with
      | resendLast => exact ih h
      | sendAck sequenceNumber ackNumber =>
          cases henc : Protocol.encode .goBackN sequenceNumber (some ackNumber) true false false
              cfg.address.port [] with
          | ok raw =>
              simp only [sendReply, henc, bind, Except.bind] at ih ⊢
              exact ih h
          | error e =>
              simp only [sendReply, henc, bind, Except.bind]
              exact h

theorem holds_of_receiveFileGbn {receiver : GoBackNReceiver} (hp : c.point = .receiveFileGbn receiver)
    (h : c.closed = some false) : c.Holds := by
  rw [Holds, hp]
  exact h

/-- A packet that the receiver does not return on leaves the file open, and so does one whose `write`
raises. -/
theorem onGbnPacketWith_leaves (h : c.closed = some false) (now : Time) (receiver : GoBackNReceiver)
    (packet : Packet) :
    Leaves (some ((receiver.onPacket packet).finished &&
        !(calls == .transferFails && (receiver.onPacket packet).appended.isSome)))
      (onGbnPacketWith cfg calls now receiver c packet) := by
  unfold onGbnPacketWith
  dsimp only
  cases hfin : (receiver.onPacket packet).finished with
  | true =>
      rw [replies_of_finished hfin]
      by_cases hraises : calls = .transferFails ∧ (receiver.onPacket packet).appended.isSome = true
      · obtain ⟨rfl, happended⟩ := hraises
        rw [happended]
        exact h
      · have hflag : (true && !(calls == .transferFails && (receiver.onPacket packet).appended.isSome)) =
            true := by
          rw [Bool.true_and, Bool.not_eq_true', Bool.and_eq_false_iff, beq_eq_false_iff_ne,
            Bool.eq_false_iff]
          exact not_and_or.mp hraises
        have hclose : ∀ taken, Leaves (some true) ((calls.close (appendTaken cfg
            { c with
              sequenceNumber := (receiver.onPacket packet).receiver.sqnNumber
              ackNumber := some (receiver.onPacket packet).receiver.ackNumber
              point := .receiveFileGbn (receiver.onPacket packet).receiver } taken).closeWritten).bind
            (closingHandshakeForUpload cfg now)) :=
          fun taken ↦ closeWritten_leaves (by rw [closed_appendTaken]; exact h) now
        rw [hflag]
        simp only [List.foldlM_nil, pure, Except.pure, bind, Except.bind, if_true]
        split
        · rename_i happended
          rw [FileCalls.transfer_eq_ok fun hcalls ↦ hraises ⟨hcalls, happended⟩]
          exact hclose _
        · exact hclose _
  | false =>
      refine Leaves.sendReplies (fun c' hc' ↦ ?_) _ h
      have happended := (closed_appendTaken cfg
        { c' with
          sequenceNumber := (receiver.onPacket packet).receiver.sqnNumber
          ackNumber := some (receiver.onPacket packet).receiver.ackNumber
          point := .receiveFileGbn (receiver.onPacket packet).receiver }
        (receiver.onPacket packet).appended).trans hc'
      have hleaves := And.intro happended
        (holds_of_receiveFileGbn (point_appendTaken cfg _ _) happended)
      split
      · exact Leaves.transfer hc' hleaves
      · exact hleaves

/-! ### Downloads -/

theorem completeDownload_leaves {flag : Option Bool} (h : c.closed = flag) :
    Leaves flag (completeDownload cfg c) :=
  Leaves.send h fun _ ↦ ⟨h, trivial⟩

theorem closingHandshakeForDownload_leaves {flag : Option Bool} (h : c.closed = flag) (now : Time)
    (alreadyReceivedFinBack : Bool) :
    Leaves flag (closingHandshakeForDownload cfg now alreadyReceivedFinBack c) := by
  cases alreadyReceivedFinBack with
  | true => exact completeDownload_leaves h
  | false => exact ⟨h, trivial⟩

theorem transmitFile_leaves (h : c.closed = some false) (now : Time) (total : Nat)
    (remaining : List Bytes) (n : Nat) (isFirst : Bool) :
    Leaves (some false) (transmitFile cfg now total remaining n isFirst c) := by
  induction remaining generalizing c n isFirst with
  | nil => exact closingHandshakeForDownload_leaves h now false
  | cons chunk remaining ih =>
      have hstep : (if isFirst = true then c else c.stepSequence).closed = some false := by
        cases isFirst <;> exact h
      refine Leaves.send hstep fun raw ↦ ?_
      have hsent : (handed cfg (if isFirst = true then c else c.stepSequence) raw).closed = some false :=
        hstep
      split
      · exact ih hsent (n + 1) false
      · exact ⟨hstep, hstep⟩

/-- The first packet can only be packed with an ACK number. -/
theorem sendFirstPacket_leaves {file : File} (hproto : cfg.protocolVersion = .goBackN)
    (hclosed : file.closed = false) (hpos : file.position = 0) (now : Time) (c : ClientConnection) :
    Leaves (some false) (sendFirstPacket cfg now file { c with file := some file }) := by
  have hopen : some file.closed = some false := congrArg some hclosed
  unfold sendFirstPacket sendFileChunk
  simp only [ClientConnection.send_eq_encode, hproto]
  cases hack : c.ackNumber with
  | none => exact hopen
  | some a =>
      split
      · rename_i hsend
        simp only [bind, Except.bind]
        exact hopen
      · simp only [bind, Except.bind]
        split
        · exact ⟨hopen, trivial⟩
        · rename_i hone
          refine ⟨hopen, hopen, Option.some_ne_none a, ?_⟩
          rintro _ ⟨⟩
          exact ⟨by simp [FileHandler.read, hpos], fun h ↦ hone h.symm⟩

variable (cfg) in
theorem onFilenameForDownload_leaves (h : c.closed = none) (now : Time) (r : SequenceNumber × String) :
    ∃ flag, Leaves flag (onFilenameForDownload cfg now c r) ∧ (flag = none ∨ flag = some false) := by
  unfold onFilenameForDownload
  dsimp only
  split
  · rename_i file ho
    rw [FileHandler.eq_forReading ho]
    refine ⟨some false, ?_, .inr rfl⟩
    split
    · exact transmitFile_leaves rfl now _ _ 1 true
    · rename_i hproto
      exact sendFirstPacket_leaves hproto rfl rfl now _
  · refine ⟨none, ?_, .inl rfl⟩
    split
    · exact Leaves.send h fun raw ↦ h
    · exact h

variable (cfg) in
theorem onFilenameForDownloadWith_leaves (h : c.closed = none) (now : Time)
    (r : SequenceNumber × String) :
    ∃ flag, Leaves flag (onFilenameForDownloadWith cfg calls now c r) ∧
      (flag = none ∨ flag = some false) := by
  unfold onFilenameForDownloadWith
  dsimp only
  split
  · rename_i file ho
    by_cases hcalls : calls = .transferFails
    · refine ⟨some false, ?_, .inr rfl⟩
      rw [FileHandler.eq_forReading ho, hcalls]
      rfl
    · rw [FileCalls.transfer_eq_ok hcalls]
      exact onFilenameForDownload_leaves cfg h now r
  · exact onFilenameForDownload_leaves cfg h now r

theorem onChunkAckWith_leaves (h : c.closed = some false) (now : Time) (total : Nat)
    (remaining : List Bytes) (n : Nat) (u : Unit) :
    Leaves (some false) (onChunkAckWith cfg calls now total remaining n c u) :=
  Leaves.transfer h (transmitFile_leaves h now total remaining n false)

/-- `send_file` closes the file where it returns. -/
theorem onSenderWith_leaves {done : Prop} {r : GoBackNSender.Result} (hr : r.Leads done)
    (h : c.closed = some false) (now : Time) :
    ∃ flag, Leaves flag (onSenderWith cfg calls now c r) ∧ Turned done (some false) flag := by
  cases r with
  | running s sent =>
      exact ⟨some false, ⟨h, h, hr.left s sent rfl⟩, .same fun hd ↦ by simpa using hr.returns.mpr hd⟩
  | raised e => exact ⟨some false, h, .same fun hd ↦ by simpa using hr.returns.mpr hd⟩
  | returned s =>
      have hshut : (c.file.map FileHandler.close).map File.closed = some true := by
        unfold closed at h
        cases hf : c.file with
        | none =>
            rw [hf] at h
            cases h
        | some file => rfl
      refine ⟨some true, Leaves.close hshut (closingHandshakeForDownload_leaves ?_ now _),
        .shut (hr.returns.mp ⟨s, rfl⟩)⟩
      exact hshut

/-! ## One turn -/

/-- What one turn does to the file. -/
def Turns (c : ClientConnection) (t : Event × FileCalls) (x : Exec) : Prop :=
  ∃ flag, Leaves flag x ∧ Turned (Closes c t) c.closed flag

theorem last_eq_none (h : c.expectedNumber = none) (ev : Event) : c.last ev = none := by
  unfold last
  rw [h]
  split
  · exact if_neg fun h ↦ (by cases h.2.2)
  · rfl

theorem closes_iff_finishes (h : c.expectedNumber = none) : Closes c (ev, calls) ↔ c.Finishes ev := by
  unfold Closes
  rw [last_eq_none h]
  simp

theorem not_closes (h : c.expectedNumber = none) (h' : ¬c.Finishes ev) : ¬Closes c (ev, calls) :=
  fun hc ↦ h' ((closes_iff_finishes h).mp hc)

/-- A wrapped receive that does not close the file. -/
theorem listen_turns {α : Type} {op : Operation α} {k : ClientConnection → Except Exn α → Exec}
    (hc : c.Holds) (hn : (∀ a, reListenIfFailed op c.socket c.listening ev ≠ .returned a) →
      ¬Closes c (ev, calls))
    (hraised : ∀ e b, Leaves c.closed (k (c.retransmit b) (.error e)))
    (hk : ∀ a, reListenIfFailed op c.socket c.listening ev = .returned a →
      Turns c (ev, calls) (k c (.ok a))) :
    Turns c (ev, calls) (listen c op ev k) := by
  unfold listen
  cases h : reListenIfFailed op c.socket c.listening ev with
  | listening r b => exact ⟨c.closed, ⟨rfl, hc⟩, .same (hn fun a ha ↦ by simp [h] at ha)⟩
  | returned a => exact hk a h
  | raised e b => exact ⟨c.closed, hraised e b, .same (hn fun a ha ↦ by simp [h] at ha)⟩

theorem onSuccess_raised {α : Type} (k : ClientConnection → α → Exec) (c : ClientConnection) (e : Exn)
    (b : Bool) : Leaves c.closed (onSuccess k (c.retransmit b) (.error e)) := rfl

theorem mem_last {raw : Bytes} {source : Address} {now : Time} {packet : Packet} :
    packet ∈ c.last (.datagram raw (some source) now) ↔
      (raw ≠ [] ∧ (getPacketFromBytes (raw.take fullBufferSize)).isFin = true ∧
        c.expectedNumber = some (getPacketFromBytes (raw.take fullBufferSize)).sequenceNumber) ∧
        getPacketFromBytes (raw.take fullBufferSize) = packet := by
  unfold last
  dsimp only
  rw [Option.mem_def]
  exact Option.ite_none_right_eq_some.trans (and_congr_right' Option.some_inj)

/-- Where data is awaited, the packet that ends it closes the file. -/
theorem closes_iff_last (h : ¬c.Finishes ev) {raw : Bytes} {source : Address}
    (hev : ev = .datagram raw (some source) now) : Closes c (ev, calls) ↔
      (raw ≠ [] ∧ (getPacketFromBytes (raw.take fullBufferSize)).isFin = true ∧
        c.expectedNumber = some (getPacketFromBytes (raw.take fullBufferSize)).sequenceNumber) ∧
        (calls = .transferFails → ¬c.Writes (getPacketFromBytes (raw.take fullBufferSize))) := by
  subst hev
  unfold Closes
  rw [or_iff_left h]
  simp only [mem_last]
  exact ⟨fun ⟨_, ⟨hlast, rfl⟩, hw⟩ ↦ ⟨hlast, hw⟩, fun ⟨hlast, hw⟩ ↦ ⟨_, ⟨hlast, rfl⟩, hw⟩⟩

/-- Only a datagram ends the data. -/
theorem exists_of_closes (h : ¬c.Finishes ev) (hc : Closes c (ev, calls)) :
    ∃ raw source now, ev = .datagram raw (some source) now := by
  obtain ⟨packet, hlast, -⟩ := hc.resolve_right h
  change packet ∈ c.last ev at hlast
  unfold last at hlast
  split at hlast
  · exact ⟨_, _, _, rfl⟩
  · cases hlast

theorem fileChunk_turns (hp : c.point = .receiveFileChunk) (hc : c.closed = some false) (ev : Event) :
    Turns c (ev, calls) (listen c (receiveFileChunk cfg.protocolVersion c.sequenceNumber) ev
      (onSuccess (onFileChunkWith cfg calls ev.now))) := by
  have hfinishes : ¬c.Finishes ev := by simp [Finishes, hp]
  have hwrites : ∀ packet, c.Writes packet := fun packet ↦ by simp [Writes, hp]
  have hexpected : c.expectedNumber = some c.sequenceNumber.value := by rw [expectedNumber, hp]
  refine listen_turns (by rw [Holds, hp]; exact hc) (fun hn hl ↦ ?_) (onSuccess_raised _ c) fun r hr ↦ ?_
  · obtain ⟨raw, source, now, rfl⟩ := exists_of_closes hfinishes hl
    obtain ⟨⟨hraw, -, hnum⟩, -⟩ := (closes_iff_last hfinishes rfl).mp hl
    refine hn (⟨c.sequenceNumber.value, cfg.protocolVersion⟩,
      getPacketFromBytes (raw.take fullBufferSize)) (reListen_accepts ?_)
    refine receiveFileChunk_eq_ok.mpr ⟨?_, rfl, ?_, rfl⟩
    · simpa [receiveFileChunk, fullBufferSize] using hraw
    · exact (Option.some.inj (hexpected.symm.trans hnum)).symm
  · refine ⟨_, onFileChunkWith_leaves hc ev.now r, ?_⟩
    obtain ⟨raw, source, hrecv, hcheck⟩ := returned_check hr
    obtain ⟨hraw, hsource, hnum, rfl⟩ := receiveFileChunk_eq_ok.mp hcheck
    obtain ⟨raw, now, rfl, rfl⟩ := ReListen.recvfrom_packet hrecv
    obtain ⟨address, rfl⟩ := Option.isSome_iff_exists.mp hsource
    have hne : raw ≠ [] := by
      rintro rfl
      exact hraw rfl
    have hawaited : c.expectedNumber =
        some (getPacketFromBytes (raw.take fullBufferSize)).sequenceNumber :=
      hexpected.trans (congrArg some hnum.symm)
    rw [hc]
    refine .of_iff ((closes_iff_last hfinishes rfl).trans ?_)
    rw [Bool.and_eq_true, bne_iff_ne]
    refine and_congr ⟨fun h ↦ h.2.1, fun hfin ↦ ⟨hne, hfin, hawaited⟩⟩ ?_
    exact ⟨fun h hcalls ↦ h hcalls (hwrites _), fun h hcalls ↦ absurd hcalls h⟩

theorem receiver_turns {receiver : GoBackNReceiver} (hp : c.point = .receiveFileGbn receiver)
    (hc : c.closed = some false) (ev : Event) :
    Turns c (ev, calls) (listenReceiverWith cfg calls receiver c ev) := by
  have hfinishes : ¬c.Finishes ev := by simp [Finishes, hp]
  have hexpected : c.expectedNumber = some receiver.expected := by rw [expectedNumber, hp]
  have holds : c.Holds := holds_of_receiveFileGbn hp hc
  have nothing : (∀ raw source now, ev ≠ .datagram raw (some source) now) → ¬Closes c (ev, calls) := by
    intro h hl
    obtain ⟨raw, source, now, rfl⟩ := exists_of_closes hfinishes hl
    exact h raw source now rfl
  unfold listenReceiverWith
  cases ev with
  | proceed now => exact ⟨c.closed, ⟨rfl, holds⟩, .same (nothing (by simp))⟩
  | timeout now | osError now => exact ⟨c.closed, rfl, .same (nothing (by simp))⟩
  | datagram raw source now =>
      dsimp only [SocketGbn.recvfrom, ServerProtocolGbn.receiveFileChunk,
        ServerProtocolGbn.validateInboundPacket]
      cases hin : Protocol.validateInboundPacket .missingClientAddress (raw.take fullBufferSize) source with
      | error e =>
          refine ⟨c.closed, rfl, .same fun hl ↦ ?_⟩
          obtain ⟨raw', source', now', hev⟩ := exists_of_closes hfinishes hl
          obtain ⟨rfl, rfl, rfl⟩ := Event.datagram.inj hev
          have hraw := ((closes_iff_last hfinishes rfl).mp hl).1.1
          have hok : Protocol.validateInboundPacket .missingClientAddress (raw.take fullBufferSize)
              (some source') = .ok (getPacketFromBytes (raw.take fullBufferSize), source') :=
            Protocol.validateInboundPacket_eq_ok.mpr ⟨by simpa [fullBufferSize] using hraw, rfl, rfl⟩
          rw [hin] at hok
          cases hok
      | ok received =>
          obtain ⟨hraw, hsource, hpacket⟩ := Protocol.validateInboundPacket_eq_ok.mp hin
          obtain ⟨packet, address⟩ := received
          dsimp only at hsource hpacket
          subst hsource hpacket
          refine ⟨_, onGbnPacketWith_leaves hc now receiver _, ?_⟩
          have hne : raw ≠ [] := by
            rintro rfl
            exact hraw (by simp)
          have hwrites : c.Writes (getPacketFromBytes (raw.take fullBufferSize)) ↔
              (receiver.point = .receiveFirstChunk →
                0 < (getPacketFromBytes (raw.take fullBufferSize)).payloadLength) := by
            rw [Writes, hp]
          rw [hc]
          refine .of_iff ((closes_iff_last hfinishes rfl).trans ?_)
          rw [hexpected, Bool.and_eq_true, finished_iff, Option.some_inj, and_iff_right hne,
            @eq_comm _ receiver.expected]
          refine and_congr_right fun hfin ↦ ?_
          rw [hwrites, ← appended_of_finished (finished_iff.mpr hfin), Bool.not_eq_true',
            Bool.and_eq_false_imp, beq_iff_eq]
          exact imp_congr_right fun _ ↦ by simp

theorem onSenderWith_turns {done : Prop} {r : GoBackNSender.Result} (hexpected : c.expectedNumber = none)
    (hdone : c.Finishes ev ↔ done) (hr : r.Leads done) (hc : c'.closed = some false) :
    ∃ flag, Leaves flag (onSenderWith cfg calls now c' r) ∧
      Turned (Closes c (ev, calls)) (some false) flag := by
  obtain ⟨flag, hleaves, hturned⟩ := onSenderWith_leaves hr hc now
  have hiff : Closes c (ev, calls) ↔ done := (closes_iff_finishes hexpected).trans hdone
  exact ⟨flag, hleaves, fun h ↦ hturned.1 (hiff.mp h), fun h ↦ hturned.2 fun hd ↦ h (hiff.mpr hd)⟩

theorem sender_turns {sender : GoBackNSender} (hp : c.point = .sendFileGbn sender)
    (hc : c.closed = some false) (hleft : sender.base < sender.totalChunks) (ev : Event) :
    Turns c (ev, calls) (listenSenderWith cfg calls sender c ev) := by
  have holds : c.Holds := by
    rw [Holds, hp]
    exact ⟨hc, hleft⟩
  have hexpected : c.expectedNumber = none := by rw [expectedNumber, hp]
  have idle : ¬c.Finishes ev → Turns c (ev, calls) (.ok c) := fun h ↦
    ⟨c.closed, ⟨rfl, holds⟩, .same (not_closes hexpected h)⟩
  have goes : ∀ {done : Prop} r, r.Leads done → (c.Finishes ev ↔ done) →
      Turns c (ev, calls) (onSenderWith cfg calls ev.now c r) := by
    intro done r hr hdone
    rw [Turns, hc]
    exact onSenderWith_turns hexpected hdone hr hc
  unfold listenSenderWith
  cases hs : sender.point with
  | waitForAck startTime =>
      cases ev with
      | proceed now => exact idle (by simp [Finishes, hp, hs])
      | datagram raw source now =>
          refine goes _ (sender.awaitAckPhaseServer_leads hleft _ source _) ?_
          cases source with
          | none => simp [Finishes, hp]
          | some A => simp [Finishes, hp, hs, commsBufferSize]
      | timeout now =>
          have hr : (sender.awaitAckPhaseServer (.error ExnClass.retransmissionNeeded.exn)
              (now - startTime)).Leads False := GoBackNSender.retransmissionNeeded_leads hleft
          exact goes _ hr (by simp [Finishes, hp])
      | osError now =>
          have hr : (sender.awaitAckPhaseServer (.error ExnClass.socketShutdown.exn)
              (now - startTime)).Leads False := GoBackNSender.raised_leads _
          exact goes _ hr (by simp [Finishes, hp])
  | sendPacketsInWindow packet | awaitAckPhase =>
      cases ev with
      | proceed now =>
          exact goes _ (GoBackNSender.proceed_leads hleft cfg.address.port now) (by simp [Finishes, hp])
      | datagram raw source now =>
          refine idle ?_
          cases source <;> simp [Finishes, hp, hs]
      | timeout | osError => exact idle (by simp [Finishes, hp])

/-- Of an empty file `send_file` has nothing to send after the first packet; of one with more than one
chunk it sends the second. -/
theorem firstPacket_leads {file : File} (hpos : file.position = min file.content.length fileChunkSizeGbn)
    (hseveral : FileHandler.getNumberOfChunks file.content.length fileChunkSizeGbn ≠ 1)
    (n a : SequenceNumber) :
    ((GoBackNSender.initServer n a (GoBackNSender.splitFileInChunksServer file
      file.content.length).1).loop false).Leads (file.content = []) := by
  obtain ⟨hreturns, hleft⟩ := GoBackNSender.loop_leads (GoBackNSender.initServer n a
    (GoBackNSender.splitFileInChunksServer file file.content.length).1) false
  refine ⟨hreturns.trans ?_, hleft⟩
  rw [GoBackNSender.splitFileInChunksServer_eq hpos]
  show (FileHandler.successiveReads fileChunkSizeGbn file.content).length ≤ 1 ∨ false = true ↔ _
  rw [FileHandler.length_successiveReads, or_iff_left (by decide)]
  constructor
  · intro hle
    by_contra hne
    have hpos := FileHandler.getNumberOfChunks_pos (n := fileChunkSizeGbn) (by decide)
      (List.length_pos_iff.mpr hne)
    omega
  · rintro h
    rw [h]
    decide

theorem closed_readChunks (n : Nat) (file : File) :
    (GoBackNSender.readChunks n file).2.closed = file.closed := by
  induction n generalizing file with
  | zero => rfl
  | succ n ih => exact ih (FileHandler.read file fileChunkSizeGbn).2

theorem closed_splitFileInChunksServer (file : File) (size : Nat) :
    (GoBackNSender.splitFileInChunksServer file size).2.closed = file.closed :=
  closed_readChunks _ _

theorem firstPacketAck_turns (hp : c.point = .waitForFirstPacketAck) (hc : c.closed = some false)
    (hfirst : c.SentFirst) (ev : Event) :
    Turns c (ev, calls) (listen c (waitForAck c.sequenceNumber) ev
      (onSuccess fun c _ ↦ onFirstPacketAckWith cfg calls ev.now c)) := by
  have holds : c.Holds := by
    rw [Holds, hp]
    exact ⟨hc, hfirst⟩
  have hexpected : c.expectedNumber = none := by rw [expectedNumber, hp]
  obtain ⟨file, hfile, hopen⟩ : ∃ file, c.file = some file ∧ file.closed = false := by
    unfold closed at hc
    cases hf : c.file with
    | none =>
        rw [hf] at hc
        cases hc
    | some file =>
        rw [hf] at hc
        exact ⟨file, rfl, Option.some.inj hc⟩
  obtain ⟨a, hack⟩ := Option.ne_none_iff_exists'.mp hfirst.1
  obtain ⟨hpos, hseveral⟩ := hfirst.2 file hfile
  refine listen_turns holds (fun hn ↦ not_closes hexpected fun hfinishes ↦ ?_) (onSuccess_raised _ c)
    fun u hu ↦ ?_
  · unfold Finishes at hfinishes
    rw [hp] at hfinishes
    split at hfinishes
    · rename_i raw source now _ _
      obtain ⟨hraw, hisack, hfin, hnum, -⟩ := hfinishes
      refine hn () (reListen_accepts (waitForAck_eq_ok.mpr ⟨?_, rfl, hisack, hfin, hnum⟩))
      simpa [waitForAck, commsBufferSize] using hraw
    all_goals first | exact hfinishes | cases ‹Point.waitForFirstPacketAck = _›
  · obtain ⟨raw, source, hrecv, hcheck⟩ := returned_check hu
    obtain ⟨hraw, hsource, hisack, hfin, hnum⟩ := waitForAck_eq_ok.mp hcheck
    obtain ⟨raw, now, rfl, rfl⟩ := ReListen.recvfrom_packet hrecv
    obtain ⟨A, rfl⟩ := Option.isSome_iff_exists.mp hsource
    have hne : raw ≠ [] := by
      rintro rfl
      exact hraw rfl
    have hdone : c.Finishes (.datagram raw (some A) now) ↔ file.content = [] := by
      simp only [Finishes, hp, hfile, Option.mem_some_iff, exists_eq_left']
      exact ⟨fun h ↦ h.2.2.2.2, fun h ↦ ⟨hne, hisack, hfin, hnum, h⟩⟩
    have hr := firstPacket_leads hpos hseveral c.sequenceNumber a
    rw [Turns, hc]
    simp only [onSuccess, onFirstPacketAckWith, hfile, hack]
    by_cases hempty : file.content = []
    · simp only [if_pos hempty]
      exact onSenderWith_turns hexpected hdone hr
        (congrArg some ((closed_splitFileInChunksServer file _).trans hopen))
    · simp only [if_neg hempty]
      by_cases hcalls : calls = .transferFails
      · refine ⟨some false, ?_, .same (not_closes hexpected fun h ↦ hempty (hdone.mp h))⟩
        rw [hcalls]
        exact hc
      · rw [FileCalls.transfer_eq_ok hcalls]
        exact onSenderWith_turns hexpected hdone hr
          (congrArg some ((closed_splitFileInChunksServer file _).trans hopen))

/-- What the receives other than those of the data do to the file -/
theorem plain_turns {α : Type} {op : Operation α} {k : ClientConnection → α → Exec} (hc : c.Holds)
    (hexpected : c.expectedNumber = none) (hfinishes : ¬c.Finishes ev)
    (hk : ∀ a, ∃ flag, Leaves flag (k c a) ∧ (flag = c.closed ∨ c.closed = none ∧ flag = some false)) :
    Turns c (ev, calls) (listen c op ev (onSuccess k)) := by
  have hn : ¬Closes c (ev, calls) := not_closes hexpected hfinishes
  refine listen_turns hc (fun _ ↦ hn) (onSuccess_raised k c) fun a _ ↦ ?_
  obtain ⟨flag, hleaves, hflag⟩ := hk a
  exact ⟨flag, hleaves, fun h ↦ absurd h hn, fun _ ↦ hflag⟩

theorem onEventWith_turns (h : c.Holds) (ev : Event) :
    Turns c (ev, calls) (onEventWith cfg calls c ev) := by
  have hc := h
  unfold Holds at hc
  unfold onEventWith
  cases hpoint : c.point with
  | receiveFileChunk => exact fileChunk_turns hpoint (by simpa only [hpoint] using hc) ev
  | receiveFileGbn receiver => exact receiver_turns hpoint (by simpa only [hpoint] using hc) ev
  | sendFileGbn sender =>
      rw [hpoint] at hc
      exact sender_turns hpoint hc.1 hc.2 ev
  | waitForFirstPacketAck =>
      rw [hpoint] at hc
      exact firstPacketAck_turns hpoint hc.1 hc.2 ev
  | receiveFilenameForUpload =>
      rw [hpoint] at hc
      simp only [onEvent, hpoint]
      refine plain_turns h (by rw [expectedNumber, hpoint]) (by simp [Finishes, hpoint]) fun r ↦ ?_
      obtain ⟨flag, hleaves, hflag⟩ := onFilenameForUpload_leaves cfg hc ev.now r
      exact ⟨flag, hleaves, hflag.imp (fun h ↦ h.trans hc.symm) fun h ↦ ⟨hc, h⟩⟩
  | receiveFilenameForDownload =>
      rw [hpoint] at hc
      refine plain_turns h (by rw [expectedNumber, hpoint]) (by simp [Finishes, hpoint]) fun r ↦ ?_
      obtain ⟨flag, hleaves, hflag⟩ := onFilenameForDownloadWith_leaves cfg hc ev.now r
      exact ⟨flag, hleaves, hflag.imp (fun h ↦ h.trans hc.symm) fun h ↦ ⟨hc, h⟩⟩
  | receiveFilesize filename =>
      rw [hpoint] at hc
      refine plain_turns h (by rw [expectedNumber, hpoint]) (by simp [Finishes, hpoint]) fun r ↦ ?_
      exact ⟨_, onFilesizeWith_leaves hc ev.now filename r, .inl hc.symm⟩
  | waitForChunkAck remaining chunkNumber totalChunks =>
      rw [hpoint] at hc
      refine plain_turns h (by rw [expectedNumber, hpoint]) (by simp [Finishes, hpoint]) fun u ↦ ?_
      exact ⟨_, onChunkAckWith_leaves hc ev.now totalChunks remaining chunkNumber u, .inl hc.symm⟩
  | closingHandshakeForDownload =>
      simp only [onEvent, hpoint]
      refine plain_turns h (by rw [expectedNumber, hpoint]) (by simp [Finishes, hpoint]) fun _ ↦ ?_
      exact ⟨_, completeDownload_leaves rfl, .inl rfl⟩
  | initiateCloseConnection =>
      simp only [onEvent, hpoint]
      refine plain_turns h (by rw [expectedNumber, hpoint]) (by simp [Finishes, hpoint]) fun _ ↦ ?_
      exact ⟨c.closed, Leaves.send rfl fun raw ↦ ⟨rfl, trivial⟩, .inl rfl⟩
  | closingHandshakeForUpload =>
      have hn : ¬Closes c (ev, calls) := not_closes (by rw [expectedNumber, hpoint])
        (by simp [Finishes, hpoint])
      have leaves : ∀ c' r, c'.closed = c.closed → Leaves c.closed (onClosingUpload cfg c' r) := by
        intro c' r hc'
        unfold onClosingUpload
        split
        · exact ⟨hc', trivial⟩
        · dsimp only
          split
          · exact ⟨hc', trivial⟩
          · exact hc'
      simp only [onEvent, hpoint]
      exact listen_turns h (fun _ ↦ hn) (fun e b ↦ leaves _ _ rfl) fun a _ ↦
        ⟨_, leaves _ _ rfl, .same hn⟩
  | ended =>
      simp only [onEvent, hpoint]
      exact ⟨c.closed, ⟨rfl, h⟩, .same
        (not_closes (by rw [expectedNumber, hpoint]) (by simp [Finishes, hpoint]))⟩

variable (cfg) in
theorem turn_turns (h : c.Holds) (t : Event × FileCalls) : Turns c t (.ok (turn cfg c t)) := by
  obtain ⟨flag, hleaves, hturned⟩ : Turns { c with outbox := [] } t _ :=
    onEventWith_turns (show ({ c with outbox := [] } : ClientConnection).Holds from h) t.1
  refine ⟨flag, ?_, hturned⟩
  unfold turn
  dsimp only
  split
  · exact hleaves.swallow
  · exact hleaves.handle t.1.now

/-! ## Whole runs -/

/-- A connection after a sequence of events, with what the calls on its file have done -/
def runTurns (cfg : Config) (disk : Disk) (now : Time) (ts : List (Event × FileCalls)) :
    ClientConnection :=
  ts.foldl (turn cfg) (start cfg disk now)

theorem runTurns_work (cfg : Config) (disk : Disk) (now : Time) (es : List Event) :
    runTurns cfg disk now (es.map (·, .work)) = run cfg disk now es := by
  rw [runTurns, run, List.foldl_map]
  simp only [turn_work]

theorem start_holds (cfg : Config) (disk : Disk) (now : Time) :
    Leaves none (.ok (start cfg disk now)) := by
  have operation : ∀ c : ClientConnection, c.closed = none →
      Leaves none (.ok (handle cfg now (processOperationIntention cfg now c))) := by
    intro c hc
    refine Leaves.handle ?_ now
    unfold processOperationIntention
    split
    · exact hc
    · split
      · exact Leaves.send hc fun raw ↦ ⟨hc, hc⟩
      · exact Leaves.send hc fun raw ↦ ⟨hc, hc⟩
  unfold start
  dsimp only
  split
  · exact operation _ rfl
  · split
    · exact ⟨rfl, trivial⟩
    · exact operation _ rfl

/-- One of the turns closed the file. -/
def ClosedBy (cfg : Config) (disk : Disk) (now : Time) (ts : List (Event × FileCalls)) : Prop :=
  ∃ before t after, ts = before ++ t :: after ∧ Closes (runTurns cfg disk now before) t

theorem closedBy_append {ts : List (Event × FileCalls)} {t : Event × FileCalls} :
    ClosedBy cfg disk now (ts ++ [t]) ↔
      ClosedBy cfg disk now ts ∨ Closes (runTurns cfg disk now ts) t := by
  constructor
  · rintro ⟨before, t', after, heq, hc⟩
    rcases List.eq_nil_or_concat' after with rfl | ⟨after, u, rfl⟩
    · obtain ⟨rfl, rfl⟩ := List.append_inj' heq rfl |>.imp id List.head_eq_of_cons_eq
      exact .inr hc
    · refine .inl ⟨before, t', after, ?_, hc⟩
      have := List.append_inj' (heq.trans (List.append_assoc before (t' :: after) [u]).symm) rfl
      exact this.1
  · rintro (⟨before, t', after, rfl, hc⟩ | hc)
    · exact ⟨before, t', after ++ [t], by simp, hc⟩
    · exact ⟨ts, t, [], rfl, hc⟩

theorem run_closed_iff (cfg : Config) (disk : Disk) (now : Time) (ts : List (Event × FileCalls)) :
    (runTurns cfg disk now ts).Holds ∧
      ((runTurns cfg disk now ts).closed = some true ↔ ClosedBy cfg disk now ts) := by
  induction ts using List.reverseRecOn with
  | nil =>
      obtain ⟨hclosed, holds⟩ := start_holds cfg disk now
      refine ⟨holds, iff_of_false ?_ ?_⟩
      · rw [runTurns, List.foldl_nil, hclosed]
        simp
      · rintro ⟨before, t, after, heq, -⟩
        simp at heq
  | append_singleton ts t ih =>
      obtain ⟨holds, hiff⟩ := ih
      have hrun : runTurns cfg disk now (ts ++ [t]) = turn cfg (runTurns cfg disk now ts) t := by
        rw [runTurns, List.foldl_append]
        rfl
      obtain ⟨flag, ⟨hflag, holds'⟩, hturned⟩ := turn_turns cfg holds t
      rw [hrun, closedBy_append, ← hiff, hflag]
      refine ⟨holds', ?_⟩
      by_cases hc : Closes (runTurns cfg disk now ts) t
      · exact iff_of_true (hturned.1 hc) (.inr hc)
      · rcases hturned.2 hc with rfl | ⟨hnone, rfl⟩
        · exact ⟨.inl, fun h ↦ h.resolve_right hc⟩
        · rw [hnone]
          exact iff_of_false (by simp) (by simp [hc])

/-- At any time, and so when `run` has returned, the file a connection opened is closed if and only if the
last packet of its upload arrived and was written, or the ACK that `send_file` returns on. -/
theorem closed_iff_closedBy (cfg : Config) (disk : Disk) (now : Time) (ts : List (Event × FileCalls))
    {f : File} (hfile : (runTurns cfg disk now ts).file = some f) :
    f.closed = true ↔ ClosedBy cfg disk now ts := by
  rw [← (run_closed_iff cfg disk now ts).2, closed, hfile]
  simp

namespace Local

/-- An upload of three bytes, the last packet of which meets `calls` -/
def uploaded (calls : FileCalls) : List (Event × FileCalls) :=
  announcement.map (·, .work) ++
    [(arrives (saw 0 [1, 2]), .work), (arrives (saw 36 [3]), calls), (arrives (saw 16 []), .work)]

def download : Config := { upload with initialPacket := getPacketFromBytes (saw 48 [0, 1]) }

/-- The file "storage/a" with three bytes -/
def storage : Disk := fun path ↦ if path = "storage/a" then some [1, 2, 3] else none

/-- The name "a", and the ACK that ends the download of its one chunk -/
def fetched : List (Event × FileCalls) := [(arrives (saw 0 [97]), .work), (arrives (saw 16 []), .work)]

end Local

/-- An upload that is written, and one whose last `write` raises -/
theorem closed_iff_closedBy_upload :
    (true = true ↔ ClosedBy Local.upload Local.emptyDisk 0 (Local.uploaded .work)) ∧
      (false = true ↔ ClosedBy Local.upload Local.emptyDisk 0 (Local.uploaded .transferFails)) :=
  ⟨closed_iff_closedBy Local.upload Local.emptyDisk 0 (Local.uploaded .work)
      (f := ⟨"storage/a", some "storage/a", true, [[1, 2], [3]], [], 0⟩) (by decide +kernel),
    closed_iff_closedBy Local.upload Local.emptyDisk 0 (Local.uploaded .transferFails)
      (f := ⟨"storage/a", some "storage/a", false, [[1, 2]], [], 0⟩) (by decide +kernel)⟩

/-- A download that completes under Stop-and-Wait leaves its file open. -/
theorem not_closed_of_ended :
    ¬((runTurns Local.download Local.storage 0 Local.fetched).point = .ended →
      ∀ file, (runTurns Local.download Local.storage 0 Local.fetched).file = some file →
        file.closed = true) := by
  intro h
  have hfile : (runTurns Local.download Local.storage 0 Local.fetched).file =
      some ⟨"storage/a", some "storage/a", false, [], [1, 2, 3], 0⟩ := by decide +kernel
  exact absurd (h (by decide +kernel) _ hfile) (by simp)

end Server.ClientConnection

end Rdt
