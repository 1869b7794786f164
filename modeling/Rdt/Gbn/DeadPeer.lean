import Rdt.Gbn.Numbering

/-!
# A sender whose peer is dead

`send_file` of either class with nothing arriving any more: it resets its window for ever.
-/

namespace Rdt.Gbn

open PacketParser

/-- What an event makes of a sender that runs, if anything: `clientSendFile` or `serverSendFile`. -/
abbrev SendFileOn := GoBackNSender → Event → Option GoBackNSender.Result

namespace SendFileOn

variable (f : SendFileOn)

/-- One event in `send_file`; when it has returned or raised, nothing happens any more. -/
def after (r : GoBackNSender.Result) (ev : Event) : GoBackNSender.Result :=
  match r with
  | .running s _ => (f s ev).getD (.running s none)
  | r => r

/-- `send_file` from the head of its loop on. -/
def run (s : GoBackNSender) (es : List Event) : GoBackNSender.Result :=
  es.foldl f.after (s.loop false)

/-- The packets `send_file` sends along some events. -/
def sent : GoBackNSender.Result → List Event → List Bytes
  | _, [] => []
  | r, ev :: es =>
      match f.after r ev with
      | .running s packet => packet.toList ++ sent (.running s packet) es
      | r => sent r es

/-- With no datagram arriving any more, `send_file` leaves its loop at some time, and sends no packet
more often than allowed until then. -/
def GivesUp (s : GoBackNSender) : Prop :=
  ∃ es : List Event, (∀ ev ∈ es, ev.Quiet) ∧
    (∀ s' packet, es.foldl f.after (.running s none) ≠ .running s' packet) ∧
    ∀ raw, (f.sent (.running s none) es).count raw ≤ maxRetransmissionAttempts

end SendFileOn

/-! ## What a sender keeps -/

/-- The numbers of a sender fit their fields.  While two chunks are left to confirm, `next_seq_num` is in
the range of a counter; past that range the window has no end, so the sender is still filling it. -/
structure Sound (s : GoBackNSender) : Prop where
  offset : s.offsetInitialSeqNumber.value ≤ maxSequenceNumber + 1
  ack : s.ackNumber.value < 2 ^ 32
  protocol : s.nextSeqNum.protocol = .goBackN
  short : ∀ chunk ∈ s.chunks, chunk.length ≤ fileChunkSizeGbn
  next : s.base + 2 ≤ s.totalChunks → s.nextSeqNum.value ≤ maxSequenceNumber + 1
  filling : s.base + 2 ≤ s.totalChunks → maxSequenceNumber + 1 < s.base →
    ∃ packet, s.point = .sendPacketsInWindow packet

/-- `send_file` goes on with the window where it was. -/
def Stays (s : GoBackNSender) (r : GoBackNSender.Result) : Prop :=
  ∃ s' packet, r = .running s' packet ∧ Sound s' ∧ s'.base = s.base ∧ s'.chunks = s.chunks

variable {s : GoBackNSender} {port : UInt16} {now : Time}

theorem Sound.compose (h : Sound s) (hopen : s.base + 2 ≤ s.totalChunks) (port : UInt16) :
    ∃ raw, composePacketGbnForNet (s.chunkPacket port) = .ok raw := by
  have hnext := h.next hopen
  have hoffset := h.offset
  have hmax : maxSequenceNumber = 2000000000 := rfl
  refine ⟨_, composePacketGbnForNet_eq_ok (p := s.chunkPacket port) rfl port.toNat_lt ?_ ?_ h.ack⟩
  · have hshort : (s.chunks.getD s.nextSeqNum.value []).length ≤ fileChunkSizeGbn := by
      rw [List.getD_eq_getElem?_getD]
      cases hc : s.chunks[s.nextSeqNum.value]? with
      | none => exact Nat.zero_le _
      | some chunk => exact h.short chunk (List.mem_of_getElem? hc)
    exact Nat.lt_of_le_of_lt hshort (by decide)
  · show s.nextSeqNum.value + s.offsetInitialSeqNumber.value < 2 ^ 32
    omega

theorem Sound.sendPacketsInWindow (h : Sound s) (hopen : s.base + 2 ≤ s.totalChunks)
    {packet : Option Bytes} (port : UInt16) : Stays s (s.sendPacketsInWindow packet port) := by
  have hnext := h.next hopen
  unfold GoBackNSender.sendPacketsInWindow
  split
  · obtain ⟨raw, hok⟩ := h.compose hopen port
    rw [hok]
    have hstep : s.nextSeqNum.step.value ≤ maxSequenceNumber + 1 := by
      rw [SequenceNumber.step, h.protocol]
      exact SequenceNumber.stepGbn_le _
    exact ⟨_, _, rfl, ⟨h.offset, h.ack, by simpa using h.protocol, h.short, fun _ ↦ hstep,
      fun _ _ ↦ ⟨_, rfl⟩⟩, rfl, rfl⟩
  · rename_i hfull
    refine ⟨_, _, rfl, ⟨h.offset, h.ack, h.protocol, h.short, h.next, fun _ hbase ↦ ?_⟩, rfl, rfl⟩
    -- a base past the range of the counter is out of reach for it
    have hbase : maxSequenceNumber + 1 < s.base := hbase
    exact absurd ⟨by omega, by omega⟩ hfull

theorem Sound.proceed (h : Sound s) (hopen : s.base + 2 ≤ s.totalChunks) (port : UInt16) (now : Time) :
    Stays s (s.proceed port now) := by
  unfold GoBackNSender.proceed
  split
  · exact h.sendPacketsInWindow hopen port
  · rename_i hp
    rw [if_neg (by omega)]
    refine ⟨_, _, rfl, ⟨h.offset, h.ack, h.protocol, h.short, h.next, fun hopen hbase ↦ ?_⟩, rfl, rfl⟩
    obtain ⟨packet, hp'⟩ := h.filling hopen hbase
    rw [hp] at hp'
    cases hp'
  · exact ⟨_, _, rfl, h, rfl, rfl⟩

theorem Sound.retransmissionNeeded (h : Sound s) (hopen : s.base + 2 ≤ s.totalChunks) {startTime : Time}
    (hp : s.point = .waitForAck startTime) : Stays s s.retransmissionNeeded := by
  have hbase : s.base ≤ maxSequenceNumber + 1 := by
    by_contra hlt
    obtain ⟨packet, hp'⟩ := h.filling hopen (by omega)
    rw [hp] at hp'
    cases hp'
  have hrun : s.retransmissionNeeded =
      .running { s.resetWindow with point := .sendPacketsInWindow none } none := by
    refine if_pos ⟨?_, by simp⟩
    show s.base < s.totalChunks
    omega
  rw [hrun]
  exact ⟨_, _, rfl, ⟨h.offset, h.ack, h.protocol, h.short, fun _ ↦ hbase, fun _ _ ↦ ⟨_, rfl⟩⟩, rfl, rfl⟩

/-! ## What leads to a sender -/

/-- Where `send_file` goes on, the sender is sound. -/
def SoundResult : GoBackNSender.Result → Prop
  | .running s _ => Sound s
  | .returned _ | .raised _ => True

/-- The loop begins anew, or ends. -/
theorem Sound.loop (h : Sound s) (acked : Bool) : SoundResult (s.loop acked) := by
  unfold GoBackNSender.loop
  split
  · exact ⟨h.offset, h.ack, h.protocol, h.short, h.next, fun _ _ ↦ ⟨_, rfl⟩⟩
  · trivial

/-- While it waits for an ACK. -/
structure Waiting (s : GoBackNSender) : Prop extends Sound s where
  point : ∃ startTime, s.point = .waitForAck startTime

theorem Waiting.base_le (h : Waiting s) (hopen : s.base + 2 ≤ s.totalChunks) :
    s.base ≤ maxSequenceNumber + 1 := by
  by_contra hlt
  obtain ⟨packet, hp⟩ := h.filling hopen (by omega)
  obtain ⟨startTime, hp'⟩ := h.point
  rw [hp'] at hp
  cases hp

theorem Waiting.retransmissionNeeded (h : Waiting s) : SoundResult s.retransmissionNeeded := by
  unfold GoBackNSender.retransmissionNeeded GoBackNSender.loop
  split
  · exact ⟨h.offset, h.ack, h.protocol, h.short, h.base_le, fun _ _ ↦ ⟨_, rfl⟩⟩
  · trivial

theorem Waiting.accumulate (h : Waiting s) (d : Time) (acked : Bool) :
    SoundResult (s.accumulate d acked) := by
  have hspent : Waiting { s with spentInReception := s.spentInReception + d } :=
    ⟨⟨h.offset, h.ack, h.protocol, h.short, h.next, h.filling⟩, h.point⟩
  unfold GoBackNSender.accumulate
  dsimp only
  split
  · exact hspent.retransmissionNeeded
  · exact hspent.toSound.loop acked

/-- An answer that names `n` moves the window, or is dealt with otherwise. -/
theorem Waiting.answered (h : Waiting s) {n : Nat} (hn : n < 2 ^ 32) (acked : Bool)
    {otherwise : GoBackNSender.Result} (ho : SoundResult otherwise) :
    SoundResult (if s.ackNumber.value ≤ n then (s.acknowledge n).loop acked else otherwise) := by
  split
  · unfold GoBackNSender.loop
    split
    · refine ⟨h.offset, hn, h.protocol, h.short, fun hopen ↦ h.next ?_, fun _ _ ↦ ⟨_, rfl⟩⟩
      exact le_trans (Nat.add_le_add_right (Nat.le_add_right _ _) 2) hopen
    · trivial
  · exact ho

/-- What `wait_for_ack` hands over has an ACK number that fits its field. -/
def Heard (received : Except Exn Packet) : Prop :=
  ∀ packet, (received = .ok packet ∨ ∃ cls, received = .error ⟨cls, some packet⟩) →
    ∀ n, packet.getAckNumber = .ok n → n < 2 ^ 32

theorem Waiting.awaitAckPhaseClient (h : Waiting s) {received : Except Exn Packet} (hr : Heard received)
    (d : Time) : SoundResult (s.awaitAckPhaseClient received d) := by
  have hback : Waiting { s with alreadyReceivedFinBack := true } :=
    ⟨⟨h.offset, h.ack, h.protocol, h.short, h.next, h.filling⟩, h.point⟩
  unfold GoBackNSender.awaitAckPhaseClient
  dsimp only
  split
  · rename_i packet
    cases hn : packet.getAckNumber with
    | error e => trivial
    | ok n => exact h.answered (hr packet (.inl rfl) n hn) _ (h.accumulate d _)
  · rename_i packet
    split
    · cases hn : packet.getAckNumber with
      | error e => trivial
      | ok n => exact hback.answered (hr packet (.inr ⟨_, rfl⟩) n hn) _ (hback.accumulate d _)
    · cases hn : packet.getAckNumber with
      | error e => trivial
      | ok n => exact h.answered (hr packet (.inr ⟨_, rfl⟩) n hn) _ (h.accumulate d _)
  · split
    · exact h.retransmissionNeeded
    · trivial

theorem Waiting.awaitAckPhaseServer (h : Waiting s) {received : Except Exn Packet} (hr : Heard received)
    (d : Time) : SoundResult (s.awaitAckPhaseServer received d) := by
  have hback : ∀ b, Waiting { s with alreadyReceivedFinBack := b } := fun b ↦
    ⟨⟨h.offset, h.ack, h.protocol, h.short, h.next, h.filling⟩, h.point⟩
  unfold GoBackNSender.awaitAckPhaseServer
  dsimp only
  split
  · rename_i packet
    cases hn : packet.getAckNumber with
    | error e => trivial
    | ok n => exact h.answered (hr packet (.inl rfl) n hn) _ (h.accumulate d false)
  · rename_i packet
    cases hn : packet.getAckNumber with
    | error e => trivial
    | ok n =>
        have hunbound : SoundResult (.raised ExnClass.unboundLocalError.exn) := trivial
        exact (hback (s.alreadyReceivedFinBack || GoBackNSender.isFinBack packet)).answered
          (hr packet (.inr ⟨_, rfl⟩) n hn) _ hunbound
  · split
    · exact h.accumulate d false
    · split
      · exact h.retransmissionNeeded
      · trivial

theorem Heard.of_error {e : Exn} (h : e.packet = none) : Heard (.error e) := by
  rintro packet (heq | ⟨cls, heq⟩)
  · cases heq
  · rw [Except.error.inj heq] at h
    cases h

/-- The packet is the one that was parsed. -/
theorem Heard.of_parsed {received : Except Exn Packet} (raw : Bytes)
    (h : ∀ packet, (received = .ok packet ∨ ∃ cls, received = .error ⟨cls, some packet⟩) →
      packet = getPacketFromBytes raw) : Heard received := by
  intro packet hr n hn
  obtain rfl := h packet hr
  unfold Packet.getAckNumber at hn
  split at hn
  · rename_i m hm
    obtain rfl := Except.ok.inj hn
    exact (getPacketFromBytes_bounds raw).2 m hm
  · cases hn

theorem heard_client (raw : Bytes) (source : Option Address) :
    Heard (ClientProtocolGbn.waitForAck raw source) :=
  .of_parsed raw fun _ h ↦ ClientProtocolGbn.waitForAck_parsed h

theorem heard_server (ackNumber : SequenceNumber) (raw : Bytes) (source : Option Address) :
    Heard (ServerProtocolGbn.waitForAck ackNumber raw source) :=
  .of_parsed raw fun _ h ↦ ServerProtocolGbn.waitForAck_parsed h

theorem heard_received {received : Except Exn (Bytes × Option Address)} {n : Nat} {ev : Event}
    (hr : SocketGbn.recvfrom n ev = some received) {wait : Bytes → Option Address → Except Exn Packet}
    (hwait : ∀ raw source, Heard (wait raw source)) : Heard (received.bind fun r ↦ wait r.1 r.2) := by
  cases ev with
  | proceed => cases hr
  | datagram raw source now =>
      obtain rfl := Option.some.inj hr
      exact hwait _ _
  | timeout | osError =>
      obtain rfl := Option.some.inj hr
      exact .of_error rfl

/-! ## Runs -/

theorem Stays.sound {r : GoBackNSender.Result} (h : Stays s r) : SoundResult r := by
  obtain ⟨s', packet, rfl, hs, -⟩ := h
  exact hs

theorem Sound.proceed_sound (h : Sound s) (port : UInt16) (now : Time) :
    SoundResult (s.proceed port now) := by
  by_cases hopen : s.base + 2 ≤ s.totalChunks
  · exact (h.proceed hopen port now).sound
  · unfold GoBackNSender.proceed
    split
    · unfold GoBackNSender.sendPacketsInWindow
      split
      · split
        · exact ⟨h.offset, h.ack, by simpa using h.protocol, h.short, fun ho ↦ absurd ho hopen,
            fun ho ↦ absurd ho hopen⟩
        · trivial
      · exact ⟨h.offset, h.ack, h.protocol, h.short, fun ho ↦ absurd ho hopen, fun ho ↦ absurd ho hopen⟩
    · split
      · exact h.loop true
      · exact ⟨h.offset, h.ack, h.protocol, h.short, fun ho ↦ absurd ho hopen, fun ho ↦ absurd ho hopen⟩
    · exact h

/-- What the two classes have in common. -/
structure IsSendFile (f : SendFileOn) : Prop where
  sound : ∀ s ev, Sound s → ∀ r ∈ f s ev, SoundResult r
  quiet : ∀ s ev, Sound s → s.base + 2 ≤ s.totalChunks → ev.Quiet → ∀ r ∈ f s ev, Stays s r

theorem isSendFile_client (cfg : Client.Config) : IsSendFile (clientSendFile cfg) where
  sound s ev h r hr := by
    unfold clientSendFile at hr
    split at hr
    · rename_i startTime hp
      obtain ⟨received, hrecv, rfl⟩ := Option.map_eq_some_iff.mp hr
      exact Waiting.awaitAckPhaseClient ⟨h, startTime, hp⟩ (heard_received hrecv heard_client) _
    · split at hr
      · obtain rfl := Option.some.inj hr
        exact h.proceed_sound _ _
      · cases hr
  quiet s ev h hopen hev r hr := by
    obtain ⟨now, rfl | rfl⟩ := hev
    · unfold clientSendFile at hr
      split at hr
      · rename_i startTime hp
        obtain rfl := Option.some.inj hr
        exact h.retransmissionNeeded hopen hp
      · cases hr
    · unfold clientSendFile at hr
      split at hr
      · cases hr
      · obtain rfl := Option.some.inj hr
        exact h.proceed hopen _ now

theorem isSendFile_server (cfg : Server.Config) : IsSendFile (serverSendFile cfg) where
  sound s ev h r hr := by
    unfold serverSendFile at hr
    split at hr
    · rename_i startTime hp
      obtain ⟨received, hrecv, rfl⟩ := Option.map_eq_some_iff.mp hr
      exact Waiting.awaitAckPhaseServer ⟨h, startTime, hp⟩
        (heard_received hrecv (heard_server s.ackNumber)) _
    · split at hr
      · obtain rfl := Option.some.inj hr
        exact h.proceed_sound _ _
      · cases hr
  quiet s ev h hopen hev r hr := by
    obtain ⟨now, rfl | rfl⟩ := hev
    · unfold serverSendFile at hr
      split at hr
      · rename_i startTime hp
        obtain rfl := Option.some.inj hr
        exact h.retransmissionNeeded hopen hp
      · cases hr
    · unfold serverSendFile at hr
      split at hr
      · cases hr
      · obtain rfl := Option.some.inj hr
        exact h.proceed hopen _ now

variable {f : SendFileOn}

theorem IsSendFile.run (hf : IsSendFile f) (h : Sound s) (es : List Event) : SoundResult (f.run s es) := by
  induction es using List.reverseRecOn with
  | nil => exact h.loop false
  | append_singleton es ev ih =>
      rw [SendFileOn.run, List.foldl_append]
      show SoundResult (f.after (f.run s es) ev)
      cases hr : f.run s es with
      | running s' packet =>
          rw [hr] at ih
          show SoundResult ((f s' ev).getD _)
          cases he : f s' ev with
          | none => exact ih
          | some r => exact hf.sound s' ev ih r he
      | returned s' => trivial
      | raised e => trivial

/-- Whatever the time, a sender that hears nothing goes on. -/
theorem IsSendFile.stays (hf : IsSendFile f) (h : Sound s) (hopen : s.base + 2 ≤ s.totalChunks)
    {es : List Event} (hes : ∀ ev ∈ es, ev.Quiet) (packet : Option Bytes) :
    Stays s (es.foldl f.after (.running s packet)) := by
  induction es using List.reverseRecOn with
  | nil => exact ⟨s, packet, rfl, h, rfl, rfl⟩
  | append_singleton es ev ih =>
      obtain ⟨s', packet', hrun, hs, hbase, hchunks⟩ := ih fun e he ↦ hes e (List.mem_append_left _ he)
      have hopen' : s'.base + 2 ≤ s'.totalChunks := by
        rw [GoBackNSender.totalChunks, hbase, hchunks]
        exact hopen
      rw [List.foldl_append, hrun]
      show Stays s ((f s' ev).getD (.running s' none))
      cases he : f s' ev with
      | none => exact ⟨s', none, rfl, hs, hbase, hchunks⟩
      | some r =>
          obtain ⟨s'', packet'', rfl, hs', hbase', hchunks'⟩ :=
            hf.quiet s' ev hs hopen' (hes ev (by simp)) r he
          exact ⟨s'', packet'', rfl, hs', hbase'.trans hbase, hchunks'.trans hchunks⟩

theorem IsSendFile.not_givesUp (hf : IsSendFile f) (h : Sound s) (hopen : s.base + 2 ≤ s.totalChunks) :
    ¬f.GivesUp s := by
  rintro ⟨es, hes, hleft, -⟩
  obtain ⟨s', packet, hrun, -⟩ := hf.stays h hopen hes none
  exact hleft s' packet hrun

theorem sound_initClient (σ μ : Nat) (content : Bytes) :
    Sound (.initClient ⟨σ, .goBackN⟩ ⟨μ, .goBackN⟩ (chunksOf content)) where
  offset := SequenceNumber.stepGbn_le σ
  ack := Nat.lt_of_le_of_lt (SequenceNumber.stepGbn_le μ) (by decide)
  protocol := rfl
  short chunk hc := FileHandler.length_le_of_mem_successiveReads hc
  next _ := Nat.zero_le _
  filling _ _ := ⟨none, rfl⟩

theorem sound_initServer {σ : Nat} (hσ : σ ≤ maxSequenceNumber + 1) (μ : Nat) (content : Bytes) :
    Sound (.initServer ⟨σ, .goBackN⟩ ⟨μ, .goBackN⟩ (chunksOf content)) where
  offset := hσ
  ack := Nat.lt_of_le_of_lt (SequenceNumber.stepGbn_le μ) (by decide)
  protocol := rfl
  short chunk hc := FileHandler.length_le_of_mem_successiveReads hc
  next _ := by
    show 1 ≤ maxSequenceNumber + 1
    decide
  filling _ _ := ⟨none, rfl⟩

/-- A Go-Back-N sender of either class that has two chunks or more to confirm never gives up on a dead
peer, whatever it heard before.  The number a connection begins with is one a step gave. -/
theorem sendFile_never_givesUp (content : Bytes) (σ μ : Nat) (es : List Event) {s : GoBackNSender}
    {p : Option Bytes} (hopen : s.base + 2 ≤ s.totalChunks) :
    (∀ cfg : Client.Config,
      SendFileOn.run (clientSendFile cfg) (.initClient ⟨σ, .goBackN⟩ ⟨μ, .goBackN⟩ (chunksOf content)) es =
        .running s p → ¬SendFileOn.GivesUp (clientSendFile cfg) s) ∧
      ∀ cfg : Server.Config,
        SendFileOn.run (serverSendFile cfg)
            (.initServer (SequenceNumber.step ⟨σ, .goBackN⟩) ⟨μ, .goBackN⟩ (chunksOf content)) es =
          .running s p → ¬SendFileOn.GivesUp (serverSendFile cfg) s := by
  constructor
  · intro cfg hrun
    have hs := (isSendFile_client cfg).run (sound_initClient σ μ content) es
    rw [hrun] at hs
    exact (isSendFile_client cfg).not_givesUp hs hopen
  · intro cfg hrun
    have hs := (isSendFile_server cfg).run
      (sound_initServer (SequenceNumber.stepGbn_le σ) μ content) es
    rw [SequenceNumber.step_mk_gbn] at hrun
    rw [hrun] at hs
    exact (isSendFile_server cfg).not_givesUp hs hopen

theorem run_initClient {content : Bytes} (hcontent : 0 < totalChunks content) (σ μ : Nat) (f : SendFileOn) :
    f.run (.initClient ⟨σ, .goBackN⟩ ⟨μ, .goBackN⟩ (chunksOf content)) [] =
      .running (.initClient ⟨σ, .goBackN⟩ ⟨μ, .goBackN⟩ (chunksOf content)) none :=
  if_pos ⟨hcontent, by simp⟩

theorem open_initClient (content : Bytes) (hcontent : 2 ≤ totalChunks content) (σ μ : Nat) :
    (GoBackNSender.initClient ⟨σ, .goBackN⟩ ⟨μ, .goBackN⟩ (chunksOf content)).base + 2 ≤
      (GoBackNSender.initClient ⟨σ, .goBackN⟩ ⟨μ, .goBackN⟩ (chunksOf content)).totalChunks := by
  show 0 + 2 ≤ totalChunks content
  omega

namespace Local

/-- A file of three chunks -/
def threeChunks : Bytes := List.replicate (fileChunkSizeGbn * 3) 0

theorem totalChunks_threeChunks : totalChunks threeChunks = 3 :=
  (totalChunks_replicate _ _).trans (by decide +kernel)

end Local

theorem sendFile_never_givesUp_three :
    ¬SendFileOn.GivesUp (clientSendFile Local.uploader)
      (.initClient ⟨3, .goBackN⟩ ⟨3, .goBackN⟩ (chunksOf Local.threeChunks)) :=
  (sendFile_never_givesUp Local.threeChunks 3 3 []
    (open_initClient _ (by rw [Local.totalChunks_threeChunks]; decide) 3 3)).1 Local.uploader
    (run_initClient (by rw [Local.totalChunks_threeChunks]; decide) 3 3 _)

/-- Three chunks are enough. -/
theorem not_givesUp_threeChunks :
    ¬∀ s packet, SendFileOn.run (clientSendFile Local.uploader)
        (.initClient ⟨3, .goBackN⟩ ⟨3, .goBackN⟩ (chunksOf Local.threeChunks)) [] = .running s packet →
      s.base + 2 ≤ s.totalChunks → SendFileOn.GivesUp (clientSendFile Local.uploader) s := by
  intro h
  have hopen := open_initClient Local.threeChunks
    (by rw [Local.totalChunks_threeChunks]; decide) 3 3
  exact (isSendFile_client Local.uploader).not_givesUp (sound_initClient 3 3 Local.threeChunks) hopen
    (h _ none (run_initClient (by rw [Local.totalChunks_threeChunks]; decide) 3 3 _) hopen)

end Rdt.Gbn
