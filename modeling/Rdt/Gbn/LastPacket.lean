import Rdt.Common.GoBackN

/-!
# The raw packet `send_file` returns

It is what the last iteration of its loop has sent last.  Here `send_file` of either class
runs on any answers at all, and the sender as it was when the iteration began is kept along.
-/

namespace Rdt.Gbn

open PacketParser

/-- What happens to `send_file`: it goes on, or `wait_for_ack` returns or raises. -/
inductive SenderInput where
  | proceed (now : Time)
  | answered (received : Except Exn Packet) (receptionDuration : Time)

/-- `send_file` so far; `head` is the sender at the beginning of the iteration. -/
inductive SendFile where
  | running (head sender : GoBackNSender)
  | returned (head sender : GoBackNSender)
  | raised (e : Exn)
deriving DecidableEq, Repr

namespace SendFile

/-- An iteration begins where nothing has been sent in it. -/
def headAfter (head sender : GoBackNSender) : GoBackNSender :=
  if sender.point = .sendPacketsInWindow none then sender else head

def ofResult (head : GoBackNSender) : GoBackNSender.Result → SendFile
  | .running sender _ => .running (headAfter head sender) sender
  | .returned sender => .returned head sender
  | .raised e => .raised e

variable (awaitAckPhase : GoBackNSender → Except Exn Packet → Time → GoBackNSender.Result)
  (port : UInt16)

def step : SendFile → SenderInput → SendFile
  | .running head sender, .proceed now => ofResult head (sender.proceed port now)
  | .running head sender, .answered received receptionDuration =>
      match sender.point with
      | .waitForAck _ => ofResult head (awaitAckPhase sender received receptionDuration)
      | _ => .running head sender
  | done, _ => done

/-- `send_file` from its first line on. -/
def run (sender : GoBackNSender) (inputs : List SenderInput) : SendFile :=
  inputs.foldl (step awaitAckPhase port) (ofResult sender (sender.loop false))

end SendFile

/-- The raw packet is the last chunk with FIN. -/
def IsLastChunk (sender : GoBackNSender) (raw : Bytes) : Prop :=
  (getPacketFromBytes raw).sequenceNumber =
      sender.offsetInitialSeqNumber.value + (sender.totalChunks - 1) ∧
    (getPacketFromBytes raw).isFin = true ∧
    (getPacketFromBytes raw).data = sender.chunks.getD (sender.totalChunks - 1) []

/-- The window of `sender` still holds the last chunk back from being sent. -/
def LastChunkDue (sender : GoBackNSender) : Prop :=
  sender.nextSeqNum.value < sender.totalChunks ∧ sender.totalChunks ≤ sender.base + windowSize

/-! ## One iteration -/

/-- `raw` is chunk `k` of the window of `head`, out of which something could be sent. -/
structure SentChunk (head : GoBackNSender) (k : Nat) (raw : Bytes) : Prop where
  lt_total : k < head.totalChunks
  lt_window : k < head.base + windowSize
  head_lt : head.nextSeqNum.value < head.totalChunks
  number : (getPacketFromBytes raw).sequenceNumber = head.offsetInitialSeqNumber.value + k
  isFin : (getPacketFromBytes raw).isFin = decide (k = head.totalChunks - 1)
  data : (getPacketFromBytes raw).data = head.chunks.getD k []

/-- What an iteration has sent last when its window is used up. -/
inductive LastSent (head : GoBackNSender) : Option Bytes → Prop
  | nothing (h : ¬(head.nextSeqNum.value < head.base + windowSize ∧
      head.nextSeqNum.value < head.totalChunks)) : LastSent head none
  | chunk {k : Nat} {raw : Bytes} (h : SentChunk head k raw)
      (hk : ¬(k + 1 < head.base + windowSize ∧ k + 1 < head.totalChunks)) : LastSent head (some raw)

inductive IterationAt (head g : GoBackNSender) : Prop
  | head (hp : g.point = .sendPacketsInWindow none)
      (hnext : g.nextSeqNum.value = head.nextSeqNum.value)
  | sending {k : Nat} {raw : Bytes} (hp : g.point = .sendPacketsInWindow (some raw))
      (hk : SentChunk head k raw) (hnext : g.nextSeqNum.value = SequenceNumber.stepGbn k)
  | awaiting (hp : ∀ packet, g.point ≠ .sendPacketsInWindow packet)
      (hlast : LastSent head g.lastRawPacket)

/-- `g` is in the iteration that began as `head`. -/
structure Iteration (head g : GoBackNSender) : Prop where
  base : g.base = head.base
  chunks : g.chunks = head.chunks
  offset : g.offsetInitialSeqNumber = head.offsetInitialSeqNumber
  protocol : g.nextSeqNum.protocol = .goBackN
  at_point : IterationAt head g

variable {head g : GoBackNSender} {port : UInt16}

theorem Iteration.totalChunks (h : Iteration head g) : g.totalChunks = head.totalChunks := by
  rw [GoBackNSender.totalChunks, h.chunks, GoBackNSender.totalChunks]

/-- A composed chunk packet is read back as it was. -/
theorem getPacketFromBytes_chunkPacket {raw : Bytes}
    (h : composePacketGbnForNet (g.chunkPacket port) = .ok raw) :
    (getPacketFromBytes raw).sequenceNumber =
        g.nextSeqNum.value + g.offsetInitialSeqNumber.value ∧
      (getPacketFromBytes raw).isFin = decide (g.nextSeqNum.value = g.totalChunks - 1) ∧
      (getPacketFromBytes raw).data = g.chunks.getD g.nextSeqNum.value [] := by
  rcases composePacketGbnForNet_cases (g.chunkPacket port) rfl with
    ⟨hport, hlen, hseq, hn, hok⟩ | herr
  · obtain rfl := Except.ok.inj (hok.symm.trans h)
    rw [getPacketFromBytes_gbnHeader hport hlen hseq hn]
    exact ⟨rfl, rfl, List.take_length⟩
  · rw [herr] at h
    cases h

theorem Iteration.sendPacketsInWindow (port : UInt16) (h : Iteration head g) {packet : Option Bytes}
    (hp : g.point = .sendPacketsInWindow packet) :
    (∃ raw, g.sendPacketsInWindow packet port =
        .running { g with
          nextSeqNum := g.nextSeqNum.step, point := .sendPacketsInWindow (some raw) } (some raw) ∧
        Iteration head { g with
          nextSeqNum := g.nextSeqNum.step, point := .sendPacketsInWindow (some raw) }) ∨
      (∃ e, g.sendPacketsInWindow packet port = .raised e) ∨
      (g.sendPacketsInWindow packet port =
        .running { g with lastRawPacket := packet, point := .awaitAckPhase } none ∧
        Iteration head { g with lastRawPacket := packet, point := .awaitAckPhase }) := by
  have htotal := h.totalChunks
  have hhead : head.nextSeqNum.value < head.totalChunks ∨
      ¬(g.nextSeqNum.value < g.base + windowSize ∧ g.nextSeqNum.value < g.totalChunks) := by
    cases h.at_point with
    | head _ hnext =>
        rw [← htotal, ← hnext]
        by_cases hlt : g.nextSeqNum.value < g.totalChunks
        · exact .inl hlt
        · exact .inr fun hc ↦ hlt hc.2
    | sending _ hk => exact .inl hk.head_lt
    | awaiting hpoint => exact absurd hp (hpoint packet)
  unfold GoBackNSender.sendPacketsInWindow
  split
  · rename_i hcond
    cases hok : composePacketGbnForNet (g.chunkPacket port) with
    | error e => exact .inr (.inl ⟨e, rfl⟩)
    | ok raw =>
        obtain ⟨hnumber, hfin, hdata⟩ := getPacketFromBytes_chunkPacket hok
        refine .inl ⟨raw, rfl, ⟨h.base, h.chunks, h.offset, ?_, ?_⟩⟩
        · rw [SequenceNumber.step_protocol]
          exact h.protocol
        · refine .sending (k := g.nextSeqNum.value) rfl ⟨?_, ?_, ?_, ?_, ?_, ?_⟩ ?_
          · exact htotal ▸ hcond.2
          · exact h.base ▸ hcond.1
          · exact hhead.resolve_right fun hn ↦ hn hcond
          · rw [hnumber, h.offset, Nat.add_comm]
          · rw [hfin, htotal]
          · rw [hdata, h.chunks]
          · simp only [SequenceNumber.step, h.protocol]
  · rename_i hcond
    refine .inr (.inr ⟨rfl, ⟨h.base, h.chunks, h.offset, h.protocol,
      .awaiting (fun _ hp ↦ by cases hp) ?_⟩⟩)
    cases h.at_point with
    | head hpoint hnext =>
        rw [hp] at hpoint
        cases hpoint
        rw [hnext, h.base, htotal] at hcond
        exact .nothing hcond
    | @sending k raw hpoint hk hnext =>
        rw [hp] at hpoint
        cases hpoint
        refine .chunk hk fun hc ↦ hcond ?_
        rw [hnext, h.base, htotal]
        have := hk.lt_total
        unfold SequenceNumber.stepGbn
        split <;> omega
    | awaiting hpoint => exact absurd hp (hpoint packet)

/-! ## From one iteration to the next -/

/-- What an iteration leaves alone. -/
structure Keeps (g g' : GoBackNSender) : Prop where
  lastRawPacket : g'.lastRawPacket = g.lastRawPacket
  chunks : g'.chunks = g.chunks
  offset : g'.offsetInitialSeqNumber = g.offsetInitialSeqNumber
  protocol : g'.nextSeqNum.protocol = g.nextSeqNum.protocol

/-- `await_ack_phase` ends, and the loop begins anew or is left. -/
inductive Resumes (g : GoBackNSender) : GoBackNSender.Result → Prop
  | again {g' : GoBackNSender} (hp : g'.point = .sendPacketsInWindow none) (h : Keeps g g') :
      Resumes g (.running g' none)
  | returned {g' : GoBackNSender} (h : Keeps g g') : Resumes g (.returned g')
  | raised (e : Exn) : Resumes g (.raised e)

theorem Keeps.refl (g : GoBackNSender) : Keeps g g := ⟨rfl, rfl, rfl, rfl⟩

theorem Keeps.acknowledge {g' : GoBackNSender} (h : Keeps g g') (n : Nat) :
    Keeps g (g'.acknowledge n) :=
  ⟨h.lastRawPacket, h.chunks, h.offset, h.protocol⟩

theorem Keeps.loop {g' : GoBackNSender} (h : Keeps g g') (acked : Bool) :
    Resumes g (g'.loop acked) := by
  unfold GoBackNSender.loop
  split
  · exact .again rfl ⟨h.lastRawPacket, h.chunks, h.offset, h.protocol⟩
  · exact .returned h

theorem Keeps.retransmissionNeeded {g' : GoBackNSender} (h : Keeps g g') :
    Resumes g g'.retransmissionNeeded := by
  have hreset : Keeps g g'.resetWindow := ⟨h.lastRawPacket, h.chunks, h.offset, h.protocol⟩
  exact hreset.loop false

theorem Keeps.accumulate {g' : GoBackNSender} (h : Keeps g g') (d : Time) (acked : Bool) :
    Resumes g (g'.accumulate d acked) := by
  unfold GoBackNSender.accumulate
  dsimp only
  split
  · exact Keeps.retransmissionNeeded ⟨h.lastRawPacket, h.chunks, h.offset, h.protocol⟩
  · have hspent : Keeps g { g' with spentInReception := g'.spentInReception + d } :=
      ⟨h.lastRawPacket, h.chunks, h.offset, h.protocol⟩
    exact hspent.loop acked

/-- An answer that names `n` moves the window, or is dealt with otherwise. -/
theorem Keeps.answered {g' : GoBackNSender} (h : Keeps g g') (n : Nat) (acked : Bool)
    {otherwise : GoBackNSender.Result} (ho : Resumes g otherwise) :
    Resumes g (if g'.ackNumber.value ≤ n then (g'.acknowledge n).loop acked else otherwise) := by
  split
  · exact (h.acknowledge n).loop acked
  · exact ho

theorem resumes_awaitAckPhaseClient (g : GoBackNSender) (received : Except Exn Packet) (d : Time) :
    Resumes g (g.awaitAckPhaseClient received d) := by
  have hback : Keeps g { g with alreadyReceivedFinBack := true } := ⟨rfl, rfl, rfl, rfl⟩
  have hrefl : Keeps g g := .refl g
  unfold GoBackNSender.awaitAckPhaseClient
  dsimp only
  split
  · cases Packet.getAckNumber _ with
    | error e => exact .raised e
    | ok n => exact hrefl.answered n _ (hrefl.accumulate d _)
  · split
    · cases Packet.getAckNumber _ with
      | error e => exact .raised e
      | ok n => exact hback.answered n _ (hback.accumulate d _)
    · cases Packet.getAckNumber _ with
      | error e => exact .raised e
      | ok n => exact hrefl.answered n _ (hrefl.accumulate d _)
  · split
    · exact hrefl.retransmissionNeeded
    · exact .raised _

theorem resumes_awaitAckPhaseServer (g : GoBackNSender) (received : Except Exn Packet) (d : Time) :
    Resumes g (g.awaitAckPhaseServer received d) := by
  have hback : ∀ back, Keeps g { g with alreadyReceivedFinBack := back } :=
    fun _ ↦ ⟨rfl, rfl, rfl, rfl⟩
  have hrefl : Keeps g g := .refl g
  unfold GoBackNSender.awaitAckPhaseServer
  dsimp only
  split
  · cases Packet.getAckNumber _ with
    | error e => exact .raised e
    | ok n => exact hrefl.answered n _ (hrefl.accumulate d false)
  · cases Packet.getAckNumber _ with
    | error e => exact .raised e
    | ok n =>
        dsimp only
        split
        · exact ((hback _).acknowledge n).loop _
        · exact .raised _
  · split
    · exact hrefl.accumulate d false
    · split
      · exact hrefl.retransmissionNeeded
      · exact .raised _

/-! ## Runs -/

/-- While `send_file` runs it is in an iteration; when it has returned, `sender` has the last
packet of one. -/
def SendFile.Wf : SendFile → Prop
  | .running head sender => Iteration head sender
  | .returned head sender => sender.chunks = head.chunks ∧
      sender.offsetInitialSeqNumber = head.offsetInitialSeqNumber ∧ LastSent head sender.lastRawPacket
  | .raised _ => True

theorem iteration_head {g : GoBackNSender} (hp : g.point = .sendPacketsInWindow none)
    (hproto : g.nextSeqNum.protocol = .goBackN) : Iteration g g :=
  ⟨rfl, rfl, rfl, hproto, .head hp rfl⟩

theorem SendFile.headAfter_of_eq {head sender : GoBackNSender}
    (h : sender.point = .sendPacketsInWindow none) : headAfter head sender = sender := if_pos h

theorem SendFile.headAfter_of_ne {head sender : GoBackNSender}
    (h : sender.point ≠ .sendPacketsInWindow none) : headAfter head sender = head := if_neg h

/-- An iteration whose window is used up is resumed by its answer. -/
theorem Resumes.wf (h : Iteration head g) (hlast : LastSent head g.lastRawPacket)
    {result : GoBackNSender.Result} (hr : Resumes g result) :
    (SendFile.ofResult head result).Wf := by
  cases hr with
  | again hp hk =>
      rw [SendFile.ofResult, SendFile.headAfter_of_eq hp]
      exact iteration_head hp (hk.protocol.trans h.protocol)
  | returned hk =>
      exact ⟨hk.chunks.trans h.chunks, hk.offset.trans h.offset, hk.lastRawPacket ▸ hlast⟩
  | raised e => trivial

theorem Iteration.lastSent (h : Iteration head g)
    (hp : ∀ packet, g.point ≠ .sendPacketsInWindow packet) : LastSent head g.lastRawPacket := by
  cases h.at_point with
  | head hpoint => exact absurd hpoint (hp _)
  | sending hpoint => exact absurd hpoint (hp _)
  | awaiting _ hlast => exact hlast

theorem Iteration.proceed (h : Iteration head g) (now : Time) :
    (SendFile.ofResult head (g.proceed port now)).Wf := by
  unfold GoBackNSender.proceed
  split
  · rename_i packet hp
    rcases h.sendPacketsInWindow port hp with ⟨raw, hok, hnext⟩ | ⟨e, herr⟩ | ⟨hok, hnext⟩
    · rw [hok, SendFile.ofResult, SendFile.headAfter_of_ne fun hc ↦ by cases hc]
      exact hnext
    · rw [herr]
      trivial
    · rw [hok, SendFile.ofResult, SendFile.headAfter_of_ne fun hc ↦ by cases hc]
      exact hnext
  · rename_i hp
    have hlast := h.lastSent fun packet hc ↦ by rw [hp] at hc; cases hc
    split
    · exact ((Keeps.refl g).loop true).wf h hlast
    · rw [SendFile.ofResult, SendFile.headAfter_of_ne fun hc ↦ by cases hc]
      exact ⟨h.base, h.chunks, h.offset, h.protocol, .awaiting (fun _ hc ↦ by cases hc) hlast⟩
  · rename_i hp
    rw [SendFile.ofResult, SendFile.headAfter_of_ne fun hc ↦ by rw [hp] at hc; cases hc]
    exact h

theorem SendFile.Wf.step {s : SendFile} (h : s.Wf)
    {awaitAckPhase : GoBackNSender → Except Exn Packet → Time → GoBackNSender.Result}
    (hawait : ∀ g received d, Resumes g (awaitAckPhase g received d)) (input : SenderInput) :
    (s.step awaitAckPhase port input).Wf := by
  cases s with
  | running head sender =>
      cases input with
      | proceed now => exact Iteration.proceed h now
      | answered received d =>
          rw [SendFile.step]
          split
          · rename_i hp
            exact (hawait sender received d).wf h
              (Iteration.lastSent h fun packet hc ↦ by rw [hp] at hc; cases hc)
          · exact h
  | returned head sender => exact h
  | raised e => trivial

theorem SendFile.wf_run (port : UInt16) {sender : GoBackNSender}
    (hproto : sender.nextSeqNum.protocol = .goBackN)
    (hopen : sender.base < sender.totalChunks)
    {awaitAckPhase : GoBackNSender → Except Exn Packet → Time → GoBackNSender.Result}
    (hawait : ∀ g received d, Resumes g (awaitAckPhase g received d)) (inputs : List SenderInput) :
    (SendFile.run awaitAckPhase port sender inputs).Wf := by
  induction inputs using List.reverseRecOn with
  | nil =>
      have hloop : sender.loop false = .running { sender with point := .sendPacketsInWindow none } none :=
        if_pos ⟨hopen, Bool.false_ne_true⟩
      rw [run, List.foldl_nil, hloop, ofResult, headAfter_of_eq rfl]
      exact iteration_head rfl hproto
  | append_singleton inputs input ih =>
      rw [run, List.foldl_append]
      exact ih.step hawait input

/-- The packet kept is the last chunk if the last iteration had it to send, and only then. -/
theorem LastSent.isLastChunk_iff {packet : Option Bytes} (h : LastSent head packet)
    {sender : GoBackNSender} (hchunks : sender.chunks = head.chunks)
    (hoffset : sender.offsetInitialSeqNumber = head.offsetInitialSeqNumber) :
    (∃ raw ∈ packet, IsLastChunk sender raw) ↔ LastChunkDue head := by
  have htotal : sender.totalChunks = head.totalChunks := by
    rw [GoBackNSender.totalChunks, hchunks, GoBackNSender.totalChunks]
  cases h with
  | nothing hfull =>
      refine ⟨?_, fun hdue ↦ absurd ⟨lt_of_lt_of_le hdue.1 hdue.2, hdue.1⟩ hfull⟩
      rintro ⟨raw, hraw, -⟩
      cases hraw
  | @chunk k raw hk hfull =>
      have hkt := hk.lt_total
      have hkw := hk.lt_window
      constructor
      · rintro ⟨_, ⟨⟩, hnumber, -, -⟩
        rw [hk.number, hoffset, htotal] at hnumber
        exact ⟨hk.head_lt, by omega⟩
      · intro hdue
        have hlast : k = head.totalChunks - 1 := by
          have := hdue.2
          omega
        refine ⟨raw, rfl, ?_, ?_, ?_⟩
        · rw [hk.number, hoffset, htotal, ← hlast]
        · rw [hk.isFin, decide_eq_true_iff]
          exact hlast
        · rw [hk.data, hchunks, htotal, ← hlast]

/-- For either class and any answers: when `send_file` returns, its raw packet is the last
chunk with FIN just when the last iteration of its loop began with that chunk yet to be sent. -/
theorem returns_last_chunk_iff (sequenceNumber ackNumber : SequenceNumber) (chunks : List Bytes)
    (port : UInt16) (inputs : List SenderInput) (head sender : GoBackNSender) :
    (1 ≤ chunks.length →
      SendFile.run GoBackNSender.awaitAckPhaseClient port
        (.initClient sequenceNumber ackNumber chunks) inputs = .returned head sender →
      ((∃ raw ∈ sender.lastRawPacket, IsLastChunk sender raw) ↔ LastChunkDue head)) ∧
    (2 ≤ chunks.length →
      SendFile.run GoBackNSender.awaitAckPhaseServer port
        (.initServer sequenceNumber ackNumber chunks) inputs = .returned head sender →
      ((∃ raw ∈ sender.lastRawPacket, IsLastChunk sender raw) ↔ LastChunkDue head)) := by
  refine ⟨fun hlen hrun ↦ ?_, fun hlen hrun ↦ ?_⟩
  · have hwf := SendFile.wf_run port
      (show (GoBackNSender.initClient sequenceNumber ackNumber chunks).nextSeqNum.protocol = _ from rfl)
      hlen resumes_awaitAckPhaseClient inputs
    rw [hrun] at hwf
    exact hwf.2.2.isLastChunk_iff hwf.1 hwf.2.1
  · have hwf := SendFile.wf_run port
      (show (GoBackNSender.initServer sequenceNumber ackNumber chunks).nextSeqNum.protocol = _ from rfl)
      hlen resumes_awaitAckPhaseServer inputs
    rw [hrun] at hwf
    exact hwf.2.2.isLastChunk_iff hwf.1 hwf.2.1

namespace Local

/-- `wait_for_ack` returns an ACK. -/
def ack (n : Nat) : SenderInput :=
  .answered (.ok ⟨.goBackN, n, true, false, false, 7001, 0, [], some n⟩) 0

/-- Both chunks are acknowledged one by one, and the last iteration sends nothing. -/
def oneByOne : List SenderInput :=
  [.proceed 0, .proceed 0, .proceed 0, .proceed 0, ack 4, .proceed 0, .proceed 0, ack 5, .proceed 0,
    .proceed 0]

/-- The second and the third chunk are sent twice before the second is acknowledged. -/
def repeated : List SenderInput :=
  [.proceed 0, .proceed 0, .proceed 0, .proceed 0,
    .answered (.error ExnClass.retransmissionNeeded.exn) 10000, .proceed 0, .proceed 0, .proceed 0,
    .proceed 0, ack 4]

end Local

theorem returns_last_chunk_acked :
    (∃ head sender, SendFile.run GoBackNSender.awaitAckPhaseClient 5001
        (.initClient ⟨3, .goBackN⟩ ⟨3, .goBackN⟩ [[7], [8]]) Local.oneByOne = .returned head sender ∧
        ((∃ raw ∈ sender.lastRawPacket, IsLastChunk sender raw) ↔ LastChunkDue head)) ∧
    ∃ head sender, SendFile.run GoBackNSender.awaitAckPhaseServer 5001
        (.initServer ⟨2, .goBackN⟩ ⟨2, .goBackN⟩ [[7], [8], [9]]) Local.repeated =
          .returned head sender ∧
        ((∃ raw ∈ sender.lastRawPacket, IsLastChunk sender raw) ↔ LastChunkDue head) :=
  ⟨⟨_, _, rfl, (returns_last_chunk_iff ⟨3, .goBackN⟩ ⟨3, .goBackN⟩ [[7], [8]] 5001 Local.oneByOne
      _ _).1 (by decide) rfl⟩,
    ⟨_, _, rfl, (returns_last_chunk_iff ⟨2, .goBackN⟩ ⟨2, .goBackN⟩ [[7], [8], [9]] 5001
      Local.repeated _ _).2 (by decide) rfl⟩⟩

/-- With both chunks of a file acknowledged one by one, the last iteration sends nothing. -/
theorem not_returns_last_chunk :
    ¬∀ inputs head sender,
      SendFile.run GoBackNSender.awaitAckPhaseClient 5001
          (.initClient ⟨3, .goBackN⟩ ⟨3, .goBackN⟩ [[7], [8]]) inputs = .returned head sender →
        sender.alreadyReceivedFinBack = false → ∃ raw ∈ sender.lastRawPacket, IsLastChunk sender raw := by
  intro h
  obtain ⟨raw, hraw, -⟩ := h Local.oneByOne _ _ rfl rfl
  cases hraw

end Rdt.Gbn
