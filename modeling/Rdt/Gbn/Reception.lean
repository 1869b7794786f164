import Mathlib.Data.List.TakeDrop
import Rdt.Common.GoBackN

/-!
# `receive_file` over the packets that arrive

`GoBackNReceiver` of the server and of the client are one class here, and so is its run.  Its
file is compared with that of the reference receiver of Go-Back-N, its answers with what it
has appended.
-/

namespace Rdt.Gbn

open PacketParser

/-- `receive_file` after some packets, of which `appended` went to the file. -/
structure Reception where
  receiver : GoBackNReceiver
  appended : List Packet
  returned : Bool
deriving DecidableEq

namespace Reception

/-- `receive_file` is entered with both counters at `n`, one below the next chunk. -/
def start (n : Nat) (lastTransmittedPacket : Option Bytes) : Reception :=
  ⟨.init ⟨n, .goBackN⟩ ⟨n, .goBackN⟩ lastTransmittedPacket, [], false⟩

def take (s : Reception) (packet : Packet) : Reception :=
  if s.returned then s
  else
    let o := s.receiver.onPacket packet
    ⟨o.receiver, s.appended ++ o.appended.toList, o.finished⟩

def run (n : Nat) (lastTransmittedPacket : Option Bytes) (packets : List Packet) : Reception :=
  packets.foldl take (start n lastTransmittedPacket)

/-- The file that was empty when `receive_file` was entered. -/
def file (s : Reception) (path : String) (node : Option String) : File :=
  s.appended.foldl FileHandler.appendToFile (.forWriting path node)

/-- What a packet makes the receiver send. -/
def replies (s : Reception) (packet : Packet) : List GoBackNReceiver.Reply :=
  if s.returned then [] else (s.receiver.onPacket packet).replies

/-- The ACK number of an answer. -/
def ackNumber (s : Reception) : GoBackNReceiver.Reply → Option Nat
  | .sendAck _ ack => some ack.value
  | .resendLast => s.receiver.lastTransmittedPacket.bind fun raw ↦ (getPacketFromBytes raw).ackNumber

theorem written_file (s : Reception) (path : String) (node : Option String) :
    (s.file path node).written = s.appended.flatMap Packet.data := by
  have key : ∀ (packets : List Packet) (f : File),
      (packets.foldl FileHandler.appendToFile f).written =
        f.written ++ packets.flatMap Packet.data := by
    intro packets
    induction packets with
    | nil => simp
    | cons packet packets ih =>
        intro f
        rw [List.foldl_cons, ih]
        simp [FileHandler.appendToFile, File.written]
  exact (key s.appended _).trans (List.nil_append _)

theorem take_of_returned {s : Reception} (h : s.returned = true) (packet : Packet) :
    s.take packet = s := if_pos h

theorem foldl_take_of_returned {s : Reception} (h : s.returned = true) (packets : List Packet) :
    packets.foldl take s = s := by
  induction packets with
  | nil => rfl
  | cons packet packets ih => rw [List.foldl_cons, take_of_returned h, ih]

/-! ## The two phases -/

/-- The loop for the first chunk. -/
structure Waits (n : Nat) (last : Option Bytes) (s : Reception) : Prop where
  receiver : s.receiver = .init ⟨n, .goBackN⟩ ⟨n, .goBackN⟩ last
  appended : s.appended = []
  returned : s.returned = false

/-- The main loop, with the number of the packet it is waiting for. -/
structure Expects (e : Nat) (s : Reception) : Prop where
  point : s.receiver.point = .receiveLoop
  sqn : s.receiver.sqnNumber = ⟨e, .goBackN⟩
  ack : s.receiver.ackNumber = ⟨e, .goBackN⟩
  returned : s.returned = false

variable {n e : Nat} {last : Option Bytes} {s : Reception} {packet : Packet}

theorem waits_start : Waits n last (start n last) := ⟨rfl, rfl, rfl⟩

theorem Waits.take_of_ne (h : Waits n last s) (hne : packet.sequenceNumber ≠ n + 1) :
    Waits n last (s.take packet) := by
  rw [take, if_neg (by rw [h.returned]; exact Bool.false_ne_true)]
  simp only [GoBackNReceiver.onPacket, h.receiver, GoBackNReceiver.init,
    GoBackNReceiver.onFirstPacket, if_neg hne]
  exact ⟨rfl, by simp [h.appended], rfl⟩

/-- The first chunk without FIN is dropped. -/
theorem Waits.take_first (h : Waits n last s) (hn : n ≤ maxSequenceNumber)
    (hnum : packet.sequenceNumber = n + 1) (hfin : packet.isFin = false) :
    Expects (n + 1) (s.take packet) ∧ (s.take packet).appended = [] := by
  rw [take, if_neg (by rw [h.returned]; exact Bool.false_ne_true)]
  simp only [GoBackNReceiver.onPacket, h.receiver, GoBackNReceiver.init,
    GoBackNReceiver.onFirstPacket, if_pos hnum, hfin, GoBackNReceiver.step,
    SequenceNumber.step_mk_gbn, SequenceNumber.stepGbn_of_le hn]
  exact ⟨⟨rfl, rfl, rfl, rfl⟩, by simp [h.appended]⟩

theorem Waits.take_only (h : Waits n last s) (hnum : packet.sequenceNumber = n + 1)
    (hfin : packet.isFin = true) :
    (s.take packet).appended = (if 0 < packet.payloadLength then [packet] else []) ∧
      (s.take packet).returned = true := by
  rw [take, if_neg (by rw [h.returned]; exact Bool.false_ne_true)]
  simp only [GoBackNReceiver.onPacket, h.receiver, GoBackNReceiver.init,
    GoBackNReceiver.onFirstPacket, if_pos hnum, hfin]
  refine ⟨?_, trivial⟩
  by_cases hpos : 0 < packet.payloadLength <;> simp [hpos, h.appended]

theorem Expects.take_of_ne (h : Expects e s) (hne : packet.sequenceNumber ≠ e) :
    s.take packet = s := by
  have hneg : ¬s.receiver.sqnNumber.value = packet.sequenceNumber := by
    rw [h.sqn]
    exact Ne.symm hne
  rw [take, if_neg (by rw [h.returned]; exact Bool.false_ne_true)]
  simp only [GoBackNReceiver.onPacket, h.point, GoBackNReceiver.onLoopPacket, if_neg hneg,
    Option.toList_none, List.append_nil]
  rw [← h.returned]

theorem Expects.take_of_eq (h : Expects e s) (hnum : packet.sequenceNumber = e) :
    (s.take packet).appended = s.appended ++ [packet] ∧ (s.take packet).returned = packet.isFin ∧
      (packet.isFin = false → Expects (SequenceNumber.stepGbn e) (s.take packet)) := by
  have hpos : s.receiver.sqnNumber.value = packet.sequenceNumber := by
    rw [h.sqn, hnum]
  rw [take, if_neg (by rw [h.returned]; exact Bool.false_ne_true)]
  simp only [GoBackNReceiver.onPacket, h.point, GoBackNReceiver.onLoopPacket, if_pos hpos]
  refine ⟨by simp, trivial, fun hfin ↦ ?_⟩
  rw [hfin]
  exact ⟨h.point, by simp [GoBackNReceiver.step, h.sqn], by simp [GoBackNReceiver.step, h.ack], rfl⟩

/-! ## Acknowledgements -/

/-- What holds in every state of a run. -/
inductive Reached (n : Nat) (last : Option Bytes) (s : Reception) : Prop
  | waits (h : Waits n last s)
  | expects {e : Nat} (h : Expects e s) (hlast : s.receiver.lastTransmittedPacket = last)
      (hall : ∀ m, n < m → m < e → ∃ p ∈ s.appended, p.sequenceNumber = m)
  | returned (h : s.returned = true)

theorem lastTransmittedPacket_take (s : Reception) (packet : Packet) :
    (s.take packet).receiver.lastTransmittedPacket = s.receiver.lastTransmittedPacket := by
  unfold take GoBackNReceiver.onPacket
  split
  · rfl
  · cases s.receiver.point with
    | receiveFirstChunk =>
        simp only [GoBackNReceiver.onFirstPacket]
        split <;> rfl
    | receiveLoop =>
        simp only [GoBackNReceiver.onLoopPacket]
        split
        · cases packet.isFin <;> rfl
        · rfl

theorem Reached.take (h : Reached n last s) (hn : n ≤ maxSequenceNumber) (packet : Packet) :
    Reached n last (s.take packet) := by
  cases h with
  | waits h =>
      by_cases hnum : packet.sequenceNumber = n + 1
      · cases hfin : packet.isFin with
        | true => exact .returned (h.take_only hnum hfin).2
        | false =>
            refine .expects (h.take_first hn hnum hfin).1 ?_ fun m _ _ ↦ by omega
            rw [lastTransmittedPacket_take, h.receiver]
            rfl
      · exact .waits (h.take_of_ne hnum)
  | @expects e h hlast hall =>
      by_cases hnum : packet.sequenceNumber = e
      · obtain ⟨happ, hret, hnext⟩ := h.take_of_eq hnum
        cases hfin : packet.isFin with
        | true => exact .returned (hret.trans hfin)
        | false =>
            refine .expects (hnext hfin) ((lastTransmittedPacket_take s packet).trans hlast) ?_
            intro m hm hlt
            rw [happ]
            by_cases hme : m < e
            · obtain ⟨p, hp, hpm⟩ := hall m hm hme
              exact ⟨p, List.mem_append_left _ hp, hpm⟩
            · -- only the number just taken is left, also where the counter wraps around
              have hme' : m = e := by
                unfold SequenceNumber.stepGbn at hlt
                split at hlt <;> omega
              exact ⟨packet, List.mem_append_right _ (List.mem_singleton.mpr rfl), hnum.trans hme'.symm⟩
      · rw [h.take_of_ne hnum]
        exact .expects h hlast hall
  | returned h =>
      rw [take_of_returned h]
      exact .returned h

theorem reached_run (hn : n ≤ maxSequenceNumber) (last : Option Bytes) (packets : List Packet) :
    Reached n last (run n last packets) := by
  induction packets using List.reverseRecOn with
  | nil => exact .waits waits_start
  | append_singleton packets packet ih =>
      rw [run, List.foldl_append]
      exact ih.take hn packet

/-- Whatever chunk an answer to `packet` names, it and all before it are in the file with
`packet`; the chunks have the numbers from `n + 1` to `n + total`. -/
def Sound (n total : Nat) (s : Reception) (packet : Packet) : Prop :=
  ∀ reply ∈ s.replies packet, ∀ k ∈ s.ackNumber reply, n < k → k ≤ n + total →
    ∀ m, n < m → m ≤ k → ∃ p ∈ (s.take packet).appended, p.sequenceNumber = m

/-- While the main loop waits for a chunk, `packet` is that chunk. -/
def Awaited (n total : Nat) (s : Reception) (packet : Packet) : Prop :=
  s.returned = false → s.receiver.point = .receiveLoop → n < s.receiver.sqnNumber.value →
    s.receiver.sqnNumber.value ≤ n + total →
    (∀ p ∈ s.appended, p.sequenceNumber ≠ s.receiver.sqnNumber.value) →
    packet.sequenceNumber = s.receiver.sqnNumber.value

theorem Waits.ackNumber_le (h : Waits n last s)
    (hlast : ∀ raw ∈ last, ∀ k ∈ (getPacketFromBytes raw).ackNumber, k ≤ n)
    {reply : GoBackNReceiver.Reply} (hreply : reply ∈ s.replies packet) {k : Nat}
    (hk : k ∈ s.ackNumber reply) : k ≤ n := by
  rw [replies, if_neg (by rw [h.returned]; exact Bool.false_ne_true)] at hreply
  cases reply with
  | sendAck sqn ack =>
      have hack : ack = ⟨n, .goBackN⟩ := by
        have hmem : GoBackNReceiver.Reply.sendAck sqn ack ∈ s.receiver.chunkReplies packet := by
          simp only [GoBackNReceiver.onPacket, h.receiver, GoBackNReceiver.init,
            GoBackNReceiver.onFirstPacket] at hreply ⊢
          split at hreply
          · exact hreply
          · simpa using hreply
        rw [GoBackNReceiver.chunkReplies, h.receiver] at hmem
        split at hmem
        · simp only [GoBackNReceiver.init, List.mem_singleton,
            GoBackNReceiver.Reply.sendAck.injEq] at hmem
          exact hmem.2
        · cases hmem
      simp only [ackNumber, hack, Option.mem_def, Option.some.injEq] at hk
      exact hk.symm.le
  | resendLast =>
      rw [ackNumber, h.receiver] at hk
      obtain ⟨raw, hraw, hk⟩ := Option.bind_eq_some_iff.mp hk
      exact hlast raw hraw k hk

theorem Expects.replies_of_ne (h : Expects e s) (hne : packet.sequenceNumber ≠ e) :
    s.replies packet = [.sendAck ⟨e, .goBackN⟩ ⟨e, .goBackN⟩] := by
  have hneg : ¬e = packet.sequenceNumber := Ne.symm hne
  rw [replies, if_neg (by rw [h.returned]; exact Bool.false_ne_true)]
  simp only [GoBackNReceiver.onPacket, h.point, GoBackNReceiver.onLoopPacket, h.sqn, h.ack,
    if_neg hneg]

theorem Expects.ackNumber_eq (h : Expects e s) {reply : GoBackNReceiver.Reply}
    (hreply : reply ∈ s.replies packet) {k : Nat} (hk : k ∈ s.ackNumber reply) : k = e := by
  have hmem : reply = .sendAck ⟨e, .goBackN⟩ ⟨e, .goBackN⟩ := by
    by_cases hnum : packet.sequenceNumber = e
    · have hpos : s.receiver.sqnNumber.value = packet.sequenceNumber := by
        rw [h.sqn, hnum]
      have hmem : reply ∈ s.receiver.chunkReplies packet := by
        rw [replies, if_neg (by rw [h.returned]; exact Bool.false_ne_true)] at hreply
        simpa only [GoBackNReceiver.onPacket, h.point, GoBackNReceiver.onLoopPacket, if_pos hpos]
          using hreply
      rw [GoBackNReceiver.chunkReplies, h.sqn, h.ack] at hmem
      split at hmem
      · exact List.mem_singleton.mp hmem
      · cases hmem
    · rw [h.replies_of_ne hnum] at hreply
      exact List.mem_singleton.mp hreply
  rw [hmem, ackNumber] at hk
  exact (Option.some.inj hk).symm

/-- In every run the answers are sound as long as the main loop gets the chunk it is waiting
for, and no longer: to anything else it answers with the number of that chunk. -/
theorem sound_iff_awaited {n total : Nat} (hn : n ≤ maxSequenceNumber) {last : Option Bytes}
    (hlast : ∀ raw ∈ last, ∀ k ∈ (getPacketFromBytes raw).ackNumber, k ≤ n)
    (packets : List Packet) (packet : Packet) :
    Sound n total (run n last packets) packet ↔ Awaited n total (run n last packets) packet := by
  have hreached := reached_run hn last packets
  generalize run n last packets = s at hreached
  cases hreached with
  | waits h =>
      refine ⟨fun _ _ hpoint ↦ ?_, fun _ reply hreply k hk hlt ↦ ?_⟩
      · rw [h.receiver] at hpoint
        cases hpoint
      · exact absurd (h.ackNumber_le hlast hreply hk) (Nat.not_le_of_lt hlt)
  | @expects e h hlast hall =>
      simp only [Awaited, h.sqn]
      constructor
      · intro hsound _ _ hlt hle hmissing
        by_contra hne
        obtain ⟨p, hp, hpe⟩ := hsound _ (by rw [h.replies_of_ne hne]; exact List.mem_singleton.mpr rfl)
          e rfl hlt hle e hlt (le_refl e)
        rw [h.take_of_ne hne] at hp
        exact hmissing p hp hpe
      · intro hawaited reply hreply k hk hlt hle m hm hmk
        obtain rfl : k = e := h.ackNumber_eq hreply hk
        have hkeep : ∀ p ∈ s.appended, p ∈ (s.take packet).appended := by
          intro p hp
          by_cases hnum : packet.sequenceNumber = k
          · rw [(h.take_of_eq hnum).1]
            exact List.mem_append_left _ hp
          · rwa [h.take_of_ne hnum]
        by_cases hthere : ∃ p ∈ s.appended, p.sequenceNumber = k
        · obtain ⟨p, hp, hpk⟩ := hthere
          by_cases hmk' : m < k
          · obtain ⟨q, hq, hqm⟩ := hall m hm hmk'
            exact ⟨q, hkeep q hq, hqm⟩
          · exact ⟨p, hkeep p hp, by omega⟩
        · have hnum := hawaited h.returned h.point hlt hle fun p hp hpk ↦ hthere ⟨p, hp, hpk⟩
          by_cases hmk' : m < k
          · obtain ⟨q, hq, hqm⟩ := hall m hm hmk'
            exact ⟨q, hkeep q hq, hqm⟩
          · rw [(h.take_of_eq hnum).1]
            exact ⟨packet, List.mem_append_right _ (List.mem_singleton.mpr rfl), by omega⟩
  | returned h =>
      refine ⟨fun _ hret ↦ ?_, fun _ reply hreply ↦ ?_⟩
      · rw [h] at hret
        cases hret
      · rw [replies, if_pos h] at hreply
        cases hreply

/-! ## Packets of one transfer -/

/-- A data packet of the transfer of `chunks`, whose first chunk has the number `first`. -/
def Carries (chunks : List Bytes) (first : Nat) (p : Packet) : Prop :=
  ∃ i, ∃ hi : i < chunks.length, p.sequenceNumber = first + i ∧
    (p.isFin = true ↔ i + 1 = chunks.length) ∧ p.data = chunks[i] ∧ p.payloadLength = p.data.length

/-- Such a packet. -/
def chunkPacket (chunks : List Bytes) (first i : Nat) : Packet where
  protocol := .goBackN
  sequenceNumber := first + i
  isAck := false
  isSyn := false
  isFin := i + 1 = chunks.length
  port := 0
  payloadLength := (chunks.getD i []).length
  data := chunks.getD i []
  ackNumber := some first

theorem carries_chunkPacket {chunks : List Bytes} {i : Nat} (hi : i < chunks.length)
    (first : Nat) : Carries chunks first (chunkPacket chunks first i) := by
  refine ⟨i, hi, rfl, decide_eq_true_iff, ?_, rfl⟩
  show chunks.getD i [] = chunks[i]
  rw [List.getD_eq_getElem?_getD, List.getElem?_eq_getElem hi, Option.getD_some]

theorem sound_iff_awaited_two :
    Sound 3 2 (run 3 none [chunkPacket [[1], [2]] 4 0]) (chunkPacket [[1], [2]] 4 0) ↔
      Awaited 3 2 (run 3 none [chunkPacket [[1], [2]] 4 0]) (chunkPacket [[1], [2]] 4 0) :=
  sound_iff_awaited (by decide) (fun _ h ↦ (by cases h)) _ _

/-- After the first of two chunks the second one is answered with the number of the first,
which was dropped. -/
theorem not_sound :
    ¬∀ packets packet, (∀ p ∈ packets ++ [packet], Carries [[1], [2]] 4 p) →
      Sound 3 2 (run 3 none packets) packet := by
  intro h
  have hsound := h [chunkPacket [[1], [2]] 4 0] (chunkPacket [[1], [2]] 4 1) (by
    intro p hp
    rcases List.mem_pair.mp hp with rfl | rfl
    · exact carries_chunkPacket (by decide) 4
    · exact carries_chunkPacket (by decide) 4)
  obtain ⟨p, hp, -⟩ := hsound (.sendAck ⟨4, .goBackN⟩ ⟨4, .goBackN⟩) (by decide) 4 rfl (by decide)
    (by decide) 4 (by decide) (by decide)
  have hnone : ((run 3 none [chunkPacket [[1], [2]] 4 0]).take
      (chunkPacket [[1], [2]] 4 1)).appended = [] := by decide
  rw [hnone] at hp
  cases hp

/-! ## The reference receiver -/

/-- The receiver of Go-Back-N: the number it expects, the bytes it has appended, whether it
has stopped.  Its numbers advance as all sequence numbers do. -/
structure Reference where
  expected : Nat
  written : Bytes
  stopped : Bool
deriving DecidableEq

namespace Reference

def take (a : Reference) (packet : Packet) : Reference :=
  if a.stopped then a
  else if packet.sequenceNumber = a.expected then
    ⟨SequenceNumber.stepGbn a.expected, a.written ++ packet.data, packet.isFin⟩
  else a

def run (first : Nat) (packets : List Packet) : Reference :=
  packets.foldl take ⟨first, [], false⟩

theorem foldl_take_of_stopped {a : Reference} (h : a.stopped = true) (packets : List Packet) :
    packets.foldl take a = a := by
  induction packets with
  | nil => rfl
  | cons packet packets ih => rw [List.foldl_cons, take, if_pos h, ih]

theorem take_of_ne {a : Reference} (h : packet.sequenceNumber ≠ a.expected) : a.take packet = a := by
  rw [take, if_neg h, ite_self]

theorem take_of_eq {a : Reference} (hs : a.stopped = false)
    (h : packet.sequenceNumber = a.expected) :
    a.take packet =
      ⟨SequenceNumber.stepGbn a.expected, a.written ++ packet.data, packet.isFin⟩ := by
  rw [take, if_neg (by rw [hs]; exact Bool.false_ne_true), if_pos h]

end Reference

/-- The bytes appended so far. -/
def written (s : Reception) : Bytes := (s.file "" none).written

theorem written_eq (s : Reception) : s.written = s.appended.flatMap Packet.data :=
  written_file s "" none

/-- Both have appended the same bytes, and both have stopped or neither has. -/
structure Agrees (s : Reception) (a : Reference) : Prop where
  written : s.written = a.written
  stopped : s.returned = a.stopped

/-- In the main loop both also wait for the same number. -/
structure Follows (s : Reception) (a : Reference) : Prop extends Agrees s a where
  expects : s.returned = false → Expects a.expected s

theorem Follows.take {a : Reference} (h : Follows s a) (packet : Packet) :
    Follows (s.take packet) (a.take packet) := by
  cases hret : s.returned with
  | true =>
      have hstop : a.stopped = true := h.stopped.symm.trans hret
      rw [take_of_returned hret, Reference.take, if_pos hstop]
      exact h
  | false =>
      have hstop : a.stopped = false := h.stopped.symm.trans hret
      have he := h.expects hret
      by_cases hnum : packet.sequenceNumber = a.expected
      · obtain ⟨happ, hfin, hnext⟩ := he.take_of_eq hnum
        rw [Reference.take_of_eq hstop hnum]
        refine ⟨⟨?_, hfin⟩, fun hgo ↦ hnext (hfin.symm.trans hgo)⟩
        rw [written_eq, happ, List.flatMap_append, ← written_eq, h.written]
        simp
      · rw [he.take_of_ne hnum, Reference.take_of_ne hnum]
        exact h

theorem Follows.run {a : Reference} (h : Follows s a) (packets : List Packet) :
    Follows (packets.foldl Reception.take s) (packets.foldl Reference.take a) := by
  induction packets generalizing s a with
  | nil => exact h
  | cons packet packets ih => exact ih (h.take packet)

/-- What is left of the packets without the one that the loop for the first chunk drops. -/
def withoutFirst (first : Nat) : List Packet → List Packet
  | [] => []
  | packet :: packets =>
      if packet.sequenceNumber = first then
        if packet.isFin then packet :: packets else packets
      else packet :: withoutFirst first packets

theorem Waits.agrees (h : Waits n last s) (hn : n ≤ maxSequenceNumber) {packets : List Packet}
    (hlen : ∀ p ∈ packets, p.payloadLength = 0 → p.data = []) :
    Agrees (packets.foldl Reception.take s) (Reference.run (n + 1) (withoutFirst (n + 1) packets)) := by
  induction packets generalizing s with
  | nil => exact ⟨by rw [List.foldl_nil, written_eq, h.appended]; rfl, h.returned⟩
  | cons packet packets ih =>
      rw [withoutFirst, List.foldl_cons]
      by_cases hnum : packet.sequenceNumber = n + 1
      · rw [if_pos hnum]
        cases hfin : packet.isFin with
        | true =>
            obtain ⟨happ, hret⟩ := h.take_only hnum hfin
            rw [if_pos rfl, Reference.run, List.foldl_cons, Reference.take_of_eq rfl hnum,
              foldl_take_of_returned hret, Reference.foldl_take_of_stopped hfin]
            refine ⟨?_, hret.trans hfin.symm⟩
            rw [written_eq, happ]
            by_cases hpos : 0 < packet.payloadLength
            · simp [hpos]
            · simp [hpos, hlen packet List.mem_cons_self (by omega)]
        | false =>
            obtain ⟨he, happ⟩ := h.take_first hn hnum hfin
            rw [if_neg Bool.false_ne_true, Reference.run]
            refine (Follows.run (a := ⟨n + 1, [], false⟩) ⟨⟨?_, he.returned⟩, fun _ ↦ he⟩
              packets).toAgrees
            rw [written_eq, happ]
            rfl
      · have hstay : Reference.take ⟨n + 1, [], false⟩ packet = ⟨n + 1, [], false⟩ :=
          Reference.take_of_ne hnum
        rw [if_neg hnum, Reference.run, List.foldl_cons, hstay]
        exact ih (h.take_of_ne hnum) fun p hp ↦ hlen p (List.mem_cons_of_mem _ hp)

/-- The receiver is the reference receiver of the packets but for the first chunk it drops. -/
theorem run_agrees (hn : n ≤ maxSequenceNumber) (last : Option Bytes) {packets : List Packet}
    (hlen : ∀ p ∈ packets, p.payloadLength = 0 → p.data = []) :
    Agrees (run n last packets) (Reference.run (n + 1) (withoutFirst (n + 1) packets)) :=
  waits_start.agrees hn hlen

theorem withoutFirst_eq_self {first : Nat} {packets : List Packet}
    (h : ∀ p ∈ packets, p.sequenceNumber = first → p.isFin = true) :
    withoutFirst first packets = packets := by
  induction packets with
  | nil => rfl
  | cons packet packets ih =>
      rw [withoutFirst]
      split
      · rename_i hnum
        rw [if_pos (h packet List.mem_cons_self hnum)]
      · rw [ih fun p hp ↦ h p (List.mem_cons_of_mem _ hp)]

theorem withoutFirst_append {first : Nat} {packets : List Packet}
    (h : ∀ p ∈ packets, p.sequenceNumber ≠ first) (hnum : packet.sequenceNumber = first)
    (hfin : packet.isFin = false) : withoutFirst first (packets ++ [packet]) = packets := by
  induction packets with
  | nil => simp [withoutFirst, hnum, hfin]
  | cons p packets ih =>
      rw [List.cons_append, withoutFirst, if_neg (h p List.mem_cons_self),
        ih fun q hq ↦ h q (List.mem_cons_of_mem _ hq)]

namespace Reference

/-- Nothing is appended before the first chunk arrives. -/
theorem run_of_ne {first : Nat} {packets : List Packet}
    (h : ∀ p ∈ packets, p.sequenceNumber ≠ first) : run first packets = ⟨first, [], false⟩ := by
  rw [run]
  induction packets with
  | nil => rfl
  | cons packet packets ih =>
      have hstay : take ⟨first, [], false⟩ packet = ⟨first, [], false⟩ :=
        take_of_ne (h packet List.mem_cons_self)
      rw [List.foldl_cons, hstay]
      exact ih fun p hp ↦ h p (List.mem_cons_of_mem _ hp)

end Reference

theorem Carries.isFin {chunks : List Bytes} (h : Carries chunks (n + 1) packet)
    (hone : chunks.length = 1) : packet.isFin = true := by
  obtain ⟨i, hi, -, hfin, -⟩ := h
  exact hfin.mpr (by omega)

theorem Carries.first {chunks : List Bytes} (h : Carries chunks (n + 1) packet)
    (hne : ∀ c ∈ chunks, c ≠ []) (hmany : chunks.length ≠ 1)
    (hnum : packet.sequenceNumber = n + 1) : packet.isFin = false ∧ packet.data ≠ [] := by
  obtain ⟨i, hi, hseq, hfin, hdata, -⟩ := h
  have hi0 : i = 0 := by omega
  subst hi0
  refine ⟨Bool.eq_false_iff.mpr fun h ↦ ?_, ?_⟩
  · have := hfin.mp h
    omega
  · rw [hdata]
    exact hne _ (List.getElem_mem hi)

theorem Carries.length {chunks : List Bytes} {first : Nat} (h : Carries chunks first packet)
    (hlen : packet.payloadLength = 0) : packet.data = [] := by
  obtain ⟨i, hi, -, -, -, hpayload⟩ := h
  exact List.length_eq_zero_iff.mp (hpayload.symm.trans hlen)

/-- At every moment of a transfer the receiver agrees with the reference receiver just as
long as the first of several chunks has not arrived: it is dropped, to be sent again. -/
theorem agrees_iff {chunks : List Bytes} (hne : ∀ c ∈ chunks, c ≠ []) (hn : n ≤ maxSequenceNumber)
    (last : Option Bytes) {packets : List Packet}
    (hpackets : ∀ p ∈ packets, Carries chunks (n + 1) p) :
    (∀ arrived, arrived <+: packets →
        Agrees (run n last arrived) (Reference.run (n + 1) arrived)) ↔
      chunks.length = 1 ∨ ∀ p ∈ packets, p.sequenceNumber ≠ n + 1 := by
  have hall : ∀ arrived, arrived <+: packets → ∀ p ∈ arrived, Carries chunks (n + 1) p :=
    fun arrived h p hp ↦ hpackets p (h.subset hp)
  have hrun : ∀ arrived, arrived <+: packets →
      Agrees (run n last arrived) (Reference.run (n + 1) (withoutFirst (n + 1) arrived)) :=
    fun arrived h ↦ run_agrees hn last fun p hp ↦ (hall arrived h p hp).length
  constructor
  · intro hagrees
    by_contra hnot
    push Not at hnot
    obtain ⟨hmany, p, hp, hnum⟩ := hnot
    obtain ⟨first, hfind⟩ := Option.isSome_iff_exists.mp
      (List.find?_isSome (p := fun p ↦ p.sequenceNumber = n + 1).mpr ⟨p, hp, by simpa using hnum⟩)
    obtain ⟨hfirst, before, after, rfl, hbefore⟩ := List.find?_eq_some_iff_append.mp hfind
    have hpre : before ++ [first] <+: before ++ first :: after := ⟨after, by simp⟩
    have hfirst : first.sequenceNumber = n + 1 := by simpa using hfirst
    have hbefore : ∀ p ∈ before, p.sequenceNumber ≠ n + 1 := by simpa using hbefore
    obtain ⟨hfin, hdata⟩ :=
      (hall _ hpre first (List.mem_append_right _ (List.mem_singleton.mpr rfl))).first hne hmany hfirst
    have hcode := (hrun _ hpre).written
    rw [withoutFirst_append hbefore hfirst hfin, Reference.run_of_ne hbefore] at hcode
    have hreference := (hagrees _ hpre).written
    have hlast : Reference.run (n + 1) (before ++ [first]) =
        Reference.take ⟨n + 1, [], false⟩ first := by
      rw [Reference.run, List.foldl_append, ← Reference.run, Reference.run_of_ne hbefore]
      rfl
    rw [hcode, hlast, Reference.take_of_eq rfl hfirst] at hreference
    exact hdata (by simpa using hreference.symm)
  · intro hcond arrived harrived
    have hself : withoutFirst (n + 1) arrived = arrived := by
      refine withoutFirst_eq_self fun p hp hnum ↦ ?_
      rcases hcond with hone | hnone
      · exact (hall arrived harrived p hp).isFin hone
      · exact absurd hnum (hnone p (harrived.subset hp))
    have h := hrun arrived harrived
    rwa [hself] at h

theorem carries_of_mem_map {chunks : List Bytes} {indices : List Nat}
    (h : ∀ i ∈ indices, i < chunks.length) (first : Nat) {p : Packet}
    (hp : p ∈ indices.map (chunkPacket chunks first)) : Carries chunks first p := by
  obtain ⟨i, hi, rfl⟩ := List.mem_map.mp hp
  exact carries_chunkPacket (h i hi) first

/-- Three chunks, the second of them twice, with the first and without it -/
theorem agrees_iff_repeated :
    ((∀ arrived, arrived <+: [0, 1, 1, 2].map (chunkPacket [[1], [2], [3]] 4) →
        Agrees (run 3 none arrived) (Reference.run 4 arrived)) ↔
      ([[1], [2], [3]] : List Bytes).length = 1 ∨
        ∀ p ∈ [0, 1, 1, 2].map (chunkPacket [[1], [2], [3]] 4), p.sequenceNumber ≠ 4) ∧
    ((∀ arrived, arrived <+: [1, 1, 2].map (chunkPacket [[1], [2], [3]] 4) →
        Agrees (run 3 none arrived) (Reference.run 4 arrived)) ↔
      ([[1], [2], [3]] : List Bytes).length = 1 ∨
        ∀ p ∈ [1, 1, 2].map (chunkPacket [[1], [2], [3]] 4), p.sequenceNumber ≠ 4) :=
  ⟨agrees_iff (by decide) (by decide) none fun _ ↦ carries_of_mem_map (by decide) 4,
    agrees_iff (by decide) (by decide) none fun _ ↦ carries_of_mem_map (by decide) 4⟩

theorem not_agrees :
    ¬∀ packets, (∀ p ∈ packets, Carries [[1], [2]] 4 p) →
      Agrees (run 3 none packets) (Reference.run 4 packets) := by
  intro h
  have hagrees := h [chunkPacket [[1], [2]] 4 0] fun p hp ↦ by
    rw [List.mem_singleton.mp hp]
    exact carries_chunkPacket (by decide) 4
  exact absurd hagrees.written (by decide)

end Reception

end Rdt.Gbn
