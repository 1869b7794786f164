import Rdt.Client.Datagrams
import Rdt.Fields
import Rdt.Server.Answering
import Rdt.Wireshark

/-!
# Whatever is on the wire can be read

Every datagram of a client or of a server is composed again from what the parser reads in it, and the
dissector shows all of it.
-/

namespace Rdt

open PacketParser Wireshark

/-- The dissector shows the datagram in full, as the parser reads it, and the parser loses nothing. -/
structure Legible (raw : Bytes) : Prop where
  shown : ∃ tree, dissector raw = .ok (some tree) ∧ Shows tree (getPacketFromBytes raw) ∧
    tree.truncated = false
  composed : Protocol.composePacket (getPacketFromBytes raw).protocol (getPacketFromBytes raw) = .ok raw

variable {raw : Bytes}

/-! ## Frames -/

theorem dissector_saw (hlen : 6 ≤ raw.length) (hversion : versionOf raw = 0b00) :
    ∃ tree, dissector raw = .ok (some tree) ∧ Shows tree (getPacketFromBytes raw) := by
  have h2 : 2 ≤ raw.length := le_trans (by decide) hlen
  have hbyte : uint raw 0 1 = _ := uint_eq (le_trans (by decide) h2)
  obtain ⟨tree, htree, hshows⟩ := dissectSaw_shows hlen hversion
  refine ⟨tree, ?_, hshows⟩
  simp only [dissector, if_neg (not_lt.mpr h2), hbyte, bind, Except.bind, Nat.zero_add,
    ← versionOf_eq h2]
  rw [if_pos hversion, if_neg (not_lt.mpr hlen), htree]
  rfl

theorem dissector_gbn (hlen : 16 ≤ raw.length) (hversion : versionOf raw = 0b01) :
    ∃ tree, dissector raw = .ok (some tree) ∧ Shows tree (getPacketFromBytes raw) := by
  have h2 : 2 ≤ raw.length := le_trans (by decide) hlen
  have hbyte : uint raw 0 1 = _ := uint_eq (le_trans (by decide) h2)
  have hnot : versionOf raw ≠ 0b00 := by
    rw [hversion]
    decide
  obtain ⟨tree, htree, hshows⟩ := dissectGbn_shows hlen hversion
  refine ⟨tree, ?_, hshows⟩
  simp only [dissector, if_neg (not_lt.mpr h2), hbyte, bind, Except.bind, Nat.zero_add,
    ← versionOf_eq h2]
  rw [if_neg hnot, if_pos hversion, if_neg (not_lt.mpr hlen), htree]
  rfl

/-- A payload that is all there is shown as such. -/
theorem Wireshark.Shows.whole {tree : Tree} {p : Packet} (h : Shows tree p)
    (hdata : p.payloadLength ≤ p.data.length) : tree.truncated = false := by
  have hnot : ¬tree.truncated = true := fun ht ↦ not_lt.mpr hdata (h.truncated.mp ht)
  exact Bool.eq_false_iff.mpr hnot

theorem PacketParser.IsSawFrame.legible (h : IsSawFrame raw) : Legible raw := by
  have hlen : raw.length = 6 + sawLengthOf raw := h.length
  have hnot : versionOf raw ≠ 0b01 := by
    rw [h.version]
    decide
  have hcomposed := h.compose_parse
  obtain ⟨tree, htree, hshows⟩ := dissector_saw (Nat.le.intro hlen.symm) h.version
  rw [getPacketFromBytes_of_not_gbn hnot] at hcomposed hshows
  refine ⟨⟨tree, htree, ?_, hshows.whole ?_⟩, ?_⟩
  · rwa [getPacketFromBytes_of_not_gbn hnot]
  · exact Nat.le_of_eq ((length_slice_eq_iff (Nat.le.intro hlen.symm)).mpr hlen.ge)
  · rw [getPacketFromBytes_of_not_gbn hnot]
    exact hcomposed

theorem PacketParser.IsGbnFrame.legible (h : IsGbnFrame raw) : Legible raw := by
  have hlen : raw.length = 16 + gbnLengthOf raw := h.length
  have hcomposed := h.compose_parse
  obtain ⟨tree, htree, hshows⟩ := dissector_gbn (Nat.le.intro hlen.symm) h.version
  rw [getPacketFromBytes_of_gbn h.version] at hcomposed hshows
  refine ⟨⟨tree, htree, ?_, hshows.whole ?_⟩, ?_⟩
  · rwa [getPacketFromBytes_of_gbn h.version]
  · exact Nat.le_of_eq ((length_slice_eq_iff (Nat.le.intro hlen.symm)).mpr hlen.ge)
  · rw [getPacketFromBytes_of_gbn h.version]
    exact hcomposed

theorem PacketParser.IsFrame.legible (h : IsFrame raw) : Legible raw :=
  h.elim IsSawFrame.legible IsGbnFrame.legible

/-! ## A session -/

namespace Session

variable {ccfg : Client.Config} {scfg : Server.AccepterConfig} {serverDisk : Disk}
  {stale : List Bytes} {s : Session}

/-- What a client and a server have put on the wire, and what they would repeat -/
structure Framed (scfg : Server.AccepterConfig) (serverDisk : Disk) (stale : List Bytes)
    (s : Session) : Prop where
  client : s.client.Emits IsFrame
  server : ∃ es, s.server = Server.Accepter.run scfg serverDisk es
  wire : ∀ raw ∈ s.wire, raw ∈ stale ∨ IsFrame raw

theorem Framed.step (h : Framed scfg serverDisk stale s) (m : Move) :
    Framed scfg serverDisk stale (step ccfg scfg s m) := by
  have grown : ∀ {raws : List Bytes}, (∀ raw ∈ raws, IsFrame raw) →
      ∀ raw ∈ s.wire ++ raws, raw ∈ stale ∨ IsFrame raw := by
    intro raws hraws raw hr
    rcases List.mem_append.mp hr with hr | hr
    · exact h.wire raw hr
    · exact .inr (hraws raw hr)
  cases m with
  | client ev =>
      have hc : (s.client.step ccfg ev).Emits IsFrame := h.client.step composes_isFrame ev
      refine ⟨hc, h.server, grown ?_⟩
      intro raw hr
      obtain ⟨o, ho, rfl⟩ := List.mem_map.mp hr
      exact hc.outbox o ho
  | server e =>
      obtain ⟨es, hes⟩ := h.server
      have hrun : s.server.step scfg e = Server.Accepter.run scfg serverDisk (es ++ [e]) := by
        rw [Server.Accepter.run_append, hes]
      have hspoken := Server.Accepter.run_spoken scfg serverDisk (es ++ [e])
      rw [← hrun] at hspoken
      refine ⟨h.client, ⟨_, hrun⟩, grown ?_⟩
      intro raw hr
      obtain ⟨o, ho, rfl⟩ := List.mem_map.mp hr
      rcases List.mem_append.mp ho with ho | ho
      · exact (hspoken.accepter.outbox o ho).1
      · obtain ⟨b, hb, ho⟩ := List.mem_flatMap.mp ho
        exact ((hspoken.clients b hb).2.outbox o ho).1.1

theorem framed_start {clientDisk : Disk} {client : Client} {now : Time}
    (hstart : Client.start ccfg clientDisk now = .ok client) :
    Framed scfg serverDisk stale (start ccfg client clientDisk serverDisk now stale) := by
  have hc : client.Emits IsFrame :=
    Client.emits_start (fun _ _ _ _ hraw ↦ isFrame_of_encode hraw) hstart
  refine ⟨hc, ⟨[], rfl⟩, ?_⟩
  intro raw hr
  rcases List.mem_append.mp hr with hr | hr
  · exact .inl hr
  · obtain ⟨o, ho, rfl⟩ := List.mem_map.mp hr
    exact .inr (hc.outbox o ho)

/-- Whatever arrives at either end, no datagram of theirs is cut off, ambiguous or unknown to the
dissector. -/
theorem wire_legible {clientDisk : Disk} {client : Client} {now : Time}
    (hstart : Client.start ccfg clientDisk now = .ok client) (scfg : Server.AccepterConfig)
    (serverDisk : Disk) (stale : List Bytes) (moves : List Move) :
    ∀ raw ∈ (moves.foldl (step ccfg scfg) (start ccfg client clientDisk serverDisk now stale)).wire,
      raw ∈ stale ∨ Legible raw := by
  have hrun : Framed scfg serverDisk stale
      (moves.foldl (step ccfg scfg) (start ccfg client clientDisk serverDisk now stale)) := by
    induction moves using List.reverseRecOn with
    | nil => exact framed_start hstart
    | append_singleton moves m ih =>
        rw [List.foldl_append]
        exact ih.step m
  exact fun raw hr ↦ (hrun.wire raw hr).imp_right IsFrame.legible

theorem wire_legible_upload : ∃ client,
    Client.start (Local.uploader .goBackN) (Local.disk [7]) 0 = .ok client ∧
      ∀ raw ∈ ((Local.moves .goBackN).foldl (step (Local.uploader .goBackN) (Local.accepter .goBackN))
        (start (Local.uploader .goBackN) client (Local.disk [7]) (fun _ ↦ none) 0 [])).wire,
        Legible raw := by
  obtain ⟨client, hstart, -⟩ := Local.moves_admitted .goBackN [7]
  refine ⟨client, hstart, fun raw hr ↦ ?_⟩
  have hread := wire_legible hstart (Local.accepter .goBackN) (fun _ ↦ none) [] (Local.moves .goBackN)
  exact (hread raw hr).resolve_left List.not_mem_nil

end Session

end Rdt
