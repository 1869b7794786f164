import Rdt.Gbn.Returning

/-!
# The first packet of a download

The connection sends it before it enters `send_file`, and waits for its ACK on its own.
-/

namespace Rdt.Gbn

open Server Server.ClientConnection SlidingWindow

variable {content : Bytes} {σ : Nat} {cfg : Config} {c c' : ClientConnection} {now : Time}
  {wire : List Bytes}

/-- What a packet that fits into a receiver's buffer says. -/
theorem toData_of_encode {n m : SequenceNumber} {isAck isSyn isFin : Bool} {port : UInt16}
    {data raw : Bytes} (hd : data.length ≤ fileChunkSizeGbn)
    (h : Protocol.encode .goBackN n (some m) isAck isSyn isFin port data = .ok raw) :
    toData raw = some ⟨n.value, isFin, data⟩ := by
  rcases Protocol.encode_gbn n m isAck isSyn isFin port data with ⟨raw', hok, hlen, hparse⟩ | herr
  · obtain rfl : raw' = raw := Except.ok.inj (hok.symm.trans h)
    have hfull : raw'.take fullBufferSize = raw' := by
      refine List.take_of_length_le ?_
      rw [hlen]
      exact le_trans (Nat.add_le_add_left hd 16) (by decide)
    rw [toData, if_neg (ne_nil_of_length hlen), hfull, hparse]
  · rw [herr] at h
    cases h

theorem getD_zero_chunksOf (content : Bytes) :
    (chunksOf content).getD 0 [] = content.take fileChunkSizeGbn := by
  by_cases hcontent : content = []
  · subst hcontent
    rfl
  · have hone : (chunksOf content).take 1 = [content.take fileChunkSizeGbn] :=
      successiveReads_take_one (totalChunks_pos hcontent)
    rw [List.getD_eq_getElem?_getD, ← List.getElem?_take_of_lt (Nat.zero_lt_one), hone]
    rfl

/-- The packet of a chunk, for a transfer whose first one has the number `offset`. -/
def chunkPacket (content : Bytes) (offset i : Nat) : Data UInt8 :=
  ⟨offset + i, i + 1 = totalChunks content, (chunksOf content).getD i []⟩

theorem chunk_eq {first offset i : Nat} (h : 0 < totalChunks content) :
    (transfer content first offset).chunk i = chunkPacket content offset i := by
  have hlast : i = totalChunks content - 1 ↔ i + 1 = totalChunks content := by omega
  show (⟨_, decide (i = totalChunks content - 1), _⟩ : Data UInt8) = _
  simp only [hlast]
  rfl

theorem chunkPacket_zero (content : Bytes) (σ : Nat) : chunkPacket content σ 0 =
    ⟨σ, 1 = totalChunks content, content.take fileChunkSizeGbn⟩ := by
  rw [chunkPacket, getD_zero_chunksOf, Nat.add_zero, Nat.zero_add]

/-- The connection has sent the first packet, as often as `wire` shows, and nothing else. -/
structure FirstSent (cfg : Config) (content : Bytes) (σ : Nat) (c : ClientConnection)
    (wire : List Bytes) : Prop where
  file : ∃ path node, c.file = some (FileHandler.read (.forReading path node content) fileChunkSizeGbn).2
  ack : ∃ a, c.ackNumber = some a
  nonempty : wire ≠ []
  wire : ∀ raw ∈ wire, toData raw = some (chunkPacket content σ 0)
  socket : ∀ raw ∈ c.socket.lastRawPacket,
    toData raw = some (chunkPacket content σ 0)

/-- `send_first_packet`: only a file of one chunk has nothing to wait for. -/
theorem firstSent_of_sendFirstPacket (hproto : cfg.protocolVersion = .goBackN) {path : String}
    {node : Option String}
    (hnumber : c.sequenceNumber = ⟨σ, .goBackN⟩) (hout : c.outbox = [])
    (h : sendFirstPacket cfg now (.forReading path node content) c = .ok c') :
    FirstSent cfg content σ c' (c'.outbox.to cfg.clientAddress) ∧
      (totalChunks content = 1 ∧ c'.point = .closingHandshakeForDownload ∨
        totalChunks content ≠ 1 ∧ c'.point = .waitForFirstPacketAck) := by
  have htotal : FileHandler.getNumberOfChunks content.length fileChunkSizeGbn =
      totalChunks content := (FileHandler.length_successiveReads _ _).symm
  let file := (FileHandler.read (.forReading path node content) fileChunkSizeGbn).2
  obtain ⟨c₁, hsend, h⟩ := except_bind_eq_ok.mp h
  obtain ⟨raw, henc, rfl⟩ := (send_eq_ok cfg).mp hsend
  have henc : Protocol.encode .goBackN ⟨σ, .goBackN⟩ c.ackNumber true false
      (1 = totalChunks content) cfg.address.port (content.take fileChunkSizeGbn) = .ok raw := by
    rw [← htotal, ← hnumber, ← hproto]
    exact henc
  obtain ⟨a, hack⟩ : ∃ a, c.ackNumber = some a := by
    cases hack : c.ackNumber with
    | none =>
        rw [hack] at henc
        cases henc
    | some a => exact ⟨a, rfl⟩
  have hdata : toData raw = some (chunkPacket content σ 0) := by
    rw [hack] at henc
    rw [chunkPacket_zero]
    refine toData_of_encode ?_ henc
    rw [List.length_take]
    exact Nat.min_le_left _ _
  have sent : ∀ point, FirstSent cfg content σ
      ((handed cfg { c with file := some file } raw).block point now)
      (((handed cfg { c with file := some file } raw).block point now).outbox.to
        cfg.clientAddress) := by
    intro point
    have hto : ((handed cfg { c with file := some file } raw).block point now).outbox.to
        cfg.clientAddress = [raw] := by simp [handed, block, hout]
    rw [hto]
    refine ⟨⟨path, node, rfl⟩, ⟨a, hack⟩, List.cons_ne_nil _ _, ?_, ?_⟩
    · intro raw' hraw'
      rw [List.mem_singleton.mp hraw', hdata]
    · rintro _ ⟨⟩
      exact hdata
  split at h
  · rename_i hone
    obtain rfl := Except.ok.inj h
    exact ⟨sent _, .inl ⟨(hone.trans htotal).symm, rfl⟩⟩
  · rename_i hone
    obtain rfl := Except.ok.inj h
    exact ⟨sent _, .inr ⟨fun h ↦ hone (h.symm.trans htotal.symm), rfl⟩⟩

/-- The loop of `send_file` is entered, unless the file was empty. -/
theorem onFirstPacketAck_point (h : FirstSent cfg content σ c wire) (now : Time) :
    1 < totalChunks content ∧ (∃ g, (handle cfg now (onFirstPacketAck cfg now c)).point =
        .sendFileGbn g) ∨
      totalChunks content ≤ 1 ∧ (handle cfg now (onFirstPacketAck cfg now c)).point =
        .closingHandshakeForDownload := by
  obtain ⟨path, node, hfile⟩ := h.file
  obtain ⟨a, hack⟩ := h.ack
  have hpos : (FileHandler.read (.forReading path node content) fileChunkSizeGbn).2.position =
      min content.length fileChunkSizeGbn := by simp [FileHandler.read, File.forReading]
  rcases Nat.lt_or_ge 1 (totalChunks content) with hseveral | hone
  · refine .inl ⟨hseveral, ?_⟩
    rw [onFirstPacketAck_eq hack hfile hpos hseveral]
    exact ⟨_, rfl⟩
  · refine .inr ⟨hone, ?_⟩
    simp only [onFirstPacketAck, hack, hfile, GoBackNSender.splitFileInChunksServer_eq hpos]
    rw [loop_eq, if_neg fun hcond ↦ absurd hcond.1 (Nat.not_lt.mpr hone)]
    rfl

/-- The connection waits for the ACK of the first packet, with all it has sent so far. -/
inductive AwaitsFirstAck (cfg : Config) (content : Bytes) (σ : Nat) :
    ClientConnection → List Bytes → Prop
  | sent {c c' : ClientConnection} {now : Time} {path : String} {node : Option String}
      (hnumber : c.sequenceNumber = ⟨σ, .goBackN⟩) (hout : c.outbox = [])
      (h : sendFirstPacket cfg now (.forReading path node content) c = .ok c')
      (hp : c'.point = .waitForFirstPacketAck) :
      AwaitsFirstAck cfg content σ c' (c'.outbox.to cfg.clientAddress)
  | again {c : ClientConnection} {wire : List Bytes} (h : AwaitsFirstAck cfg content σ c wire)
      (ev : Event) (hp : (c.step cfg ev).point = .waitForFirstPacketAck) :
      AwaitsFirstAck cfg content σ (c.step cfg ev)
        (wire ++ (c.step cfg ev).outbox.to cfg.clientAddress)

theorem AwaitsFirstAck.point (h : AwaitsFirstAck cfg content σ c wire) :
    c.point = .waitForFirstPacketAck := by
  cases h with
  | sent _ _ _ hp => exact hp
  | again _ _ hp => exact hp

/-- What an event makes of the wait. -/
theorem step_waitForFirstPacketAck (hp : c.point = .waitForFirstPacketAck)
    (h : FirstSent cfg content σ c wire) (ev : Event) :
    (c.step cfg ev).point = .waitForFirstPacketAck ∧
        FirstSent cfg content σ (c.step cfg ev)
          (wire ++ (c.step cfg ev).outbox.to cfg.clientAddress) ∨
      1 < totalChunks content ∧ (∃ g, (c.step cfg ev).point = .sendFileGbn g) ∨
      totalChunks content ≤ 1 ∧ (c.step cfg ev).point = .closingHandshakeForDownload ∨
      (c.step cfg ev).Leaving := by
  simp only [ClientConnection.step, onEvent, hp, ClientConnection.listen]
  split
  · refine .inl ⟨rfl, h.file, h.ack, ?_, ?_, h.socket⟩
    · exact fun hnil ↦ h.nonempty (List.append_eq_nil_iff.mp hnil).1
    · intro raw hraw
      rcases List.mem_append.mp hraw with hraw | hraw
      · exact h.wire raw hraw
      · exact h.socket raw (SocketSaw.mem_retransmission hraw)
  · refine .inr ?_
    have hsent : FirstSent cfg content σ { c with outbox := [] } wire :=
      ⟨h.file, h.ack, h.nonempty, h.wire, h.socket⟩
    have hpoint := onFirstPacketAck_point hsent ev.now
    rw [hp] at hpoint
    exact hpoint.elim .inl fun h ↦ .inr (.inl h)
  · exact .inr (.inr (.inr (leaving_handle_error cfg ev.now _)))

theorem AwaitsFirstAck.firstSent (hproto : cfg.protocolVersion = .goBackN)
    (h : AwaitsFirstAck cfg content σ c wire) :
    FirstSent cfg content σ c wire ∧ totalChunks content ≠ 1 := by
  induction h with
  | sent hnumber hout h hp =>
      obtain ⟨hsent, hcases⟩ := firstSent_of_sendFirstPacket hproto hnumber hout h
      rcases hcases with ⟨-, hp'⟩ | ⟨hne, -⟩
      · exact absurd (hp'.symm.trans hp) nofun
      · exact ⟨hsent, hne⟩
  | again h ev hp ih =>
      obtain ⟨hsent, hne⟩ := ih
      rcases step_waitForFirstPacketAck h.point hsent ev with ⟨-, h⟩ | ⟨-, _, hp'⟩ | ⟨-, hp'⟩ | h
      · exact ⟨h, hne⟩
      · exact absurd (hp'.symm.trans hp) nofun
      · exact absurd (hp'.symm.trans hp) nofun
      · cases h with
        | closing hp' => exact absurd (hp'.symm.trans hp) nofun
        | ended hp' => exact absurd (hp'.symm.trans hp) nofun

end Rdt.Gbn
