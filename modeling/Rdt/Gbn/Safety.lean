import Rdt.Gbn.Entry

/-!
# Safety of a Go-Back-N transfer

What the invariant of the window says of the code: of the file written so far, of the
sender's `base`, and, in runs without surprises, of the report of success.
-/

namespace Rdt.Gbn

open Duplex SlidingWindow

variable {content : Bytes} {σ first offset : Nat} {exact : Prop} {D : Discipline}
  {ccfg : Client.Config} {scfg : Server.Config}

/-- How many chunks were appended to a file. -/
def chunksAppended (f : File) : Nat := (received f).length

/-! ## The invariant seen through the refinement -/

theorem received_eq_take {s : Sender} {t : Receiver UInt8}
    (h : Good (transfer content first offset) exact s t) {f : File} (hf : received f = t.pieces) :
    received f = (chunksOf content).take (chunksAppended f) ∧
      chunksAppended f ≤ totalChunks content := by
  rw [chunksAppended, hf]
  exact ⟨h.pieces, h.length_le⟩

theorem ServerReceives.written {c : Server.ClientConnection} {s : Sender} {t : Receiver UInt8}
    (hc : ServerReceives c t ∨ t.phase = .chaos) (h : Good (transfer content first offset) exact s t) :
    ∃ f, c.file = some f ∧ received f = t.pieces ∧
      received f = (chunksOf content).take (chunksAppended f) ∧
      chunksAppended f ≤ totalChunks content ∧
      (.connectionFinalizationReceived ∈ c.reports → chunksAppended f = totalChunks content) := by
  have hc := hc.resolve_right h.sane.2
  obtain ⟨f, hfile, hf⟩ := hc.file
  obtain ⟨htake, hle⟩ := received_eq_take h hf
  refine ⟨f, hfile, hf, htake, hle, fun hu ↦ ?_⟩
  rw [chunksAppended, hf]
  exact (h.finished (hc.told hu)).1

theorem ClientReceives.written {peer : Address} {c : Client} {s : Sender} {t : Receiver UInt8}
    (hc : ClientReceives peer c t ∨ t.phase = .chaos)
    (h : Good (transfer content first offset) exact s t) :
    received c.file = t.pieces ∧ received c.file = (chunksOf content).take (chunksAppended c.file) ∧
      chunksAppended c.file ≤ totalChunks content ∧
      (.downloadCompleted ∈ c.reports → chunksAppended c.file = totalChunks content) := by
  have hc := hc.resolve_right h.sane.2
  obtain ⟨htake, hle⟩ := received_eq_take h hc.file
  refine ⟨hc.file, htake, hle, fun hu ↦ ?_⟩
  rw [chunksAppended, hc.file]
  exact (h.finished (hc.told hu)).1

/-- A sender in `send_file` is the window's. -/
theorem ClientSends.tracks {peer : Address} {c : Client} {s : Sender} {g : GoBackNSender}
    {P : Transfer UInt8} (h : ClientSends P peer c s) (hg : c.point = .sendFileGbn g) :
    Tracks P g s := by
  cases h.at_point with
  | sending hp ht =>
      rw [hp] at hg
      exact Client.Point.sendFileGbn.inj hg ▸ ht
  | waiting hp => rw [hp] at hg; cases hg
  | finalizing hp => rw [hp] at hg; cases hg
  | ended hp => rw [hp] at hg; cases hg

theorem ServerSends.tracks {c : Server.ClientConnection} {s : Sender} {g : GoBackNSender}
    {P : Transfer UInt8} (h : ServerSends P c s) (hg : c.point = .sendFileGbn g) : Tracks P g s := by
  cases h.at_point with
  | sending hp ht =>
      rw [hp] at hg
      exact Server.Point.sendFileGbn.inj hg ▸ ht
  | waiting _ hp => rw [hp] at hg; cases hg
  | ended hp => rw [hp] at hg; cases hg

/-! ## Runs -/

theorem UploadStarts.run {w w' : World Client Server.ClientConnection Bytes Bytes}
    (h : UploadStarts ccfg scfg content σ w) (hcontent : content ≠ [])
    (hP : (uploadTransfer content σ).Numbered exact)
    {ok : World Client Server.ClientConnection Bytes Bytes → Label Bytes Bytes → Prop}
    (hok : ∀ {w v ℓ}, UploadFollows h.client.proto h.client.task h.server.proto content σ w v →
      (contract hP).Holds v → ok w ℓ →
      guard (fun _ t i ↦ exact → Expected (uploadTransfer content σ) t i) v (ℓ.map toData toReply))
    (hrun : (uploadSystem D ccfg scfg).Run ok w w') :
    ∃ v, UploadFollows h.client.proto h.client.task h.server.proto content σ w' v ∧
      (contract hP).Holds v := by
  have hstart := contract_start hP (w := windowWorld (uploadTransfer content σ) w) rfl rfl
    (stale_windowWorld (Nat.lt_succ_self σ) h.toRight h.toLeft)
  obtain ⟨v, -, hrel, hv⟩ := (h.follows hcontent).run hok hstart hrun
  exact ⟨v, hrel, hv⟩

theorem DownloadStarts.run {w w' : World Server.ClientConnection Client Bytes Bytes}
    (h : DownloadStarts ccfg scfg content σ w) (hcontent : 1 < totalChunks content)
    (hP : (downloadTransfer content σ).Numbered exact)
    {ok : World Server.ClientConnection Client Bytes Bytes → Label Bytes Bytes → Prop}
    (hok : ∀ {w v ℓ}, DownloadFollows h.server.proto h.client.proto h.client.task content σ w v →
      (contract hP).Holds v → ok w ℓ →
      guard (fun _ t i ↦ exact → Expected (downloadTransfer content σ) t i) v
        (ℓ.map toData toReply))
    (hrun : (downloadSystem D ccfg scfg).Run ok w w') :
    ∃ v, DownloadFollows h.server.proto h.client.proto h.client.task content σ w' v ∧
      (contract hP).Holds v := by
  have hstart := contract_start hP (w := windowWorld (downloadTransfer content σ) w) rfl rfl
    (stale_windowWorld (Nat.lt_succ_self σ) h.toRight h.toLeft)
  obtain ⟨v, -, hrel, hv⟩ := (h.follows hcontent).run hok hstart hrun
  exact ⟨v, hrel, hv⟩

/-- A run without a condition on its steps has none on those of the window. -/
theorem guard_of_false {P : Transfer UInt8}
    (v : World Sender (Receiver UInt8) (Option (Data UInt8)) (Option Reply))
    (ℓ : Label (Option (Data UInt8)) (Option Reply)) :
    guard (fun _ t i ↦ False → Expected P t i) v ℓ := by
  cases ℓ with
  | right => exact False.elim
  | left | lose => trivial

/-! ## The file written so far -/

/-- At every moment the receiving end has written a prefix of the chunks, and all of them once
`receive_file` has returned. -/
theorem receiver_writes_in_order (content : Bytes) (σ : Nat) (D : Discipline) (ccfg : Client.Config)
    (scfg : Server.Config) :
    (∀ w w', UploadStarts ccfg scfg content σ w → content ≠ [] →
      σ + totalChunks content ≤ maxSequenceNumber → (uploadSystem D ccfg scfg).Reaches w w' →
      ∃ f k, w'.right.file = some f ∧ k ≤ totalChunks content ∧
        f.written = ((chunksOf content).take k).flatten ∧
        (.connectionFinalizationReceived ∈ w'.right.reports → k = totalChunks content)) ∧
    (∀ w w', DownloadStarts ccfg scfg content σ w → 1 < totalChunks content →
      σ + totalChunks content ≤ maxSequenceNumber + 1 → (downloadSystem D ccfg scfg).Reaches w w' →
      ∃ k, k ≤ totalChunks content ∧
        w'.right.file.written = ((chunksOf content).take k).flatten ∧
        (.downloadCompleted ∈ w'.right.reports → k = totalChunks content)) := by
  refine ⟨fun w w' h hcontent hfit hrun ↦ ?_, fun w w' h hcontent hfit hrun ↦ ?_⟩
  · have hP : (uploadTransfer content σ).Numbered False :=
      numbered (totalChunks_pos hcontent) (Nat.succ_pos σ) (by omega)
    obtain ⟨v, hrel, hv⟩ := h.run hcontent hP (fun _ _ _ ↦ guard_of_false _ _) hrun
    obtain ⟨f, hfile, -, htake, hle, hdone⟩ := ServerReceives.written hrel.right hv.inv
    refine ⟨f, chunksAppended f, hfile, hle, ?_, hdone⟩
    rw [← htake, flatten_received]
  · have hP : (downloadTransfer content σ).Numbered False :=
      numbered hcontent h.agree.1 hfit
    obtain ⟨v, hrel, hv⟩ := h.run hcontent hP (fun _ _ _ ↦ guard_of_false _ _) hrun
    obtain ⟨-, htake, hle, hdone⟩ := ClientReceives.written hrel.right hv.inv
    refine ⟨chunksAppended w'.right.file, hle, ?_, hdone⟩
    rw [← htake, flatten_received]

theorem receiver_writes_in_order_short :
    (∃ (w' : World Client Server.ClientConnection Bytes Bytes) (f : File) (k : Nat),
      .connectionFinalizationReceived ∈ w'.right.reports ∧ w'.right.file = some f ∧
        k ≤ totalChunks [7] ∧ f.written = ((chunksOf [7]).take k).flatten ∧
        (.connectionFinalizationReceived ∈ w'.right.reports → k = totalChunks [7])) ∧
    ∃ (w' : World Server.ClientConnection Client Bytes Bytes) (k : Nat),
      .downloadCompleted ∈ w'.right.reports ∧
        k ≤ totalChunks (List.replicate 1417 7) ∧
        w'.right.file.written = ((chunksOf (List.replicate 1417 7)).take k).flatten ∧
        (.downloadCompleted ∈ w'.right.reports → k = totalChunks (List.replicate 1417 7)) := by
  constructor
  · obtain ⟨w', hrun, htold⟩ := Local.exists_upload [7] (fun _ _ ↦ True) [.leftProceeds, .rightTakes]
      (p := fun w' ↦ .connectionFinalizationReceived ∈ w'.right.reports) (by decide +kernel)
    obtain ⟨f, k, h⟩ := (receiver_writes_in_order [7] 3 .fifo _ _).1 _ w'
      (Local.upload_starts (by decide)) (by decide) (by decide) hrun
    exact ⟨w', f, k, htold, h⟩
  · obtain ⟨w', hrun, htold⟩ := Local.exists_download (List.replicate 1417 7) (fun _ _ ↦ True)
      [.leftProceeds, .rightTakes] (p := fun w' ↦ .downloadCompleted ∈ w'.right.reports)
      (by decide +kernel)
    obtain ⟨k, h⟩ := (receiver_writes_in_order (List.replicate 1417 7) 2 .fifo _ _).2 _ w'
      (Local.download_starts (by decide +kernel)) (by decide +kernel) (by decide +kernel) hrun
    exact ⟨w', k, htold, h⟩

/-! ## The sender's window -/

/-- What the code's sender has in common with the window it follows. -/
theorem Tracks.window {g : GoBackNSender} {s : Sender} {t : Receiver UInt8}
    (h : Tracks (transfer content first offset) g s)
    (hg : Good (transfer content first offset) exact s t) {f : File} (hf : received f = t.pieces) :
    g.base ≤ chunksAppended f ∧
      (g.point = .awaitAckPhase →
        g.nextSeqNum.value = min (g.base + windowSize) (totalChunks content) ∧
          chunksAppended f ≤ g.nextSeqNum.value) := by
  rw [h.base, h.next, chunksAppended, hf]
  refine ⟨hg.base_le, fun hp ↦ ?_⟩
  have hphase : s.phase = .await := by rw [h.phase, hp, phaseOf]
  have hnext : s.next = min (s.base + windowSize) (totalChunks content) :=
    hg.next_eq (hg.full (.inl hphase))
  have hahead : t.pieces.length ≤ s.base + windowSize := hg.ahead
  have hle : t.pieces.length ≤ totalChunks content := hg.length_le
  exact ⟨hnext, by dsimp only; omega⟩

theorem Tracks.base_sub_ack {g g' : GoBackNSender} {s s' : Sender}
    (h : Tracks (transfer content first offset) g s)
    (h' : Tracks (transfer content first offset) g' s') :
    (g'.base : Int) - g'.ackNumber.value = g.base - g.ackNumber.value := by
  have hack : g.ackNumber.value = offset + s.base := h.ack
  have hack' : g'.ackNumber.value = offset + s'.base := h'.ack
  rw [h.base, h'.base, hack, hack']
  omega

/-- The window invariant of a sender that started as `g₀` and is `g` now, when the file written
by the other end is `f`. -/
structure WindowInvariant (content : Bytes) (g₀ g : GoBackNSender) (f : File) : Prop where
  appended : received f = (chunksOf content).take (chunksAppended f)
  base_le : g.base ≤ chunksAppended f
  await : g.point = .awaitAckPhase →
    g.nextSeqNum.value = min (g.base + windowSize) (totalChunks content) ∧
      chunksAppended f ≤ g.nextSeqNum.value
  ack : (g.base : Int) - g.ackNumber.value = g₀.base - g₀.ackNumber.value

/-- In every run both senders keep the window invariant, and `base` never decreases. -/
theorem window_invariant (content : Bytes) (σ : Nat) (D : Discipline) (ccfg : Client.Config)
    (scfg : Server.Config) :
    (∀ w w' g₀ g, UploadStarts ccfg scfg content σ w → content ≠ [] →
      σ + totalChunks content ≤ maxSequenceNumber → (uploadSystem D ccfg scfg).Reaches w w' →
      w.left.point = .sendFileGbn g₀ → w'.left.point = .sendFileGbn g →
      (∃ f, w'.right.file = some f ∧ WindowInvariant content g₀ g f) ∧
        ∀ w'' g', (uploadSystem D ccfg scfg).Reaches w' w'' →
          w''.left.point = .sendFileGbn g' → g.base ≤ g'.base) ∧
    (∀ w w' g₀ g, DownloadStarts ccfg scfg content σ w → 1 < totalChunks content →
      σ + totalChunks content ≤ maxSequenceNumber + 1 → (downloadSystem D ccfg scfg).Reaches w w' →
      w.left.point = .sendFileGbn g₀ → w'.left.point = .sendFileGbn g →
      WindowInvariant content g₀ g w'.right.file ∧
        ∀ w'' g', (downloadSystem D ccfg scfg).Reaches w' w'' →
          w''.left.point = .sendFileGbn g' → g.base ≤ g'.base) := by
  refine ⟨fun w w' g₀ g h hcontent hfit hrun hg₀ hg ↦ ?_,
    fun w w' g₀ g h hcontent hfit hrun hg₀ hg ↦ ?_⟩
  · have hP : (uploadTransfer content σ).Numbered False :=
      numbered (totalChunks_pos hcontent) (Nat.succ_pos σ) (by omega)
    obtain ⟨v, hrel, hv⟩ := h.run hcontent hP (fun _ _ _ ↦ guard_of_false _ _) hrun
    have tracks : ∀ {w g v}, UploadFollows h.client.proto h.client.task h.server.proto content σ w v →
        (contract hP).Holds v → w.left.point = .sendFileGbn g →
        Tracks (uploadTransfer content σ) g v.left :=
      fun hrel hv hg ↦ (hrel.left.resolve_right hv.inv.sane.1).tracks hg
    have ht := tracks hrel hv hg
    have ht₀ := (h.client.sends h.agree.2 hcontent).tracks hg₀
    obtain ⟨f, hfile, hf, htake, -, -⟩ := ServerReceives.written hrel.right hv.inv
    obtain ⟨hbase, hawait⟩ := ht.window hv.inv hf
    refine ⟨⟨f, hfile, htake, hbase, hawait, ht₀.base_sub_ack ht⟩, fun w'' g' hrun' hg' ↦ ?_⟩
    obtain ⟨v', hvv, hrel', hv'⟩ := hrel.run (fun _ _ _ ↦ guard_of_false _ _) hv hrun'
    rw [ht.base, (tracks hrel' hv' hg').base]
    exact base_le_of_run hvv
  · have hP : (downloadTransfer content σ).Numbered False :=
      numbered hcontent h.agree.1 hfit
    obtain ⟨v, hrel, hv⟩ := h.run hcontent hP (fun _ _ _ ↦ guard_of_false _ _) hrun
    have tracks : ∀ {w g v},
        DownloadFollows h.server.proto h.client.proto h.client.task content σ w v →
        (contract hP).Holds v → w.left.point = .sendFileGbn g →
        Tracks (downloadTransfer content σ) g v.left :=
      fun hrel hv hg ↦ (hrel.left.resolve_right hv.inv.sane.1).tracks hg
    have ht := tracks hrel hv hg
    have ht₀ := (h.server.sends h.agree.2 hcontent).tracks hg₀
    obtain ⟨hf, htake, -, -⟩ := ClientReceives.written hrel.right hv.inv
    obtain ⟨hbase, hawait⟩ := ht.window hv.inv hf
    refine ⟨⟨htake, hbase, hawait, ht₀.base_sub_ack ht⟩, fun w'' g' hrun' hg' ↦ ?_⟩
    obtain ⟨v', hvv, hrel', hv'⟩ := hrel.run (fun _ _ _ ↦ guard_of_false _ _) hv hrun'
    rw [ht.base, (tracks hrel' hv' hg').base]
    exact base_le_of_run hvv

theorem window_invariant_short :
    (∃ (w' : World Client Server.ClientConnection Bytes Bytes) (g₀ g : GoBackNSender),
      w'.left.point = .sendFileGbn g ∧ g.point = .awaitAckPhase ∧
        ∃ f, w'.right.file = some f ∧ WindowInvariant [7] g₀ g f) ∧
    ∃ (w' : World Server.ClientConnection Client Bytes Bytes) (g₀ g : GoBackNSender),
      w'.left.point = .sendFileGbn g ∧ g.point = .awaitAckPhase ∧
        WindowInvariant (List.replicate 1417 7) g₀ g w'.right.file := by
  constructor
  · let g : GoBackNSender :=
      { GoBackNSender.initClient ⟨3, .goBackN⟩ ⟨3, .goBackN⟩ [[7]] with
        nextSeqNum := ⟨1, .goBackN⟩
        lastRawPacket := some [72, 0, 19, 137, 0, 0, 0, 1, 0, 0, 0, 4, 0, 0, 0, 4, 7]
        point := .awaitAckPhase }
    obtain ⟨w', hrun, hg⟩ := Local.exists_upload [7] (fun _ _ ↦ True)
      [.leftProceeds, .rightTakes, .leftProceeds] (p := fun w' ↦ w'.left.point = .sendFileGbn g)
      (by decide +kernel)
    exact ⟨w', _, g, hg, rfl, ((window_invariant [7] 3 .fifo _ _).1 _ w' _ g
      (Local.upload_starts (by decide)) (by decide) (by decide) hrun
      (by rw [Local.upload, sendFile_eq rfl rfl rfl (by decide)]; rfl) hg).1⟩
  · have hstart : (Local.download (List.replicate 1417 7)).left.point = .sendFileGbn
        (GoBackNSender.initServer ⟨2, .goBackN⟩ ⟨2, .goBackN⟩ (chunksOf (List.replicate 1417 7))) := by
      rw [Local.download, onFirstPacketAck_eq rfl rfl (by decide +kernel) (by decide +kernel)]
      rfl
    let g : GoBackNSender :=
      { GoBackNSender.initServer ⟨2, .goBackN⟩ ⟨2, .goBackN⟩ (chunksOf (List.replicate 1417 7)) with
        nextSeqNum := ⟨2, .goBackN⟩
        lastRawPacket := some [72, 0, 27, 89, 0, 0, 0, 1, 0, 0, 0, 3, 0, 0, 0, 3, 7]
        point := .awaitAckPhase }
    obtain ⟨w', hrun, hg⟩ := Local.exists_download (List.replicate 1417 7) (fun _ _ ↦ True)
      [.leftProceeds, .rightTakes, .leftProceeds] (p := fun w' ↦ w'.left.point = .sendFileGbn g)
      (by decide +kernel)
    exact ⟨w', _, g, hg, rfl, ((window_invariant (List.replicate 1417 7) 2 .fifo _ _).2 _ w' _ g
      (Local.download_starts (by decide +kernel)) (by decide +kernel) (by decide +kernel) hrun hstart
      hg).1⟩

/-! ## The report of success -/

/-- While only the last chunk is missing, the main loop of `receive_file` gets no datagram with
another number than the one it expects. -/
def unsurprised (content : Bytes) (r : GoBackNReceiver) (f : File) (raw : Bytes) : Bool :=
  r.point ≠ .receiveLoop || chunksAppended f + 1 ≠ totalChunks content ||
    (PacketParser.getPacketFromBytes (raw.take fullBufferSize)).sequenceNumber = r.sqnNumber.value

def serverUnsurprised (content : Bytes) (c : Server.ClientConnection) (i : Option Bytes) : Bool :=
  match c.point, c.file, i with
  | .receiveFileGbn r, some f, some raw => unsurprised content r f raw
  | _, _, _ => true

def clientUnsurprised (content : Bytes) (c : Client) (i : Option Bytes) : Bool :=
  match c.point, i with
  | .receiveFileGbn r, some raw => unsurprised content r c.file raw
  | _, _ => true

/-- What arrives is then expected in the sense of the window. -/
theorem Reads.expected {r : GoBackNReceiver} {t : Receiver UInt8} (hr : Reads r t) {f : File}
    (hf : received f = t.pieces) {raw : Bytes} (h : unsurprised content r f raw) :
    Expected (transfer content first offset) t (some (toData raw)) := by
  intro d hd hphase hmissing
  have hraw : toData raw = some d := Option.some.inj hd
  have hmissing' : chunksAppended f + 1 = totalChunks content := by
    rw [chunksAppended, hf]
    exact hmissing
  unfold toData at hraw
  split at hraw
  · cases hraw
  · obtain rfl := Option.some.inj hraw
    simpa [unsurprised, hr.point_of_loop hphase, hmissing', hr.sqn] using h

theorem ServerReceives.expected {c : Server.ClientConnection} {t : Receiver UInt8}
    (hc : ServerReceives c t) {i : Option Bytes} (h : serverUnsurprised content c i) :
    Expected (transfer content first offset) t (i.map toData) := by
  obtain ⟨f, hfile, hf⟩ := hc.file
  cases i with
  | none => exact fun _ hi ↦ nomatch hi
  | some raw =>
      cases hc.at_point with
      | receiving hp hr => exact hr.expected hf (by simpa [serverUnsurprised, hp, hfile] using h)
      | closing _ ht => exact fun _ _ hphase ↦ absurd (ht.symm.trans hphase) nofun
      | ended _ ht => exact fun _ _ hphase ↦ absurd hphase ht

theorem ClientReceives.expected {peer : Address} {c : Client} {t : Receiver UInt8}
    (hc : ClientReceives peer c t) {i : Option Bytes} (h : clientUnsurprised content c i) :
    Expected (transfer content first offset) t (i.map toData) := by
  cases i with
  | none => exact fun _ hi ↦ nomatch hi
  | some raw =>
      cases hc.at_point with
      | receiving hp hr => exact hr.expected hc.file (by simpa [clientUnsurprised, hp] using h)
      | finalizing _ ht => exact fun _ _ hphase ↦ absurd (ht.symm.trans hphase) nofun
      | ended _ ht => exact fun _ _ hphase ↦ absurd hphase ht

/-- All chunks are there once as many are there as the file has. -/
theorem received_eq_chunksOf {f : File}
    (h : received f = (chunksOf content).take (chunksAppended f))
    (hlen : chunksAppended f = totalChunks content) : received f = chunksOf content := by
  rw [h, hlen]
  exact List.take_length

/-- In a run without surprises no end reports a success that is none. -/
theorem report_of_success (content : Bytes) (σ : Nat) (D : Discipline) (ccfg : Client.Config)
    (scfg : Server.Config) :
    (∀ w w', UploadStarts ccfg scfg content σ w → content ≠ [] →
      (uploadSystem D ccfg scfg).Run (guard fun _ c i ↦ serverUnsurprised content c i) w w' →
      .uploadCompleted ∈ w'.left.reports →
      ∃ f, w'.right.file = some f ∧ received f = chunksOf content) ∧
    (∀ w w', DownloadStarts ccfg scfg content σ w → 1 < totalChunks content →
      (downloadSystem D ccfg scfg).Run (guard fun _ c i ↦ clientUnsurprised content c i) w w' →
      .fileTransferComplete ∈ w'.left.reports → received w'.right.file = chunksOf content) := by
  refine ⟨fun w w' h hcontent hrun htold ↦ ?_, fun w w' h hcontent hrun htold ↦ ?_⟩
  · by_cases hfit : σ + 1 + totalChunks content ≤ maxSequenceNumber + 2
    · have hP : (uploadTransfer content σ).Numbered True :=
        numbered_exact trivial (totalChunks_pos hcontent) (Nat.succ_pos σ)
          (Nat.succ_lt_succ h.agree.1) hfit
      obtain ⟨v, hrel, hv⟩ := h.run hcontent hP (fun {w v ℓ} hrel hv hok ↦ by
        cases ℓ with
        | right i => exact fun _ ↦ (hrel.right.resolve_right hv.inv.sane.2).expected hok
        | left | lose => trivial) hrun
      obtain ⟨f, hfile, hf, htake, -, -⟩ := ServerReceives.written hrel.right hv.inv
      have hreported := (hrel.left.resolve_right hv.inv.sane.1).told htold
      refine ⟨f, hfile, received_eq_chunksOf htake ?_⟩
      rw [chunksAppended, hf]
      exact hv.inv.told trivial hreported
    · -- so many chunks that the transfer never ends
      have hP : (uploadTransfer content σ).Overflows (maxSequenceNumber + 1) :=
        overflows (Nat.succ_le_succ h.agree.2) (Nat.lt_of_not_le hfit)
      have hstart := endlessContract_start hP (w := windowWorld (uploadTransfer content σ) w) rfl rfl
        (Nat.succ_pos σ) (stale_windowWorld (Nat.lt_succ_self σ) h.toRight h.toLeft)
      obtain ⟨v, -, hrel, hv⟩ := (h.follows hcontent).run (fun _ _ _ ↦ guard_trivial _ _) hstart hrun
      have hreported := (hrel.left.resolve_right hv.inv.sender_sane.1).told htold
      exact absurd (hv.inv.not_told.symm.trans hreported) nofun
  · by_cases hfit : σ + totalChunks content ≤ maxSequenceNumber + 2
    · have hP : (downloadTransfer content σ).Numbered True :=
        numbered_exact trivial hcontent h.agree.1 (Nat.succ_lt_succ h.agree.1) hfit
      obtain ⟨v, hrel, hv⟩ := h.run hcontent hP (fun {w v ℓ} hrel hv hok ↦ by
        cases ℓ with
        | right i => exact fun _ ↦ (hrel.right.resolve_right hv.inv.sane.2).expected hok
        | left | lose => trivial) hrun
      obtain ⟨hf, htake, -, -⟩ := ClientReceives.written hrel.right hv.inv
      have hreported := (hrel.left.resolve_right hv.inv.sane.1).told htold
      refine received_eq_chunksOf htake ?_
      rw [chunksAppended, hf]
      exact hv.inv.told trivial hreported
    · have hP : (downloadTransfer content σ).Overflows (maxSequenceNumber + 1) :=
        overflows (Nat.succ_le_succ h.agree.2) (Nat.lt_of_not_le hfit)
      have hstart := endlessContract_start hP (w := windowWorld (downloadTransfer content σ) w) rfl
        rfl (Nat.succ_pos σ) (stale_windowWorld (Nat.lt_succ_self σ) h.toRight h.toLeft)
      obtain ⟨v, -, hrel, hv⟩ := (h.follows hcontent).run (fun _ _ _ ↦ guard_trivial _ _) hstart hrun
      have hreported := (hrel.left.resolve_right hv.inv.sender_sane.1).told htold
      exact absurd (hv.inv.not_told.symm.trans hreported) nofun

theorem report_of_success_short :
    (∃ w' : World Client Server.ClientConnection Bytes Bytes,
      .uploadCompleted ∈ w'.left.reports ∧
        ∃ f, w'.right.file = some f ∧ received f = chunksOf [7]) ∧
    ∃ w' : World Server.ClientConnection Client Bytes Bytes,
      .fileTransferComplete ∈ w'.left.reports ∧
        received w'.right.file = chunksOf (List.replicate 1417 7) := by
  constructor
  · obtain ⟨w', hrun, htold⟩ := Local.exists_upload [7] (guard fun _ c i ↦ serverUnsurprised [7] c i)
      [.leftProceeds, .leftProceeds, .leftProceeds, .rightTakes, .leftTakes]
      (p := fun w' ↦ .uploadCompleted ∈ w'.left.reports) (by decide +kernel)
    exact ⟨w', htold, (report_of_success [7] 3 .fifo _ _).1 _ w' (Local.upload_starts (by decide))
      (by decide) hrun htold⟩
  · obtain ⟨w', hrun, htold⟩ := Local.exists_download (List.replicate 1417 7)
      (guard fun _ c i ↦ clientUnsurprised (List.replicate 1417 7) c i)
      [.leftProceeds, .leftProceeds, .leftProceeds, .rightTakes, .leftTakes]
      (p := fun w' ↦ .fileTransferComplete ∈ w'.left.reports) (by decide +kernel)
    exact ⟨w', htold, (report_of_success (List.replicate 1417 7) 2 .fifo _ _).2 _ w'
      (Local.download_starts (by decide +kernel)) (by decide +kernel) hrun htold⟩

/-- With both chunks of a file in flight the second one is lost, until the first, sent again,
is answered twice with the number of the second. -/
def lossySchedule : List Move :=
  let window : List Move :=
    [.leftProceeds, .leftProceeds, .leftProceeds, .leftProceeds, .rightTakes, .loseToRight]
  window ++ .leftTimeout :: window ++ .loseToLeft :: .leftTimeout :: window ++ .leftTimeout :: window ++
    [.leftTakes, .leftProceeds, .leftProceeds, .leftTakes]

theorem not_report_of_success :
    UploadStarts Local.uploader (Local.connection uploadOperation) (List.replicate 1417 7) 3
        (Local.upload (List.replicate 1417 7)) ∧
      ∃ w', (uploadSystem .fifo Local.uploader (Local.connection uploadOperation)).Reaches
          (Local.upload (List.replicate 1417 7)) w' ∧
        .uploadCompleted ∈ w'.left.reports ∧
          ¬∃ f, w'.right.file = some f ∧ received f = chunksOf (List.replicate 1417 7) := by
  refine ⟨Local.upload_starts (by decide), ?_⟩
  obtain ⟨w', hrun, htold, hmissing⟩ := Local.exists_upload (List.replicate 1417 7)
    (fun _ _ ↦ True) lossySchedule
    (p := fun w' ↦ .uploadCompleted ∈ w'.left.reports ∧ w'.right.file.any fun f ↦
      chunksAppended f = 1) (by decide +kernel)
  refine ⟨w', hrun, htold, ?_⟩
  rintro ⟨f, hfile, hf⟩
  simp only [hfile, Option.any_some, decide_eq_true_eq, chunksAppended, hf] at hmissing
  exact absurd hmissing (by decide +kernel)

end Rdt.Gbn
