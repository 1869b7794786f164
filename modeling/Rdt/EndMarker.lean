import Rdt.Gbn.FirstPacket
import Rdt.Saw.Transmission

/-!
# The end marker of a transfer

The receiving loops end on a packet with FIN.  Which of its packets a sending end marks so is
decided in four places, and how many packets there are in others.
-/

namespace Rdt

open Duplex SlidingWindow Gbn

variable {content : Bytes} {σ : Nat} {D : Discipline} {ccfg : Client.Config} {scfg : Server.Config}
  {wire : List Bytes}

/-- Of the chunk packets on the wire exactly one carries FIN, that of the highest index. -/
def OneEndMarker (chunk : Nat → Data UInt8) (wire : List Bytes) : Prop :=
  ∃ k, (chunk k).last = true ∧ (∃ raw ∈ wire, toData raw = some (chunk k)) ∧
    ∀ raw ∈ wire, toData raw = some (chunk k) ∨
      ∃ i < k, toData raw = some (chunk i) ∧ (chunk i).last = false

section Marks

variable {chunk : Nat → Data UInt8} {total : Nat}

/-- Among chunks only, the last one is the marker as soon as it is sent. -/
theorem oneEndMarker_iff (hlast : ∀ i, (chunk i).last = true ↔ i + 1 = total)
    (honly : ∀ raw ∈ wire, ∃ i < total, toData raw = some (chunk i)) :
    OneEndMarker chunk wire ↔ ∃ k, k + 1 = total ∧ ∃ raw ∈ wire, toData raw = some (chunk k) := by
  constructor
  · rintro ⟨k, hk, hsent, -⟩
    exact ⟨k, (hlast k).mp hk, hsent⟩
  · rintro ⟨k, hk, hsent⟩
    refine ⟨k, (hlast k).mpr hk, hsent, ?_⟩
    intro raw hraw
    obtain ⟨i, hi, hd⟩ := honly raw hraw
    by_cases heq : i = k
    · exact .inl (heq ▸ hd)
    · refine .inr ⟨i, by omega, hd, ?_⟩
      exact Bool.eq_false_iff.mpr fun h ↦ heq (by have := (hlast i).mp h; omega)

/-- Without chunks there is none. -/
theorem not_oneEndMarker (hlast : ∀ i, (chunk i).last = false) : ¬OneEndMarker chunk wire := by
  rintro ⟨k, hk, -⟩
  exact absurd ((hlast k).symm.trans hk) Bool.false_ne_true

end Marks

/-! ## Stop-and-Wait -/

theorem Saw.Covers.oneEndMarker (h : Saw.Covers content σ (Saw.total content) wire)
    (hcontent : content ≠ []) : OneEndMarker (Saw.chunk content σ) wire := by
  have hlast : ∀ i, (Saw.chunk content σ i).last = true ↔ i + 1 = Saw.total content :=
    fun i ↦ decide_eq_true_iff
  have htotal := Saw.total_pos hcontent
  refine (oneEndMarker_iff hlast h.only).mpr ⟨Saw.total content - 1, by omega, ?_⟩
  exact h.all _ (by omega)

theorem Saw.not_oneEndMarker_nil : ¬OneEndMarker (Saw.chunk [] σ) wire :=
  not_oneEndMarker fun _ ↦ rfl

/-! ## Go-Back-N -/

theorem Gbn.chunkPacket_last (i : Nat) :
    (chunkPacket content σ i).last = true ↔ i + 1 = totalChunks content := decide_eq_true_iff

theorem Gbn.not_oneEndMarker_nil : ¬OneEndMarker (chunkPacket [] σ) wire :=
  not_oneEndMarker fun _ ↦ rfl

/-- On the wire are the chunks that `send_file` has sent, and before them maybe the first one. -/
theorem Gbn.Closes.oneEndMarker_iff {first offset : Nat} {stops : Bool} {g g' : GoBackNSender}
    {j : Option Bytes} {s : Sender} {t : Receiver UInt8}
    (h : Closes (transfer content first offset) stops wire g g' j s t) (before : List Bytes)
    (hbefore : ∀ raw ∈ before, 1 < totalChunks content ∧
      toData raw = some (chunkPacket content offset 0)) (hfirst : first < totalChunks content) :
    OneEndMarker (chunkPacket content offset) (before ++ wire) ↔ ¬AcksUnsent g j := by
  have htotal : 0 < totalChunks content := Nat.zero_lt_of_lt hfirst
  have hwire : ∀ raw ∈ wire, ∃ i, i < s.base + windowSize ∧ i < totalChunks content ∧
      toData raw = some (chunkPacket content offset i) := by
    intro raw hraw
    obtain ⟨i, -, hi, hn, hd⟩ := h.sent.chunk _ (List.mem_map_of_mem hraw)
    exact ⟨i, hi, hn, hd.trans (congrArg some (chunk_eq htotal))⟩
  have honly : ∀ raw ∈ before ++ wire, ∃ i < totalChunks content,
      toData raw = some (chunkPacket content offset i) := by
    intro raw hraw
    rcases List.mem_append.mp hraw with hraw | hraw
    · exact ⟨0, htotal, (hbefore raw hraw).2⟩
    · obtain ⟨i, -, hn, hd⟩ := hwire raw hraw
      exact ⟨i, hn, hd⟩
  rw [Rdt.oneEndMarker_iff chunkPacket_last honly]
  constructor
  · -- the window has not reached the last chunk, so it is not among what was sent
    rintro ⟨k, hk, raw, hraw, hd⟩ ⟨hlt, -⟩
    have hnumber : ∀ i, toData raw = some (chunkPacket content offset i) → i = k := by
      intro i hi
      have heq := congrArg Data.number (Option.some.inj (hi.symm.trans hd))
      exact Nat.add_left_cancel heq
    rcases List.mem_append.mp hraw with hraw | hraw
    · obtain ⟨hseveral, hd'⟩ := hbefore raw hraw
      have := hnumber 0 hd'
      omega
    · obtain ⟨i, hi, -, hd'⟩ := hwire raw hraw
      have := hnumber i hd'
      rw [h.tracks.base, h.tracks.totalChunks] at hlt
      have hlt : s.base + windowSize < totalChunks content := hlt
      omega
  · intro hacks
    obtain ⟨raw, hraw, hd⟩ := (h.sentWhole_iff.1.mpr hacks).all (totalChunks content - 1)
      (Nat.le_pred_of_lt hfirst) (Nat.pred_lt_of_lt htotal)
    refine ⟨totalChunks content - 1, by omega, raw, List.mem_append_right _ hraw, ?_⟩
    exact hd.trans (congrArg some (chunk_eq htotal))

variable (D ccfg scfg content σ) in
/-- What the client of an upload has sent as its `send_file` returns: at once, or in the course
of a run. -/
inductive UploadSent : List Bytes → Prop
  | atOnce {w : World Client Server.ClientConnection Bytes Bytes}
      (h : UploadStarts ccfg scfg content σ w) (hp : w.left.point = .initiateCloseConnection) :
      UploadSent []
  | returned {w : World Client Server.ClientConnection Bytes Bytes}
      {w' : World (Client × List Bytes) Server.ClientConnection Bytes Bytes}
      {g g' : GoBackNSender} {j : Option Bytes} {ev : Event}
      (h : UploadStarts ccfg scfg content σ w)
      (hrun : (recordedUpload D ccfg scfg).Reaches w.logged w')
      (hg : w'.left.1.point = .sendFileGbn g) (hj : ∀ raw, j = some raw → raw ∈ w'.toLeft)
      (hev : ev ∈ arrivals scfg.address j)
      (hret : clientSendFile ccfg g ev = some (.returned g')) : UploadSent w'.left.2

variable (D ccfg scfg content σ) in
/-- What the connection of a download has sent as it goes on to close the connection: after the
first packet, after its ACK, or in the course of a run.  The last datagram it got in
`send_file` is kept with the sender that got it. -/
inductive DownloadSent : Option (GoBackNSender × Option Bytes) → List Bytes → Prop
  | single {c c' : Server.ClientConnection} {now : Time} {path : String} {node : Option String}
      (hnumber : c.sequenceNumber = ⟨σ, .goBackN⟩) (hout : c.outbox = [])
      (h : Server.ClientConnection.sendFirstPacket scfg now (.forReading path node content) c = .ok c')
      (hp : c'.point = .closingHandshakeForDownload) :
      DownloadSent none (c'.outbox.to scfg.clientAddress)
  | atOnce {c : Server.ClientConnection} {wire : List Bytes} {ev : Event}
      (h : AwaitsFirstAck scfg content σ c wire)
      (hp : (c.step scfg ev).point = .closingHandshakeForDownload) : DownloadSent none wire
  | returned {c : Server.ClientConnection} {wire : List Bytes} {ev₀ : Event}
      {w : World Server.ClientConnection Client Bytes Bytes}
      {w' : World (Server.ClientConnection × List Bytes) Client Bytes Bytes}
      {g g' : GoBackNSender} {j : Option Bytes} {ev : Event}
      (hfirst : AwaitsFirstAck scfg content σ c wire) (hw : c.step scfg ev₀ = w.left)
      (h : DownloadStarts ccfg scfg content σ w)
      (hrun : (recordedDownload D ccfg scfg).Reaches w.logged w')
      (hg : w'.left.1.point = .sendFileGbn g) (hj : ∀ raw, j = some raw → raw ∈ w'.toLeft)
      (hev : ev ∈ arrivals scfg.clientAddress j)
      (hret : serverSendFile scfg g ev = some (.returned g')) :
      DownloadSent (some (g, j)) (wire ++ w'.left.2)

theorem UploadSent.oneEndMarker_iff (h : UploadSent content σ D ccfg scfg wire) :
    OneEndMarker (chunkPacket content (σ + 1)) wire ↔ content ≠ [] := by
  by_cases hcontent : content = []
  · subst hcontent
    exact iff_of_false Gbn.not_oneEndMarker_nil fun h ↦ h rfl
  refine iff_of_true ?_ hcontent
  cases h with
  | atOnce h hp =>
      cases (h.client.sends h.agree.2 hcontent).at_point with
      | sending hp' => exact absurd (hp'.symm.trans hp) nofun
      | waiting _ hs => exact absurd hs nofun
      | finalizing hp' => exact absurd (hp'.symm.trans hp) nofun
      | ended hp' => exact absurd (hp'.symm.trans hp) nofun
  | returned h hrun hg hj hev hret =>
      obtain ⟨s, t, hclose⟩ := h.closes hcontent hrun hg hj hev hret
      have hmark := hclose.oneEndMarker_iff []
        (fun _ hraw ↦ absurd hraw List.not_mem_nil) (totalChunks_pos hcontent)
      exact hmark.mpr (hclose.sentWhole_iff.2 rfl)

theorem DownloadSent.oneEndMarker_iff (hproto : scfg.protocolVersion = .goBackN)
    {last : Option (GoBackNSender × Option Bytes)}
    (h : DownloadSent content σ D ccfg scfg last wire) :
    OneEndMarker (chunkPacket content σ) wire ↔
      content ≠ [] ∧ ∀ g j, last = some (g, j) → ¬AcksUnsent g j := by
  by_cases hcontent : content = []
  · subst hcontent
    exact iff_of_false Gbn.not_oneEndMarker_nil fun h ↦ h.1 rfl
  have htotal := totalChunks_pos hcontent
  cases h with
  | @single c c' _ _ _ hnumber hout h hp =>
      refine iff_of_true ?_ ⟨hcontent, fun _ _ hlast ↦ (by cases hlast)⟩
      obtain ⟨hsent, hcases⟩ := firstSent_of_sendFirstPacket hproto hnumber hout h
      have hone : totalChunks content = 1 := by
        rcases hcases with ⟨hone, -⟩ | ⟨-, hp'⟩
        · exact hone
        · exact absurd (hp'.symm.trans hp) nofun
      obtain ⟨raw, hraw⟩ := List.exists_mem_of_ne_nil _ hsent.nonempty
      have honly : ∀ raw ∈ c'.outbox.to scfg.clientAddress, ∃ i < totalChunks content,
          toData raw = some (chunkPacket content σ i) :=
        fun raw hraw ↦ ⟨0, htotal, hsent.wire raw hraw⟩
      rw [Rdt.oneEndMarker_iff chunkPacket_last honly]
      exact ⟨0, hone.symm, raw, hraw, hsent.wire raw hraw⟩
  | atOnce h hp =>
      obtain ⟨hsent, hne⟩ := h.firstSent hproto
      rcases step_waitForFirstPacketAck h.point hsent _ with ⟨hp', -⟩ | ⟨-, _, hp'⟩ | ⟨hle, -⟩ | h
      · exact absurd (hp'.symm.trans hp) nofun
      · exact absurd (hp'.symm.trans hp) nofun
      · omega
      · cases h with
        | closing hp' => exact absurd (hp'.symm.trans hp) nofun
        | ended hp' => exact absurd (hp'.symm.trans hp) nofun
  | @returned c before ev₀ w w' g g' j ev hfirst hw h hrun hg hj hev hret =>
      obtain ⟨hsent, hne⟩ := hfirst.firstSent hproto
      have hseveral : 1 < totalChunks content := by omega
      obtain ⟨s, t, hclose⟩ := h.closes hseveral hrun hg hj hev hret
      rw [hclose.oneEndMarker_iff before (fun raw hraw ↦ ⟨hseveral, hsent.wire raw hraw⟩) hseveral]
      constructor
      · rintro hacks
        refine ⟨hcontent, ?_⟩
        rintro _ _ ⟨⟩
        exact hacks
      · rintro ⟨-, hlast⟩
        exact hlast g j rfl

/-! ## The four sending paths -/

/-- A sending end that has come to close the connection has sent one end marker exactly if the
file is not empty and, in a download by Go-Back-N, its window has reached the last chunk. -/
theorem oneEndMarker_iff_nonempty (content : Bytes) (σ : Nat) (D : Discipline)
    (ccfg : Client.Config) (scfg : Server.Config) :
    (∀ peer c events s, Saw.ClientEntersSendFile ccfg peer content σ c →
      record (Client.react ccfg peer) (c, c.outbox.to peer) events = s →
      s.1.point = .initiateCloseConnection →
      (OneEndMarker (Saw.chunk content (σ + 1)) s.2 ↔ content ≠ [])) ∧
    (∀ c events s, Saw.ServerEntersTransmitFile scfg content σ c →
      record (Server.ClientConnection.react scfg) (c, c.outbox.to scfg.clientAddress) events = s →
      s.1.point = .closingHandshakeForDownload →
      (OneEndMarker (Saw.chunk content σ) s.2 ↔ content ≠ [])) ∧
    (∀ wire, UploadSent content σ D ccfg scfg wire →
      (OneEndMarker (chunkPacket content (σ + 1)) wire ↔ content ≠ [])) ∧
    (∀ last wire, scfg.protocolVersion = .goBackN → DownloadSent content σ D ccfg scfg last wire →
      (OneEndMarker (chunkPacket content σ) wire ↔
        content ≠ [] ∧ ∀ g j, last = some (g, j) → ¬AcksUnsent g j)) := by
  refine ⟨?_, ?_, ?_, ?_⟩
  · intro peer c events s h hs hp
    by_cases hcontent : content = []
    · subst hcontent
      exact iff_of_false Saw.not_oneEndMarker_nil fun h ↦ h rfl
    · exact iff_of_true ((h.covers hcontent events hs hp).oneEndMarker hcontent) hcontent
  · intro c events s h hs hp
    by_cases hcontent : content = []
    · subst hcontent
      exact iff_of_false Saw.not_oneEndMarker_nil fun h ↦ h rfl
    · exact iff_of_true ((h.covers hcontent events hs hp).oneEndMarker hcontent) hcontent
  · exact fun wire h ↦ h.oneEndMarker_iff
  · exact fun last wire hproto h ↦ h.oneEndMarker_iff hproto

/-! ### Short transfers -/

namespace Short

def sawUploader : Client.Config := { Gbn.Local.uploader with protocolVersion := .stopAndWait }

def sawConnection : Server.Config :=
  { Gbn.Local.connection downloadOperation with protocolVersion := .stopAndWait }

/-- The client gets the confirmation of the size. -/
def sawUpload (content : Bytes) : Client.Exec := Client.sendFile sawUploader 0
  { Gbn.Local.clientAt 1 (.forReading "notes.txt" (some "notes.txt") content) .informFilesize with
    sequenceNumber := ⟨1, .stopAndWait⟩
    ackNumber := none }

/-- The connection gets a name; its storage has a file of this content under every name. -/
def sawDownload (content : Bytes) : Server.Exec :=
  Server.ClientConnection.onFilenameForDownload sawConnection 0
    { Gbn.Local.connectionAt 1 1 (.forWriting "" none) .receiveFilenameForDownload with
      disk := fun _ ↦ some content
      ackNumber := none }
    (⟨0, .stopAndWait⟩, "notes.txt")

theorem upload_eq_ok {x : Client.Exec} (h : (Client.swallow x).point ≠ .ended) :
    x = .ok (Client.swallow x) := by
  cases x with
  | ok c => rfl
  | error e => exact absurd rfl h

theorem download_eq_ok {x : Server.Exec}
    (h : (Server.ClientConnection.swallow x).point ≠ .ended) :
    x = .ok (Server.ClientConnection.swallow x) := by
  cases x with
  | ok c => rfl
  | error e => exact absurd rfl h

theorem sawUpload_enters {content : Bytes}
    (h : (Client.swallow (sawUpload content)).point ≠ .ended) :
    Saw.ClientEntersSendFile sawUploader Gbn.Local.connectionAddress content 1
      (Client.swallow (sawUpload content)) :=
  ⟨rfl, by decide, _, 0, upload_eq_ok h, rfl, rfl, rfl, rfl⟩

theorem sawDownload_enters {content : Bytes}
    (h : (Server.ClientConnection.swallow (sawDownload content)).point ≠ .ended) :
    Saw.ServerEntersTransmitFile sawConnection content 0
      (Server.ClientConnection.swallow (sawDownload content)) := by
  have hpath : Gbn.Local.handler.getFilepath "notes.txt" false = "storage/notes.txt" := by
    decide +kernel
  have hnull : FileHandler.hasNull "storage/notes.txt" = false := by decide +kernel
  refine ⟨rfl, by decide, _, 0, "notes.txt", .forReading "storage/notes.txt" (some "storage/notes.txt") content,
    download_eq_ok h, ?_, rfl, rfl⟩
  show Gbn.Local.handler.openFileRead _ (Gbn.Local.handler.getFilepath "notes.txt" false) = _
  rw [hpath, FileHandler.openFileRead, hnull]
  rfl

/-- The connection of a download has the file open and sends the first packet. -/
def gbnDownload (content : Bytes) : Server.Exec :=
  Server.ClientConnection.sendFirstPacket (Gbn.Local.connection downloadOperation) 0
    (.forReading "storage/notes.txt" (some "storage/notes.txt") content)
    (Gbn.Local.connectionAt 2 2 (.forWriting "" none) .receiveFilenameForDownload)

end Short

theorem oneEndMarker_iff_nonempty_short :
    (OneEndMarker (Saw.chunk [7] 2)
        ((Client.swallow (Short.sawUpload [7])).outbox.to Gbn.Local.connectionAddress) ↔
      ([7] : Bytes) ≠ []) ∧
    (OneEndMarker (Saw.chunk [7] 0) ((Server.ClientConnection.swallow
        (Short.sawDownload [7])).outbox.to Gbn.Local.clientAddress) ↔ ([7] : Bytes) ≠ []) ∧
    (∃ wire, OneEndMarker (chunkPacket [7] 4) wire ↔ ([7] : Bytes) ≠ []) ∧
    (OneEndMarker (chunkPacket [7] 2) ((Server.ClientConnection.swallow
        (Short.gbnDownload [7])).outbox.to Gbn.Local.clientAddress) ↔
      ([7] : Bytes) ≠ [] ∧
        ∀ g j, (none : Option (GoBackNSender × Option Bytes)) = some (g, j) → ¬AcksUnsent g j) := by
  refine ⟨?_, ?_, ?_, ?_⟩
  · have hp : (Client.swallow (Short.sawUpload [7])).point = .initiateCloseConnection := by
      decide +kernel
    exact (oneEndMarker_iff_nonempty [7] 1 .fifo Short.sawUploader Short.sawConnection).1 _ _ [] _
      (Short.sawUpload_enters (by rw [hp]; decide)) rfl hp
  · have hp : (Server.ClientConnection.swallow (Short.sawDownload [7])).point =
        .closingHandshakeForDownload := by decide +kernel
    exact (oneEndMarker_iff_nonempty [7] 0 .fifo Short.sawUploader Short.sawConnection).2.1 _ [] _
      (Short.sawDownload_enters (by rw [hp]; decide)) rfl hp
  · obtain ⟨w', hrun, hp⟩ := Gbn.Local.exists_recordedUpload [7] [.leftProceeds, .leftProceeds]
      (p := fun w' ↦ (Gbn.Local.clientAtSender w'.left.1).any fun g ↦
        ((clientSendFile Gbn.Local.uploader g (.proceed 0)).bind Gbn.Local.resultOf).isSome)
      (by decide +kernel)
    obtain ⟨g, hg, hret⟩ := (Option.any_eq_true _ _).mp hp
    obtain ⟨g', hret⟩ := Option.isSome_iff_exists.mp hret
    have hsent : UploadSent [7] 3 .fifo Gbn.Local.uploader (Gbn.Local.connection uploadOperation)
        w'.left.2 :=
      .returned (g := g) (j := none) (Gbn.Local.upload_starts (by decide)) hrun
        (Gbn.Local.of_clientAtSender hg) (fun _ h ↦ (by cases h)) ⟨0, .inr rfl⟩
        (Gbn.Local.of_resultOf hret)
    exact ⟨w'.left.2, (oneEndMarker_iff_nonempty [7] 3 .fifo Gbn.Local.uploader
      (Gbn.Local.connection uploadOperation)).2.2.1 _ hsent⟩
  · have hp : (Server.ClientConnection.swallow (Short.gbnDownload [7])).point =
        .closingHandshakeForDownload := by decide +kernel
    have hsent : DownloadSent [7] 2 .fifo Gbn.Local.downloader
        (Gbn.Local.connection downloadOperation) none
        ((Server.ClientConnection.swallow (Short.gbnDownload [7])).outbox.to
          Gbn.Local.clientAddress) :=
      .single (c := Gbn.Local.connectionAt 2 2 (.forWriting "" none) .receiveFilenameForDownload) rfl rfl
        (Short.download_eq_ok fun h ↦ absurd (hp.symm.trans h) (by decide)) hp
    exact (oneEndMarker_iff_nonempty [7] 2 .fifo Gbn.Local.downloader
      (Gbn.Local.connection downloadOperation)).2.2.2 none _ rfl hsent

/-- An empty file has no chunk, so nothing is sent between the confirmation of its size and the
wait for the closing FIN, under either protocol. -/
theorem not_oneEndMarker_empty :
    (∃ c, Saw.ClientEntersSendFile Short.sawUploader Gbn.Local.connectionAddress [] 1 c ∧
      c.point = .initiateCloseConnection ∧ c.outbox = [] ∧
      ¬OneEndMarker (Saw.chunk [] 2) (c.outbox.to Gbn.Local.connectionAddress)) ∧
    ∃ c now, Client.sendFile Gbn.Local.uploader now
        (Gbn.Local.clientAt 3 (.forReading "notes.txt" (some "notes.txt") []) .informFilesize) = .ok c ∧
      c.point = .initiateCloseConnection ∧ c.outbox = [] ∧
      ¬OneEndMarker (chunkPacket [] 4) (c.outbox.to Gbn.Local.connectionAddress) := by
  constructor
  · have hp : (Client.swallow (Short.sawUpload [])).point = .initiateCloseConnection := by
      decide +kernel
    exact ⟨_, Short.sawUpload_enters (by rw [hp]; decide), hp, by decide +kernel,
      Saw.not_oneEndMarker_nil⟩
  · have hp : (Client.swallow (Client.sendFile Gbn.Local.uploader 0
        (Gbn.Local.clientAt 3 (.forReading "notes.txt" (some "notes.txt") []) .informFilesize))).point =
          .initiateCloseConnection := by decide +kernel
    exact ⟨_, 0, Short.upload_eq_ok (by rw [hp]; decide), hp, by decide +kernel,
      Gbn.not_oneEndMarker_nil⟩

end Rdt
