import Rdt.Saw.Delivery
import Rdt.Saw.Streams

/-!
# What an early timer costs

Each end answers a packet that it turns down by its last packet, and so passes on every copy of a
packet: of the packets that a transfer needs, all that are still to come are sent once more for each
timer that expires early.
-/

namespace Rdt.Saw

open Duplex Server

/-- The chunk packets and the chunk ACKs that both ends have sent -/
def chunkPackets (w : Journaled Client ClientConnection Bytes Bytes) : Nat :=
  sent Client.countsChunk w.left.2 + sent ClientConnection.countsChunk w.right.2

/-- Twice the chunks that the end misses or has unconfirmed, and one, for every timer that
expires. -/
def timerCosts (total : Nat) (w : Journaled Client ClientConnection Bytes Bytes) : Nat :=
  allowance (fun c ↦ 2 * Client.outstanding total c + 1) w.left.2 +
    allowance (fun c ↦ 2 * ClientConnection.outstanding total c + 1) w.right.2

/-- Every datagram in flight at first may lead to a packet and an ACK for each chunk, and every
timer that expires to as much for each chunk that is not confirmed, or has not come, by then. -/
theorem chunkPackets_le (ccfg : Client.Config) (scfg : Server.Config) (disk : Disk) (c : Client)
    (content : Bytes) (w : World Client ClientConnection Bytes Bytes)
    (w' : Journaled Client ClientConnection Bytes Bytes) (hcontent : content ≠ [])
    (hfile : Transfers ccfg scfg disk c content) (hstart : Starts ccfg scfg disk c w)
    (hrun : (system .fifo (Client.patientNode ccfg scfg.address).journaled
      (ClientConnection.patientNode scfg).journaled).Reaches w.journaled w') :
    chunkPackets w' ≤ w.toLeft.length * (2 * total content) + timerCosts (total content) w' := by
  cases htask : ccfg.task with
  | upload src name =>
      have hsource : c.file.content = content := by simpa [Transfers, htask] using hfile
      obtain ⟨stored, hstored⟩ := exists_stored name
      have hsetting : Upload.Setting ccfg scfg name stored content :=
        ⟨hstart.client.proto, hstart.connection.proto, ⟨src, htask⟩, hcontent, hstored⟩
      exact ((hsetting.starts hsource hstart).run hrun).total_le
  | download destination name =>
      obtain ⟨hpieces, hread⟩ : c.file.pieces = [] ∧ _ := by simpa [Transfers, htask] using hfile
      obtain ⟨stored, hstored⟩ := exists_stored name
      have hsetting : Download.Setting ccfg scfg name stored content disk :=
        ⟨hstart.client.proto, hstart.connection.proto, ⟨destination, htask⟩, hcontent, hread, hstored⟩
      exact ((hsetting.starts hpieces hstart).run hrun).total_le

/-! ## One chunk sent twice -/

/-- The steps without a datagram; every expiration of a timer is one. -/
def timeouts (w : Journaled Client ClientConnection Bytes Bytes) : Nat :=
  w.left.2.countP (·.input.isNone) + w.right.2.countP (·.input.isNone)

namespace Local

/-- The timer of the connection expires once, before the ACK of the first chunk has come. -/
def turns : List Turn :=
  [.clientTakes 0, .connectionTakes 0, .connectionTimeout 15000, .clientTakes 15000,
    .clientTakes 15000, .connectionTakes 15000, .connectionTakes 15000, .clientTakes 15000,
    .clientTakes 15000]

/-- Both chunks and their ACKs are sent twice, but for the last ACK. -/
theorem turns_played : (turns.foldlM (turn downloader downloadConnection) download.journaled).any
    fun w ↦ decide (2 * total twoChunks + 2 * timeouts w < chunkPackets w) := by decide +kernel

end Local

theorem chunkPackets_le_download : ∃ w',
    2 * total Local.twoChunks + 2 * timeouts w' < chunkPackets w' ∧
      chunkPackets w' ≤ Local.download.toLeft.length * (2 * total Local.twoChunks) +
        timerCosts (total Local.twoChunks) w' := by
  obtain ⟨w', hw, hlt⟩ := (Option.any_eq_true _ _).mp Local.turns_played
  refine ⟨w', of_decide_eq_true hlt, ?_⟩
  exact chunkPackets_le Local.downloader Local.downloadConnection (fun _ ↦ some Local.twoChunks)
    Local.shaken Local.twoChunks Local.download w' (by decide) Local.download_transfers
    Local.download_starts (run_of_turns hw).reaches

theorem not_chunkPackets_le_constant : ∃ w', (system .fifo
      (Client.patientNode Local.downloader Local.downloadConnection.address).journaled
      (ClientConnection.patientNode Local.downloadConnection).journaled).Run (fun _ ℓ ↦ ℓ ≠ .lose)
      Local.download.journaled w' ∧
    Starts Local.downloader Local.downloadConnection (fun _ ↦ some Local.twoChunks) Local.shaken
      Local.download ∧
    Transfers Local.downloader Local.downloadConnection (fun _ ↦ some Local.twoChunks) Local.shaken
      Local.twoChunks ∧
    2 * total Local.twoChunks + 2 * timeouts w' < chunkPackets w' := by
  obtain ⟨w', hw, hlt⟩ := (Option.any_eq_true _ _).mp Local.turns_played
  exact ⟨w', run_of_turns hw, Local.download_starts, Local.download_transfers, of_decide_eq_true hlt⟩

end Rdt.Saw
