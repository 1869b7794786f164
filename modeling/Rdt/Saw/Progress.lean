import Rdt.Lib.Flow
import Rdt.Saw.Retransmissions
import Rdt.Server.Collecting

/-!
# A transfer does not stall

Where the network loses nothing, a transfer needs no timeout: as long as it is not over, a
datagram is in flight that brings it on.
-/

namespace Rdt

open Saw

/-! ## A refusal is sent -/

namespace Server.ClientConnection

variable {cfg : Config} {c : ClientConnection} {ev : Event} {now : Time} {x : Exec}

theorem outbox_initiateCloseConnection
    (h : (initiateCloseConnection cfg now c).point = .initiateCloseConnection) :
    (initiateCloseConnection cfg now c).outbox.to cfg.clientAddress ≠ [] := by
  simp only [initiateCloseConnection, sendFin, send_eq_encode] at h ⊢
  cases hraw : Protocol.encode cfg.protocolVersion c.stepSequence.stepAck.sequenceNumber
      c.stepSequence.stepAck.ackNumber false false true cfg.address.port [] with
  | error e =>
      rw [hraw] at h
      cases h
  | ok raw =>
      show Outbox.to (c.outbox ++ [(raw, cfg.clientAddress)]) cfg.clientAddress ≠ []
      simp [Outbox.to]

theorem outbox_handle (hx : ∀ c', x = .ok c' → c'.point ≠ .initiateCloseConnection)
    (h : (handle cfg now x).point = .initiateCloseConnection) :
    (handle cfg now x).outbox.to cfg.clientAddress ≠ [] := by
  cases x with
  | ok c' => exact absurd h (hx c' rfl)
  | error e =>
      obtain ⟨e, c'⟩ := e
      by_cases he : e.cls = .connectionClosingNeeded
      · simp only [handle, if_pos he] at h ⊢
        exact outbox_initiateCloseConnection h
      · obtain ⟨state, disk, heq⟩ := handle_error cfg now c' he
        rw [heq] at h
        cases h

theorem outbox_listen {α : Type} {op : Operation α} {k : ClientConnection → α → Exec}
    (hp : c.point ≠ .initiateCloseConnection) (hk : ∀ a, GoesOn c (k c a))
    (h : (handle cfg now (listen c op ev (onSuccess k))).point = .initiateCloseConnection) :
    (handle cfg now (listen c op ev (onSuccess k))).outbox.to cfg.clientAddress ≠ [] := by
  refine outbox_handle (fun c' hok ↦ ?_) h
  unfold listen at hok
  cases hl : reListenIfFailed op c.socket c.listening ev with
  | listening r b =>
      rw [hl] at hok
      obtain rfl := Except.ok.inj hok
      exact hp
  | returned a =>
      rw [hl] at hok
      have hgoes := hk a
      rw [show k c a = .ok c' from hok] at hgoes
      rcases hgoes with ⟨-, -, hne⟩ | ⟨-, hended⟩
      · exact hne
      · simp [hended]
  | raised e b =>
      rw [hl] at hok
      cases hok

/-- A connection that begins to close because of a name or a size sends a FIN. -/
theorem outbox_of_refusing (hp : c.point = .receiveFilenameForUpload ∨
      (∃ name, c.point = .receiveFilesize name) ∨ c.point = .receiveFilenameForDownload)
    (h : (step cfg c ev).point = .initiateCloseConnection) :
    (step cfg c ev).outbox.to cfg.clientAddress ≠ [] := by
  have refusing : ∀ {α : Type} {op : Operation α} {k : ClientConnection → α → Exec},
      step cfg c ev = handle cfg ev.now (listen { c with outbox := [] } op ev (onSuccess k)) →
      c.point ≠ .initiateCloseConnection →
      (∀ a, GoesOn { c with outbox := [] } (k { c with outbox := [] } a)) →
      (step cfg c ev).outbox.to cfg.clientAddress ≠ [] := by
    intro α op k hstep hne hk
    rw [hstep] at h ⊢
    exact outbox_listen hne hk h
  rcases hp with hp | ⟨name, hp⟩ | hp
  · exact refusing (by simp only [step, hp, onEvent]; rfl) (by simp [hp])
      fun r ↦ onFilenameForUpload_goesOn ev.now r
  · exact refusing (by simp only [step, hp, onEvent]; rfl) (by simp [hp])
      fun r ↦ onFilesize_goesOn ev.now name r
  · exact refusing (by simp only [step, hp, onEvent]; rfl) (by simp [hp])
      fun r ↦ onFilenameForDownload_goesOn ev.now r

end Server.ClientConnection

namespace Saw

open Duplex Server

/-! ## Uploads -/

theorem Sends.ne_nil {p : Bytes → Prop} {outs : List Bytes} (h : Sends p outs) : outs ≠ [] := by
  obtain ⟨raw, -, rfl⟩ := h
  exact List.cons_ne_nil raw []

namespace Upload

variable {ccfg : Client.Config} {scfg : Server.Config} {name stored : String} {content : Bytes}

/-- The closing ACK is not answered, everything else is. -/
def lively (h : Setting ccfg scfg name stored content) : (lockstep h).Lively where
  asked _ := False
  answered r := ∃ i, r = .chunk i ∧ total content ≤ i
  left_next := by
    rintro r c m _ _ hc hm ⟨_, ⟨now, rfl⟩ | ⟨now, rfl⟩, -, ⟨⟩⟩
    · exact (h.client_next hc hm).imp_left fun ⟨hasks, houts⟩ ↦
        ⟨hasks, houts.single.all, .inl houts.ne_nil⟩
    · exact (h.client_next hc hm).imp_left fun ⟨hasks, houts⟩ ↦
        ⟨hasks, houts.single.all, .inl houts.ne_nil⟩
  right_next := by
    rintro r c m _ _ hc hm ⟨_, ⟨now, rfl⟩, -, ⟨⟩⟩
    have hr : Replies scfg stored content r.next
        (c.step scfg (.datagram m (some scfg.clientAddress) now)) :=
      hc.next h.server h.nonempty h.name hm
    cases hr with
    | answers hc houts =>
        refine .inl ⟨hc, houts.all, ?_⟩
        cases houts with
        | sends houts => exact .inl houts.ne_nil
        | last _ _ _ _ houts => exact .inl (by simp [houts])
        | closed hr hi => exact .inr ⟨_, hr, hi⟩
    | refuses hrefuses houts =>
        refine .inr (.inl ⟨hrefuses, houts.all, ClientConnection.outbox_of_refusing ?_ hrefuses.point⟩)
        rw [hc.point]
        rcases hrefuses.round with hr | hr
        · obtain rfl : r = .operation := by cases r <;> cases hr; rfl
          exact .inl rfl
        · obtain rfl : r = .filename := by cases r <;> cases hr; rfl
          exact .inr (.inl ⟨_, rfl⟩)
    | dies hc houts => exact .inr (.inr ⟨hc, houts⟩)

end Upload

/-- Both ends are done, and the receiving one has written the file. -/
structure Whole (content written : Bytes) (w : World Client ClientConnection Bytes Bytes) : Prop where
  written : written = content
  left : w.left.point = .ended
  right : w.right.point = .ended

/-- One end has given the transfer up, and nothing of it was written or reported. -/
structure TurnedDown (written : Bytes) (w : World Client ClientConnection Bytes Bytes) : Prop where
  written : written = []
  reports : w.left.reports = [] ∧ w.right.reports = []
  ends : w.left.Leaving ∨ w.right.point = .ended

/-- The first ACK is in flight at the start. -/
theorem AnswersInFlight.due {scfg : Server.Config} {d : ClientConnection} {q : List Bytes}
    (h : AnswersInFlight scfg d q) {ack : Bytes} (hout : d.outbox = [(ack, scfg.clientAddress)])
    (hack : Carries ack 1 true false []) {ended : Prop} :
    Due ended (Carries · 0 true false []) (Carries · 1 true false []) q := by
  obtain ⟨old, hold, rfl⟩ := h
  rw [hout, Outbox.to_cons_self]
  exact .of_sent hold (List.forall_mem_singleton.mpr hack) (.inl (List.cons_ne_nil ack []))

theorem flatten_take_chunks {content : Bytes} {n : Nat} (h : total content ≤ n) :
    ((chunks content).take n).flatten = content := by
  rw [List.take_of_length_le h]
  exact FileHandler.flatten_successiveReads (by decide) content

namespace Upload

variable {ccfg : Client.Config} {scfg : Server.Config} {name stored : String} {content : Bytes}
  {w : World Client ClientConnection Bytes Bytes}

theorem settled (h : Setting ccfg scfg name stored content) (hw : Lockstep.Over (lively h) w) :
    Whole content (w.right.file.elim [] File.written) w ∨
      TurnedDown (w.right.file.elim [] File.written) w := by
  cases hw with
  | answered r hl hr hclosed =>
      obtain ⟨i, hi, hle⟩ := hclosed
      rw [show (lockstep h).next r = .chunk i from hi] at hl hr
      refine .inl ⟨?_, hl.point.trans (clientPoint_of_le _ hle), hr.point.trans (serverPoint_of_le _ hle)⟩
      rw [hr.toStores.written]
      exact flatten_take_chunks (Nat.le_succ_of_le hle)
  | asked _ _ _ hclosed => exact hclosed.elim
  | silenced r hl hr =>
      have hround : r.written = 0 := by rcases hl.round with rfl | rfl <;> rfl
      refine .inr ⟨?_, ⟨hl.reports, hr.reports_nil (hround ▸ total_pos h.nonempty)⟩, .inl (.ended hl.point)⟩
      rw [hr.toStores.written, hround]
      rfl
  | muted r hl hr =>
      refine .inr ⟨hr.toStores.written, ⟨?_, hr.reports⟩, .inr hr.point⟩
      by_contra hne
      obtain ⟨i, hi, -⟩ := hl.reports hne
      cases hr.round.symm.trans hi
  | halted r hl hr => exact .inr ⟨hr.toStores.written, ⟨hl.reports, hr.reports⟩, .inl hl.leaving⟩

theorem Setting.flows (h : Setting ccfg scfg name stored content) {disk : Disk} {c₀ : Client}
    (hsource : c₀.file.content = content) (hw : Starts ccfg scfg disk c₀ w) :
    Lockstep.Flows (lively h) w := by
  obtain ⟨hanswers, ack, hack, hout⟩ := h.connection_starts hw.client hw.connection
  refine .answered .start (h.client_starts hsource hw.client) hanswers ?_ (hw.toLeft.due hout hack)
  rw [hw.toRight]
  rintro _ ⟨⟩

end Upload

/-! ## Downloads -/

namespace Download

variable {ccfg : Client.Config} {scfg : Server.Config} {name stored : String} {content : Bytes}
  {disk : Disk} {w : World Client ClientConnection Bytes Bytes}

/-- The closing ACK asks for nothing. -/
def lively (h : Setting ccfg scfg name stored content disk) : (lockstep h).Lively where
  asked r := ∃ i, r = .chunk (i + 1) ∧ total content < i + 1
  answered _ := False
  left_next := by
    have sent : ∀ {r outs}, Requested name content r outs →
        outs ≠ [] ∨ ∃ i, r = .chunk (i + 1) ∧ total content < i + 1 := by
      intro r outs ho
      cases ho with
      | sends ho => exact .inl ho.ne_nil
      | last _ _ _ _ ho => exact .inl (by simp [ho])
      | closed hr hi => exact .inr ⟨_, hr, hi⟩
    rintro r c m _ _ hc hm ⟨_, ⟨now, rfl⟩ | ⟨now, rfl⟩, -, ⟨⟩⟩
    · exact (h.client_next hc hm).imp_left fun ⟨hasks, houts⟩ ↦ ⟨hasks, houts.all, sent houts⟩
    · exact (h.client_next hc hm).imp_left fun ⟨hasks, houts⟩ ↦ ⟨hasks, houts.all, sent houts⟩
  right_next := by
    rintro r c m _ _ hc hm ⟨_, ⟨now, rfl⟩, -, ⟨⟩⟩
    have hr : Replies scfg stored content disk r.next
        (c.step scfg (.datagram m (some scfg.clientAddress) now)) :=
      hc.next h.server h.nonempty h.name h.file hm
    cases hr with
    | answers hc houts => exact .inl ⟨hc, houts.single.all, .inl houts.ne_nil⟩
    | refuses hrefuses houts =>
        refine .inr (.inl ⟨hrefuses, houts, ClientConnection.outbox_of_refusing ?_ hrefuses.point⟩)
        obtain rfl : r = .operation := by
          have hr := hrefuses.round
          cases r <;> cases hr
          rfl
        exact .inr (.inr hc.point)
    | dies hc houts => exact .inr (.inr ⟨hc, houts⟩)

theorem settled (h : Setting ccfg scfg name stored content disk) (hw : Lockstep.Over (lively h) w) :
    Whole content w.left.file.written w ∨ TurnedDown w.left.file.written w := by
  cases hw with
  | answered _ _ _ hclosed => exact hclosed.elim
  | asked r hl hr hclosed =>
      obtain ⟨i, hi, hlt⟩ := hclosed
      rw [show (lockstep h).next r = .chunk (i + 1) from hi] at hl
      obtain rfl : r = .chunk i := by cases r <;> cases hi; rfl
      refine .inl ⟨?_, hl.point.trans (clientPoint_of_gt _ hlt),
        hr.point.trans (serverPoint_of_le (Nat.le_of_lt_succ hlt))⟩
      rw [File.written, hl.pieces]
      exact flatten_take_chunks (Nat.le_of_lt hlt)
  | silenced r hl hr =>
      refine .inr ⟨congrArg List.flatten hl.pieces, ⟨hl.reports, hr.reports_nil fun i hi ↦ ?_⟩,
        .inl (.ended hl.point)⟩
      cases hl.round.symm.trans hi
  | muted r hl hr =>
      have hround : (lockstep h).next r = .chunk 0 := hr.round
      rw [hround] at hl
      refine .inr ⟨congrArg List.flatten hl.pieces, ⟨?_, hr.reports⟩, .inr hr.point⟩
      by_contra hne
      exact absurd (hl.reports hne) (Nat.not_le.mpr (total_pos h.nonempty))
  | halted r hl hr =>
      exact .inr ⟨congrArg List.flatten hl.pieces, ⟨hl.reports, hr.reports⟩, .inl hl.leaving⟩

theorem Setting.flows (h : Setting ccfg scfg name stored content disk) {c₀ : Client}
    (hpieces : c₀.file.pieces = []) (hw : Starts ccfg scfg disk c₀ w) : Lockstep.Flows (lively h) w := by
  obtain ⟨hanswers, ack, hack, hout⟩ := h.connection_starts hw.client hw.connection
  refine .answered .start (h.client_starts hpieces hw.client) hanswers ?_ (hw.toLeft.due hout hack)
  rw [hw.toRight]
  rintro _ ⟨⟩

end Download

/-! ## Every run without a loss -/

/-- What the receiving end has written -/
def received (ccfg : Client.Config) (w : World Client ClientConnection Bytes Bytes) : Bytes :=
  match ccfg.task with
  | .upload _ _ => w.right.file.elim [] File.written
  | .download _ _ => w.left.file.written

/-- Without a loss, and whatever timers expire, nothing is in flight only when the transfer is over:
the file has arrived and both ends are done, or it was turned down before its first chunk. -/
theorem over_of_settled (ccfg : Client.Config) (scfg : Server.Config) (disk : Disk) (c : Client)
    (content : Bytes) (w w' : World Client ClientConnection Bytes Bytes) (hcontent : content ≠ [])
    (hfile : Transfers ccfg scfg disk c content) (hstart : Starts ccfg scfg disk c w)
    (hrun : (system .fifo (Client.patientNode ccfg scfg.address)
      (ClientConnection.patientNode scfg)).Run (fun _ ℓ ↦ ℓ ≠ .lose) w w')
    (hright : w'.toRight = []) (hleft : w'.toLeft = []) :
    Whole content (received ccfg w') w' ∨ TurnedDown (received ccfg w') w' := by
  unfold received
  cases htask : ccfg.task with
  | upload src name =>
      have hsource : c.file.content = content := by simpa [Transfers, htask] using hfile
      obtain ⟨stored, hstored⟩ := exists_stored name
      have hsetting : Upload.Setting ccfg scfg name stored content :=
        ⟨hstart.client.proto, hstart.connection.proto, ⟨src, htask⟩, hcontent, hstored⟩
      exact Upload.settled hsetting (((hsetting.flows hsource hstart).run hrun).settled hright hleft)
  | download destination name =>
      obtain ⟨hpieces, hread⟩ : c.file.pieces = [] ∧ _ := by simpa [Transfers, htask] using hfile
      obtain ⟨stored, hstored⟩ := exists_stored name
      have hsetting : Download.Setting ccfg scfg name stored content disk :=
        ⟨hstart.client.proto, hstart.connection.proto, ⟨destination, htask⟩, hcontent, hread, hstored⟩
      exact Download.settled hsetting (((hsetting.flows hpieces hstart).run hrun).settled hright hleft)

namespace Local

theorem promptly_played : (promptly.foldlM (turn downloader downloadConnection) download.journaled).any
    fun w ↦ w.toRight.isEmpty && w.toLeft.isEmpty := by decide +kernel

end Local

theorem over_of_settled_download : ∃ w', Whole Local.twoChunks (received Local.downloader w') w' ∨
    TurnedDown (received Local.downloader w') w' := by
  obtain ⟨w', hw, hempty⟩ := (Option.any_eq_true _ _).mp Local.promptly_played
  obtain ⟨hright, hleft⟩ := (Bool.and_eq_true _ _).mp hempty
  exact ⟨w'.forget, over_of_settled Local.downloader Local.downloadConnection
    (fun _ ↦ some Local.twoChunks) Local.shaken Local.twoChunks Local.download w'.forget (by decide)
    Local.download_transfers Local.download_starts (Run.forget (run_of_turns hw))
    (List.isEmpty_iff.mp hright) (List.isEmpty_iff.mp hleft)⟩

end Saw

end Rdt
