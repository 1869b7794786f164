import Rdt.Configuration.Client
import Rdt.Server.Uploading

/-!
# The connection while an upload is configured

What a connection makes of an event until it has the name and the size of the file, under either
protocol.
-/

namespace Rdt.Configuration

open PacketParser Session Server ServerProtocol ClientConnection

variable {cfg : Server.Config} {c : ClientConnection} {ev : Event} {P : Bytes → Prop}

/-- The connection waits for the name, the second packet of the client. -/
structure Naming (cfg : Server.Config) (c : ClientConnection) : Prop where
  point : c.point = .receiveFilenameForUpload
  sequenceNumber : c.sequenceNumber = numberAt cfg.protocolVersion 2
  ackNumber : c.ackNumber = ackAt cfg.protocolVersion 2
  repeats : ∀ raw ∈ c.socket.retransmission.to cfg.clientAddress,
    Confirms cfg.protocolVersion 1 false raw

/-- The connection waits for the size, the third packet of the client. -/
structure Sizing (cfg : Server.Config) (c : ClientConnection) : Prop where
  point : ∃ name, c.point = .receiveFilesize name
  sequenceNumber : c.sequenceNumber = numberAt cfg.protocolVersion 3
  ackNumber : c.ackNumber = ackAt cfg.protocolVersion 2
  repeats : ∀ raw ∈ c.socket.retransmission.to cfg.clientAddress,
    Confirms cfg.protocolVersion 2 false raw

/-- The connection waits for neither any more. -/
structure Configured (cfg : Server.Config) (c : ClientConnection) : Prop where
  phase : c.phase = .receiving ∨ c.phase = .closing ∨ c.phase = .refusing ∨ c.phase = .halted
  fits : c.phase = .receiving → ClientConnection.Fits cfg c

theorem Naming.stirred (h : Naming cfg c) (r : ReListen) (b : Bool) : Naming cfg (c.stirred r b) :=
  ⟨h.point, h.sequenceNumber, h.ackNumber, h.repeats⟩

theorem Sizing.stirred (h : Sizing cfg c) (r : ReListen) (b : Bool) : Sizing cfg (c.stirred r b) :=
  ⟨h.point, h.sequenceNumber, h.ackNumber, h.repeats⟩

theorem repeated_connection (h : ∀ raw ∈ c.socket.retransmission.to cfg.clientAddress, P raw)
    (r : ReListen) (b : Bool) : ∀ raw ∈ (c.stirred r b).outbox.to cfg.clientAddress, P raw := by
  intro raw hr
  cases b with
  | false => cases hr
  | true => exact h raw hr

theorem configured_of_error (cfg : Server.Config) (now : Time) (e : Exn) (c : ClientConnection) :
    Configured cfg (handle cfg now (.error (e, c))) := by
  have hphase : (handle cfg now (.error (e, c))).phase = .refusing ∨
      (handle cfg now (.error (e, c))).phase = .halted := (handle_error_kept now c e).1
  refine ⟨.inr (.inr hphase), fun h ↦ ?_⟩
  rw [h] at hphase
  rcases hphase with h | h <;> cases h

/-- The ACK of a packet of the client -/
theorem sends_confirmation (cfg : Server.Config) {c : ClientConnection} {k : Nat} (hk : k ≤ lastNumber)
    (hseq : c.sequenceNumber = numberAt cfg.protocolVersion k)
    (hack : c.ackNumber = ackAt cfg.protocolVersion k) :
    ∃ raw, sendAck cfg c = .ok (handed cfg c raw) ∧ Confirms cfg.protocolVersion k false raw := by
  have hle := numberAt_le cfg.protocolVersion k
  have hn : (numberAt cfg.protocolVersion k).value < 2 ^ 32 :=
    lt_of_le_of_lt (le_trans hle hk) lastNumber_lt
  have hm : ∀ m ∈ ackAt cfg.protocolVersion k, m.value ≤ lastNumber := by
    intro m hm
    unfold ackAt at hm
    split at hm
    · cases hm
    · exact Option.some.inj hm ▸ le_trans (numberAt_le .goBackN k) hk
  rcases Protocol.encode_fits hn hm true false false cfg.address.port
    (Protocol.nil_lt_payloadLimit cfg.protocolVersion) with ⟨raw, hok, hcounted, hlen, -⟩ | ⟨hp, hnone, -⟩
  · obtain ⟨m, hparse, -, hgbn⟩ := Protocol.parse_of_encode (fun hp ↦ numberAt_lt hp k) hok
    refine ⟨raw, ?_, hcounted, hlen, ?_, ?_, ?_, ?_, ?_⟩
    · exact (send_eq_ok cfg).mpr ⟨raw, by rw [hseq, hack, hok], rfl⟩
    · rw [hparse]
    · rw [hparse]
    · rw [hparse]
    · rw [hparse]
    · intro n hn
      rw [hparse]
      unfold ackAt at hn hgbn
      split at hn
      · cases hn
      · rename_i hp
        rw [hp] at hgbn
        rw [← Option.some.inj hn]
        exact hgbn rfl
  · rw [hp] at hnone
    cases hnone

/-! ## The receives -/

/-- The name is taken, the file created and the name confirmed; or the upload is refused. -/
theorem Naming.names (h : Naming cfg c) (now : Time) {r : SequenceNumber × String}
    (hr : r.1 = numberAt cfg.protocolVersion 2) {c' : ClientConnection}
    (hc : c' = handle cfg now (onFilenameForUpload cfg now { c with outbox := [] } r)) :
    (Sizing cfg c' ∧ ∀ raw ∈ c'.outbox.to cfg.clientAddress, Confirms cfg.protocolVersion 2 false raw) ∨
      Configured cfg c' := by
  rw [onFilenameForUpload] at hc
  dsimp only at hc
  split at hc
  · rename_i file disk _
    obtain ⟨raw, hsend, hraw⟩ := sends_confirmation cfg
      (c := { c with outbox := [], sequenceNumber := r.1, file := some file, disk })
      (by decide) hr h.ackNumber
    rw [hsend] at hc
    subst hc
    have only : ∀ raw' ∈ Outbox.to [(raw, cfg.clientAddress)] cfg.clientAddress,
        Confirms cfg.protocolVersion 2 false raw' :=
      fun raw' hr ↦ Outbox.eq_of_mem_to hr ▸ hraw
    refine .inl ⟨⟨⟨r.2, rfl⟩, ?_, h.ackNumber, only⟩, only⟩
    show r.1.step = _
    rw [hr]
    exact (numberAt_succ _ 2).symm
  · split at hc
    · exact .inr (hc ▸ configured_of_error cfg now _ _)
    · exact .inr (hc ▸ configured_of_error cfg now _ _)

/-- A receive of the connection whose exceptions end the upload -/
theorem listen_cases {α : Type} {op : Operation α} {next : ClientConnection → α → Exec}
    (hu : c.Unwindowed) (hl : c.listened cfg ev = (reListenIfFailed op c.socket c.listening ev).void)
    (hstep : c.step cfg ev =
      handle cfg ev.now (ClientConnection.listen { c with outbox := [] } op ev (onSuccess next))) :
    (∃ r b, c.step cfg ev = c.stirred r b) ∨
      (∃ a raw source now, ev = .datagram raw source now ∧
        op.check (raw.take op.bufferSize) source = .ok a ∧
        c.step cfg ev = handle cfg now (next { c with outbox := [] } a)) ∨
      Configured cfg (c.step cfg ev) := by
  cases hr : reListenIfFailed op c.socket c.listening ev with
  | listening r b =>
      rw [hr] at hl
      exact .inl ⟨r, b, step_of_listening hu hl⟩
  | returned a =>
      obtain ⟨raw, source, hrecv, hcheck⟩ := returned_check hr
      obtain ⟨raw, now, rfl, rfl⟩ := ReListen.recvfrom_packet hrecv
      refine .inr (.inl ⟨a, raw, source, now, rfl, hcheck, ?_⟩)
      rw [hstep]
      dsimp only [ClientConnection.listen]
      rw [hr]
      rfl
  | raised e b =>
      right
      right
      rw [hstep]
      dsimp only [ClientConnection.listen]
      rw [hr]
      exact configured_of_error cfg ev.now e _

/-- The name has the second number of the client. -/
theorem Naming.step (h : Naming cfg c) (ev : Event) :
    (Naming cfg (c.step cfg ev) ∧ ∀ raw ∈ (c.step cfg ev).outbox.to cfg.clientAddress,
        Confirms cfg.protocolVersion 1 false raw) ∨
      ((∃ raw source now, ev = .datagram raw source now) ∧ Sizing cfg (c.step cfg ev) ∧
        ∀ raw ∈ (c.step cfg ev).outbox.to cfg.clientAddress, Confirms cfg.protocolVersion 2 false raw) ∨
      Configured cfg (c.step cfg ev) := by
  have hu : c.Unwindowed := by
    rw [Unwindowed, h.point]
    trivial
  have hl : c.listened cfg ev = (reListenIfFailed (receiveFilename cfg.protocolVersion
      c.sequenceNumber) c.socket c.listening ev).void := by
    rw [listened, h.point]
  have hstep : c.step cfg ev = handle cfg ev.now (ClientConnection.listen { c with outbox := [] }
      (receiveFilename cfg.protocolVersion c.sequenceNumber) ev
        (onSuccess (onFilenameForUpload cfg ev.now))) := by
    rw [step_eq_handle (by simp [h.point]), onEvent]
    dsimp only
    rw [h.point]
  rcases listen_cases hu hl hstep with ⟨r, b, hc⟩ | ⟨a, raw, source, now, rfl, hcheck, hc⟩ | hc
  · rw [hc]
    exact .inl ⟨h.stirred r b, repeated_connection h.repeats r b⟩
  · obtain ⟨-, -, -, -, ha⟩ := receiveFilename_eq_ok.mp hcheck
    have hnumber : a.1 = numberAt cfg.protocolVersion 2 := by
      rw [ha, h.sequenceNumber]
      exact congrArg (SequenceNumber.mk _) (numberAt_protocol _ 2).symm
    rcases h.names now hnumber hc with hs | hs
    · exact .inr (.inl ⟨⟨raw, source, now, rfl⟩, hs⟩)
    · exact .inr (.inr hs)
  · exact .inr (.inr hc)

/-- The size is taken and confirmed; or the upload is refused. -/
theorem Sizing.sizes (h : Sizing cfg c) (now : Time) (filename : String) {r : SequenceNumber × Nat}
    (hr : r.1 = numberAt cfg.protocolVersion 3) :
    Configured cfg (handle cfg now (onFilesize cfg now filename { c with outbox := [] } r)) := by
  rw [onFilesize]
  dsimp only
  split
  · have hack : c.ackNumber.map SequenceNumber.step = ackAt cfg.protocolVersion 3 := by
      rw [h.ackNumber]
      unfold ackAt
      split
      · rfl
      · exact congrArg some (numberAt_succ .goBackN 2).symm
    let d : ClientConnection := { c with
      outbox := []
      sequenceNumber := r.1
      ackNumber := c.ackNumber.map SequenceNumber.step }
    obtain ⟨raw, hsend, -⟩ := sends_confirmation cfg (c := d) (by decide) hr hack
    have hfits : cfg.protocolVersion = .goBackN → d.sequenceNumber.value < 2 ^ 32 ∧
        ∃ n, d.ackNumber = some n ∧ n.value < 2 ^ 32 := by
      intro hp
      show r.1.value < 2 ^ 32 ∧ ∃ n, c.ackNumber.map SequenceNumber.step = some n ∧ n.value < 2 ^ 32
      rw [hr, hack, hp]
      exact ⟨by decide, numberAt .goBackN 3, rfl, by decide⟩
    show Configured cfg (handle cfg now (sendAck cfg d >>= fun c ↦ .ok (startReception cfg now
      { c with filenameForUpload := some filename, filesizeForUpload := some r.2 })))
    rw [hsend]
    show Configured cfg (startReception cfg now { handed cfg d raw with
      filenameForUpload := some filename, filesizeForUpload := some r.2 })
    unfold startReception
    split
    · rename_i hproto hm
      obtain ⟨hn, m, hsome, hlt⟩ := hfits hproto
      refine ⟨.inl rfl, fun _ ↦ ⟨hfits, ?_⟩⟩
      rintro _ ⟨⟩
      exact ⟨hn, Option.some.inj (hsome.symm.trans hm) ▸ hlt⟩
    · exact ⟨.inl rfl, fun _ ↦ ⟨fun hp ↦ ⟨SequenceNumber.step_value_lt _, (hfits hp).2⟩,
        fun _ hp ↦ (by cases hp)⟩⟩
  · exact configured_of_error cfg now _ _

theorem Sizing.step (h : Sizing cfg c) (ev : Event) :
    (Sizing cfg (c.step cfg ev) ∧ ∀ raw ∈ (c.step cfg ev).outbox.to cfg.clientAddress,
        Confirms cfg.protocolVersion 2 false raw) ∨ Configured cfg (c.step cfg ev) := by
  obtain ⟨filename, hp⟩ := h.point
  have hu : c.Unwindowed := by
    rw [Unwindowed, hp]
    trivial
  have hl : c.listened cfg ev = (reListenIfFailed (receiveFilesize cfg.protocolVersion
      c.sequenceNumber) c.socket c.listening ev).void := by
    rw [listened, hp]
  have hstep : c.step cfg ev = handle cfg ev.now (ClientConnection.listen { c with outbox := [] }
      (receiveFilesize cfg.protocolVersion c.sequenceNumber) ev
        (onSuccess (onFilesize cfg ev.now filename))) := by
    rw [step_eq_handle (by simp [hp]), onEvent]
    dsimp only
    rw [hp]
  rcases listen_cases hu hl hstep with ⟨r, b, hc⟩ | ⟨a, raw, source, now, rfl, hcheck, hc⟩ | hc
  · rw [hc]
    exact .inl ⟨h.stirred r b, repeated_connection h.repeats r b⟩
  · obtain ⟨-, -, -, rfl⟩ := receiveFilesize_eq_ok.mp hcheck
    right
    rw [hc]
    refine h.sizes now filename ?_
    rw [h.sequenceNumber]
    exact congrArg (SequenceNumber.mk _) (numberAt_protocol _ 3).symm
  · exact .inr hc

/-- Nothing that happens later makes the connection wait for the name or the size again. -/
theorem Configured.step (h : Configured cfg c) (ev : Event) : Configured cfg (c.step cfg ev) := by
  have hnot : c.phase ≠ .naming ∧ (∀ name, c.phase ≠ .sizing name) ∧ c.phase ≠ .transmitting := by
    rcases h.phase with hp | hp | hp | hp <;> rw [hp] <;> simp
  obtain ⟨hnaming, hsizing, htransmitting⟩ := hnot
  have hf : c.phase.Uploads → ClientConnection.Fits cfg c := by
    intro hu
    rcases h.phase with hp | hp | hp | hp
    · exact h.fits hp
    all_goals
      rw [hp] at hu
      exact hu.elim
  have other : ∀ {p : Phase}, (c.step cfg ev).phase = p →
      p = .closing ∨ p = .refusing ∨ p = .halted → Configured cfg (c.step cfg ev) := by
    rintro p rfl hp
    refine ⟨.inr hp, fun hr ↦ ?_⟩
    rw [hr] at hp
    rcases hp with hp | hp | hp <;> cases hp
  cases step_does hf ev with
  | waits hphase _ _ hfits =>
      refine ⟨hphase ▸ h.phase, fun hr ↦ hfits (h.fits (hphase ▸ hr))⟩
  | opens hp => exact absurd hp hnaming
  | accepts hp => exact absurd hp (hsizing _)
  | appends _ _ hphase _ _ hfits => exact ⟨.inl hphase, fun _ ↦ hfits⟩
  | finishes _ _ _ hphase => exact other hphase (.inl rfl)
  | completes _ hphase => exact other hphase (.inr (.inr rfl))
  | refuses _ hphase =>
      rcases hphase with hphase | hphase
      · exact other hphase (.inr (.inl rfl))
      · exact other hphase (.inr (.inr rfl))
  | fails _ _ _ hphase => exact other hphase (.inr (.inr rfl))
  | transmits hp => exact absurd hp htransmitting

end Rdt.Configuration
