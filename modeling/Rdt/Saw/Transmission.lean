import Rdt.Gbn.Wire
import Rdt.Saw.Sending

/-!
# What the Stop-and-Wait loops put on the wire

A sending end with a record of all it has sent since it entered its loop, whatever events it
gets there.
-/

namespace Rdt.Saw

open Duplex SlidingWindow

variable {content : Bytes} {σ i n : Nat} {wire : List Bytes}

/-- The packet of a chunk, for a loop that starts with the number `σ`. -/
def chunk (content : Bytes) (σ i : Nat) : Data UInt8 :=
  ⟨(σ + i) % 2, i + 1 = total content, (chunks content).getD i []⟩

/-- The packets of the first `n` chunks are on the wire, and nothing else. -/
structure Covers (content : Bytes) (σ n : Nat) (wire : List Bytes) : Prop where
  all : ∀ k < n, ∃ raw ∈ wire, Gbn.toData raw = some (chunk content σ k)
  only : ∀ raw ∈ wire, ∃ k < n, Gbn.toData raw = some (chunk content σ k)

theorem covers_nil (content : Bytes) (σ : Nat) : Covers content σ 0 [] :=
  ⟨fun k hk ↦ absurd hk (Nat.not_lt_zero k), fun _ hraw ↦ absurd hraw List.not_mem_nil⟩

theorem Covers.append (h : Covers content σ n wire) {wire' : List Bytes}
    (hw : ∀ raw ∈ wire', ∃ k < n, Gbn.toData raw = some (chunk content σ k)) :
    Covers content σ n (wire ++ wire') where
  all k hk := by
    obtain ⟨raw, hraw, hd⟩ := h.all k hk
    exact ⟨raw, List.mem_append_left _ hraw, hd⟩
  only raw hraw := (List.mem_append.mp hraw).elim (h.only raw) (hw raw)

theorem Covers.next (h : Covers content σ n wire) {raw : Bytes}
    (hraw : Gbn.toData raw = some (chunk content σ n)) :
    Covers content σ (n + 1) (wire ++ [raw]) where
  all k hk := by
    rcases Nat.lt_succ_iff_lt_or_eq.mp hk with hk | rfl
    · obtain ⟨raw', hmem, hd⟩ := h.all k hk
      exact ⟨raw', List.mem_append_left _ hmem, hd⟩
    · exact ⟨raw, List.mem_append_right _ (List.mem_singleton.mpr rfl), hraw⟩
  only raw' hmem := by
    rcases List.mem_append.mp hmem with hmem | hmem
    · obtain ⟨k, hk, hd⟩ := h.only raw' hmem
      exact ⟨k, Nat.lt_succ_of_lt hk, hd⟩
    · obtain rfl := List.mem_singleton.mp hmem
      exact ⟨n, Nat.lt_succ_self n, hraw⟩

/-- A chunk fits into the buffer of a receiver. -/
theorem toData_chunk {raw : Bytes} {isAck : Bool}
    (h : Carries raw ((σ + i) % 2) isAck (i + 1 = total content) ((chunks content).getD i [])) :
    Gbn.toData raw = some (chunk content σ i) := by
  obtain ⟨isSyn, port, h⟩ := h
  obtain ⟨hne, hparse⟩ := h fullBufferSize (by decide)
  have hraw : raw ≠ [] := by
    rintro rfl
    exact hne List.take_nil
  have hfit : ((chunks content).getD i []).length ≤ fullBufferSize - sawProtocolHeaderSize :=
    le_trans (length_chunk_le i) (by decide)
  rw [Gbn.toData, if_neg hraw, hparse, List.take_of_length_le hfit]
  rfl

/-- What the socket may send again is a chunk already sent. -/
def Repeats (content : Bytes) (σ n : Nat) (socket : SocketSaw) : Prop :=
  ∀ raw ∈ socket.lastRawPacket, ∃ k < n, Gbn.toData raw = some (chunk content σ k)

theorem Covers.retransmit (h : Covers content σ n wire) {socket : SocketSaw}
    (hr : Repeats content σ n socket) (b : Bool) (peer : Address) :
    Covers content σ n (wire ++ (if b then socket.retransmission else []).to peer) :=
  h.append fun raw hraw ↦ hr raw (SocketSaw.mem_retransmission hraw)

theorem repeats_saveState {raw : Bytes} (hraw : Gbn.toData raw = some (chunk content σ i))
    (socket : SocketSaw) (A : Address) :
    Repeats content σ (i + 1) (socket.saveState (some raw) A) := by
  rintro _ ⟨⟩
  exact ⟨i, Nat.lt_succ_self i, hraw⟩

/-! ## The client of an upload -/

section Client

open Client

variable {cfg : Client.Config} {peer : Address} {c : Client} {now : Time}

/-- The client has sent `n` chunks in the loop it entered with the number `σ`. -/
structure ClientHasSent (peer : Address) (content : Bytes) (σ n : Nat) (c : Client)
    (wire : List Bytes) : Prop where
  server : c.serverAddress = peer
  reachable : peer.port ≠ 0
  wire : Covers content (σ + 1) n wire
  socket : Repeats content (σ + 1) n c.socket

/-- Where the client stands once it has entered `send_file_saw`. -/
inductive ClientTransmits (peer : Address) (content : Bytes) (σ : Nat) (c : Client)
    (wire : List Bytes) : Prop
  | sending (n : Nat) (hn : n < total content)
      (hp : c.point = .sendFileSaw ((chunks content).drop n) (n + 1) (total content))
      (hnumber : c.sequenceNumber = ⟨(σ + n) % 2, .stopAndWait⟩)
      (hsent : ClientHasSent peer content σ n c wire)
  | waiting (hp : c.point = .initiateCloseConnection)
      (hsent : ClientHasSent peer content σ (total content) c wire)
  | leaving (h : c.Leaving)

theorem reachable_of_sendFileSaw {chunk : Bytes} {remaining : List Bytes} {totalChunks k : Nat}
    {c' : Client} (h : sendFileSaw cfg now totalChunks (chunk :: remaining) k c = .ok c') :
    c.serverAddress.port ≠ 0 := by
  unfold sendFileSaw at h
  obtain ⟨c₁, hsent, -⟩ := except_bind_eq_ok.mp h
  exact ((send_eq_ok cfg).mp hsent).1

/-- The loop from the read of a chunk on -/
theorem client_sendFileSaw (now : Time) (hproto : cfg.protocolVersion = .stopAndWait) (hn : n < total content)
    (hnumber : c.sequenceNumber = ⟨(σ + n) % 2, .stopAndWait⟩) (hout : c.outbox = [])
    (hserver : c.serverAddress = peer) (hport : peer.port ≠ 0)
    (hwire : Covers content (σ + 1) n wire) :
    ∃ c', sendFileSaw cfg now (total content) ((chunks content).drop n) (n + 1) c = .ok c' ∧
      ClientTransmits peer content σ c' (wire ++ c'.outbox.to peer) := by
  have hstep : c.stepSequence.sequenceNumber = ⟨(σ + 1 + n) % 2, .stopAndWait⟩ := by
    show c.sequenceNumber.step = _
    rw [hnumber, SequenceNumber.step_mk_saw, SequenceNumber.stepSaw_mod, Nat.add_right_comm]
  have hlt : c.stepSequence.sequenceNumber.value < 2 := by
    rw [hstep]
    exact Nat.mod_lt _ (by decide)
  obtain ⟨raw, hraw, hloop⟩ := sendFileSaw_eq hproto hn now hlt (hserver ▸ hport)
  rw [hstep] at hraw
  have hdata := toData_chunk hraw
  have hnext : ClientHasSent peer content σ (n + 1) (c.stepSequence.handed raw)
      (wire ++ (c.stepSequence.handed raw).outbox.to peer) := by
    refine ⟨hserver, hport, ?_, repeats_saveState hdata c.socket _⟩
    have hto : (c.stepSequence.handed raw).outbox.to peer = [raw] := by
      simp [handed, stepSequence, hout, hserver]
    rw [hto]
    exact hwire.next hdata
  refine ⟨_, hloop, ?_⟩
  by_cases hlast : n + 1 = total content
  · rw [if_pos hlast]
    rw [hlast] at hnext
    exact .waiting rfl ⟨hnext.server, hport, hnext.wire, hnext.socket⟩
  · rw [if_neg hlast]
    refine .sending (n + 1) (lt_of_le_of_ne hn hlast) rfl ?_
      ⟨hnext.server, hport, hnext.wire, hnext.socket⟩
    rw [Nat.add_right_comm] at hstep
    exact hstep

theorem ClientTransmits.step (hproto : cfg.protocolVersion = .stopAndWait)
    (h : ClientTransmits peer content σ c wire) (ev : Event) :
    ClientTransmits peer content σ (c.step cfg ev) (wire ++ (c.step cfg ev).outbox.to peer) := by
  cases h with
  | leaving h => exact .leaving (Leaving.step cfg h ev)
  | sending n hn hp hnumber hsent =>
      simp only [Client.step, onEvent, hp, Client.listen]
      split
      · exact .sending n hn rfl hnumber
          ⟨hsent.server, hsent.reachable, hsent.wire.retransmit hsent.socket _ _, hsent.socket⟩
      · obtain ⟨c', hrun, hc'⟩ := client_sendFileSaw (c := { c with outbox := [] }) ev.now hproto hn
          hnumber rfl hsent.server hsent.reachable hsent.wire
        rw [hp] at hrun
        simp only [onSuccess, hrun, handle]
        exact hc'
      · exact .leaving (leaving_handle_error cfg ev.now _)
  | waiting hp hsent =>
      simp only [Client.step, onEvent, hp, Client.listen]
      split
      · exact .waiting rfl
          ⟨hsent.server, hsent.reachable, hsent.wire.retransmit hsent.socket _ _, hsent.socket⟩
      · exact .leaving (leaving_onFinOrAck cfg ev.now _ _)
      · exact .leaving (leaving_onFinOrAck cfg ev.now _ _)

/-- A client enters `send_file`. -/
structure ClientEntersSendFile (cfg : Client.Config) (peer : Address) (content : Bytes) (σ : Nat)
    (c' : Client) : Prop where
  proto : cfg.protocolVersion = .stopAndWait
  number : σ < 2
  enters : ∃ (c : Client) (now : Time), sendFile cfg now c = .ok c' ∧
    c.sequenceNumber = ⟨σ, .stopAndWait⟩ ∧ c.file.content = content ∧ c.serverAddress = peer ∧
    c.outbox = []

theorem ClientEntersSendFile.transmits (h : ClientEntersSendFile cfg peer content σ c)
    (hcontent : content ≠ []) : ClientTransmits peer content σ c (c.outbox.to peer) := by
  obtain ⟨c₀, now, hrun, hnumber, rfl, hserver, hout⟩ := h.enters
  unfold sendFile at hrun
  rw [h.proto, ← total_eq] at hrun
  have hport : peer.port ≠ 0 := by
    have hfirst := hrun
    dsimp only at hfirst
    rw [← chunks, ← List.drop_zero (l := chunks c₀.file.content), drop_chunks (total_pos hcontent)]
      at hfirst
    exact hserver ▸ reachable_of_sendFileSaw hfirst
  obtain ⟨c', hloop, hc'⟩ := client_sendFileSaw now h.proto (total_pos hcontent)
    (by rw [hnumber, Nat.add_zero, Nat.mod_eq_of_lt h.number]) hout hserver hport (covers_nil _ _)
  obtain rfl := Except.ok.inj (hloop.symm.trans hrun)
  exact hc'

/-- Whenever the client waits for the answer to the last chunk, the chunks are on the wire. -/
theorem ClientEntersSendFile.covers (h : ClientEntersSendFile cfg peer content σ c)
    (hcontent : content ≠ []) (events : List Event) {s : Client × List Bytes}
    (hs : record (Client.react cfg peer) (c, c.outbox.to peer) events = s)
    (hp : s.1.point = .initiateCloseConnection) : Covers content (σ + 1) (total content) s.2 := by
  have hinv : ClientTransmits peer content σ s.1 s.2 := by
    rw [← hs]
    exact record_invariant (I := ClientTransmits peer content σ)
      (fun ev h' ↦ ClientTransmits.step h.proto h' ev) (h.transmits hcontent) events
  cases hinv with
  | sending n hn hp' => exact absurd (hp'.symm.trans hp) nofun
  | waiting _ hsent => exact hsent.wire
  | leaving h =>
      cases h with
      | finalizing hp' => exact absurd (hp'.symm.trans hp) nofun
      | ended hp' => exact absurd (hp'.symm.trans hp) nofun

end Client

/-! ## The connection of a download -/

section Server

open Server Server.ClientConnection

variable {cfg : Server.Config} {c : ClientConnection} {now : Time}

/-- The connection has sent `n` chunks in the loop it entered with the number `σ`. -/
structure ServerHasSent (content : Bytes) (σ n : Nat) (c : ClientConnection) (wire : List Bytes) :
    Prop where
  wire : Covers content σ n wire
  socket : Repeats content σ n c.socket

/-- Where the connection stands once it has entered `transmit_file`. -/
inductive ServerTransmits (content : Bytes) (σ : Nat) (c : ClientConnection) (wire : List Bytes) :
    Prop
  | sending (n : Nat) (hn : n < total content)
      (hp : c.point = .waitForChunkAck ((chunks content).drop n) (n + 1) (total content))
      (hnumber : c.stepSequence.sequenceNumber = ⟨(σ + n) % 2, .stopAndWait⟩)
      (hsent : ServerHasSent content σ n c wire)
  | waiting (hp : c.point = .closingHandshakeForDownload)
      (hsent : ServerHasSent content σ (total content) c wire)
  | leaving (h : c.Leaving)

/-- The loop from the read of a chunk on; `c` is the connection as it sends the chunk. -/
theorem server_transmitFile (now : Time) (hproto : cfg.protocolVersion = .stopAndWait)
    (hn : n < total content) (isFirst : Bool) (c₀ : ClientConnection)
    (hc : (if isFirst then c₀ else c₀.stepSequence) = c)
    (hnumber : c.sequenceNumber = ⟨(σ + n) % 2, .stopAndWait⟩) (hout : c.outbox = [])
    (hwire : Covers content σ n wire) :
    ∃ c', transmitFile cfg now (total content) ((chunks content).drop n) (n + 1) isFirst c₀ =
        .ok c' ∧
      ServerTransmits content σ c' (wire ++ c'.outbox.to cfg.clientAddress) := by
  have hlt : c.sequenceNumber.value < 2 := by
    rw [hnumber]
    exact Nat.mod_lt _ (by decide)
  rw [← hc] at hlt
  obtain ⟨raw, hraw, hloop⟩ := transmitFile_eq hproto hn isFirst now hlt
  rw [hc] at hraw hloop
  rw [hnumber] at hraw
  have hdata := toData_chunk hraw
  have hnext : ServerHasSent content σ (n + 1) (handed cfg c raw)
      (wire ++ (handed cfg c raw).outbox.to cfg.clientAddress) := by
    refine ⟨?_, repeats_saveState hdata c.socket _⟩
    have hto : (handed cfg c raw).outbox.to cfg.clientAddress = [raw] := by
      simp [handed, hout]
    rw [hto]
    exact hwire.next hdata
  refine ⟨_, hloop, ?_⟩
  by_cases hlast : n + 1 = total content
  · rw [if_pos hlast]
    rw [hlast] at hnext
    exact .waiting rfl ⟨hnext.wire, hnext.socket⟩
  · rw [if_neg hlast]
    refine .sending (n + 1) (lt_of_le_of_ne hn hlast) rfl ?_ ⟨hnext.wire, hnext.socket⟩
    show c.sequenceNumber.step = _
    rw [hnumber, SequenceNumber.step_mk_saw, SequenceNumber.stepSaw_mod, Nat.add_assoc]

theorem ServerTransmits.step (hproto : cfg.protocolVersion = .stopAndWait)
    (h : ServerTransmits content σ c wire) (ev : Event) :
    ServerTransmits content σ (c.step cfg ev)
      (wire ++ (c.step cfg ev).outbox.to cfg.clientAddress) := by
  cases h with
  | leaving h => exact .leaving (Leaving.step h cfg ev)
  | sending n hn hp hnumber hsent =>
      simp only [ClientConnection.step, onEvent, hp, ClientConnection.listen]
      split
      · exact .sending n hn rfl hnumber ⟨hsent.wire.retransmit hsent.socket _ _, hsent.socket⟩
      · obtain ⟨c', hrun, hc'⟩ := server_transmitFile ev.now hproto hn false { c with outbox := [] }
          rfl hnumber rfl hsent.wire
        rw [hp] at hrun
        simp only [onSuccess, hrun, handle]
        exact hc'
      · exact .leaving (leaving_handle_error cfg ev.now _)
  | waiting hp hsent =>
      simp only [ClientConnection.step, onEvent, hp, ClientConnection.listen]
      split
      · exact .waiting rfl ⟨hsent.wire.retransmit hsent.socket _ _, hsent.socket⟩
      · exact .leaving (leaving_completeDownload cfg ev.now _)
      · exact .leaving (leaving_handle_error cfg ev.now _)

/-- A connection gets the name of a file it has, and enters `transmit_file`. -/
structure ServerEntersTransmitFile (cfg : Server.Config) (content : Bytes) (σ : Nat)
    (c' : ClientConnection) : Prop where
  proto : cfg.protocolVersion = .stopAndWait
  number : σ < 2
  enters : ∃ (c : ClientConnection) (now : Time) (filename : String) (file : File),
    onFilenameForDownload cfg now c (⟨σ, .stopAndWait⟩, filename) = .ok c' ∧
    cfg.fileHandler.openFileReadMode c.disk filename false = .ok file ∧ file.content = content ∧
    c.outbox = []

theorem ServerEntersTransmitFile.transmits (h : ServerEntersTransmitFile cfg content σ c)
    (hcontent : content ≠ []) :
    ServerTransmits content σ c (c.outbox.to cfg.clientAddress) := by
  obtain ⟨c₀, now, filename, file, hrun, hopen, rfl, hout⟩ := h.enters
  obtain ⟨c', hloop, hc'⟩ := server_transmitFile now h.proto (total_pos hcontent) true
    { ({ c₀ with sequenceNumber := ⟨σ, .stopAndWait⟩ } : ClientConnection).stepAck with
      file := some file }
    rfl (by rw [Nat.add_zero, Nat.mod_eq_of_lt h.number]; rfl) hout (covers_nil _ _)
  unfold onFilenameForDownload at hrun
  dsimp only [stepAck] at hrun
  rw [hopen] at hrun
  dsimp only at hrun
  rw [h.proto, ← total_eq] at hrun
  obtain rfl := Except.ok.inj (hloop.symm.trans hrun)
  exact hc'

/-- Whenever the connection waits for the answer to the last chunk, the chunks are on the wire. -/
theorem ServerEntersTransmitFile.covers (h : ServerEntersTransmitFile cfg content σ c)
    (hcontent : content ≠ []) (events : List Event) {s : ClientConnection × List Bytes}
    (hs : record (ClientConnection.react cfg) (c, c.outbox.to cfg.clientAddress) events = s)
    (hp : s.1.point = .closingHandshakeForDownload) : Covers content σ (total content) s.2 := by
  have hinv : ServerTransmits content σ s.1 s.2 := by
    rw [← hs]
    exact record_invariant (I := ServerTransmits content σ)
      (fun ev h' ↦ ServerTransmits.step h.proto h' ev) (h.transmits hcontent) events
  cases hinv with
  | sending n hn hp' => exact absurd (hp'.symm.trans hp) nofun
  | waiting _ hsent => exact hsent.wire
  | leaving h =>
      cases h with
      | closing hp' => exact absurd (hp'.symm.trans hp) nofun
      | ended hp' => exact absurd (hp'.symm.trans hp) nofun

end Server

end Rdt.Saw
