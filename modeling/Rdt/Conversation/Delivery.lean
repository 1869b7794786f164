import Rdt.Configuration.Abort
import Rdt.Conversation.Opening
import Rdt.Saw.Progress

/-!
# What a conversation comes to

Every conversation from the SYN on is a run of the link between the client and its connection, so
that what holds of every run of the link holds of the conversation.
-/

namespace Rdt.Conversation

open Rdt.Configuration Duplex PacketParser Saw Server Session

variable {P : Parties} {file : File} {disk : Disk} {content : Bytes} {s₀ s : Conversation}

/-- The two ends are those of a link that the handshake has opened. -/
theorem Begins.linked (h : Begins P file s₀) (lossy : Prop)
    (hrun : (system P).Run (fun _ t ↦ t = .lose → lossy) s₀ s) {c : Connection}
    (hc : c ∈ connectionOf P s.server) : Linked P file s₀.server.disk lossy c s := by
  obtain ⟨syn, synAck, op, -, hopening⟩ := h.run lossy hrun
  exact hopening.linked_of_some hc

/-- The link has been reached by a run of its own. -/
theorem Begins.reaches (h : Begins P file s₀) (hrun : (system P).Reaches s₀ s) {c : Connection}
    (hc : c ∈ connectionOf P s.server) : ∃ w, LinkStarts P file s₀.server.disk c.cfg w ∧
      (Duplex.system .fifo (Client.patientNode P.ccfg c.cfg.address)
        (ClientConnection.patientNode c.cfg)).Reaches w (s.link c) := by
  obtain ⟨w, hstarts, hlink⟩ := (h.linked True (hrun.mono fun _ _ _ _ ↦ trivial) hc).run
  exact ⟨w, hstarts, hlink.reaches⟩

namespace Local

open Session.Local

variable (protocol : ProtocolType)

theorem alicePort_ne_zero : alice.port ≠ 0 := by decide

def parties : Parties :=
  ⟨uploader protocol, accepter protocol, ⟨alice, alicePort_ne_zero⟩, connectionAddress⟩

/-- The client has said SYN. -/
def opened : Conversation :=
  let client := Client.swallow do
    let c ← Client.requestConnection (uploader protocol)
      (Client.init (uploader protocol) (notes [7]) (Session.Local.disk [7]) 0)
    return c.block .handshake 0
  { client
    server := Accepter.run (accepter protocol) (fun _ ↦ none) []
    toWelcoming := client.outbox.to welcomingAddress
    toConnection := []
    toClient := [] }

theorem begins_opened : Begins (parties protocol) (notes [7]) (opened protocol) where
  matched := ⟨rfl, rfl, show welcomingAddress ≠ connectionAddress by decide⟩
  client := by
    refine ⟨Session.Local.disk [7], Session.Local.disk [7], 0, openFile_notes protocol [7], ?_⟩
    show Client.start (uploader protocol) (Session.Local.disk [7]) 0 = _
    simp only [Client.start, openFile_notes]
    rfl
  server := ⟨fun _ ↦ none, [], rfl⟩
  running := ⟨rfl, rfl⟩
  point := rfl
  stranger := rfl
  fresh := rfl
  toWelcoming := rfl
  toConnection := rfl
  toClient := rfl

/-- The connection is opened and gets the name, and the size is in flight. -/
def named : List Reader := [.welcoming, .client, .welcoming, .client, .connection, .client]

/-- What is left of an upload of one chunk.  A Go-Back-N client waits for the answer to the size before it
sends its window. -/
def chunk : ProtocolType → List Reader
  | .stopAndWait => [.connection, .client, .connection, .client, .client, .connection]
  | .goBackN => [.connection, .client, .clientSends, .connection, .client, .client]

theorem exists_named : ∃ s, (system (parties protocol)).Reaches (opened protocol) s ∧
    ∃ c ∈ connectionOf (parties protocol) s.server, s.toConnection ≠ [] := by
  have hplayed : (named.foldlM (takes (parties protocol)) (opened protocol)).any fun s ↦
      (connectionOf (parties protocol) s.server).any fun _ ↦ !s.toConnection.isEmpty := by
    cases protocol <;> decide +kernel
  obtain ⟨s, hs, hany⟩ := (Option.any_eq_true _ _).mp hplayed
  obtain ⟨c, hc, hsent⟩ := (Option.any_eq_true _ _).mp hany
  refine ⟨s, (run_of_takes hs).reaches, c, hc, fun hnil ↦ ?_⟩
  rw [hnil] at hsent
  cases hsent

/-- The chunk is written, and reported to be the last one. -/
theorem exists_written : ∃ s, (system (parties protocol)).Reaches (opened protocol) s ∧
    ∃ c ∈ connectionOf (parties protocol) s.server, c.thread.file.elim [] File.written = [7] ∧
      .connectionFinalizationReceived ∈ c.thread.reports := by
  have hplayed : ((named ++ chunk protocol).foldlM (takes (parties protocol)) (opened protocol)).any fun s ↦
      (connectionOf (parties protocol) s.server).any fun c ↦
        decide (c.thread.file.elim [] File.written = [7]) &&
          decide (.connectionFinalizationReceived ∈ c.thread.reports) := by
    cases protocol <;> decide +kernel
  obtain ⟨s, hs, hany⟩ := (Option.any_eq_true _ _).mp hplayed
  obtain ⟨c, hc, hwritten⟩ := (Option.any_eq_true _ _).mp hany
  simp only [Bool.and_eq_true, decide_eq_true_eq] at hwritten
  exact ⟨s, (run_of_takes hs).reaches, c, hc, hwritten⟩

theorem exists_quiet : ∃ s, (system (parties .stopAndWait)).Run (fun _ t ↦ t ≠ .lose)
    (opened .stopAndWait) s ∧ s.toWelcoming = [] ∧ s.toConnection = [] ∧ s.toClient = [] := by
  have hplayed : ((named ++ chunk .stopAndWait).foldlM (takes (parties .stopAndWait))
      (opened .stopAndWait)).any fun s ↦
        s.toWelcoming.isEmpty && s.toConnection.isEmpty && s.toClient.isEmpty := by
    decide +kernel
  obtain ⟨s, hs, hempty⟩ := (Option.any_eq_true _ _).mp hplayed
  simp only [Bool.and_eq_true, List.isEmpty_iff] at hempty
  exact ⟨s, run_of_takes hs, hempty.1.1, hempty.1.2, hempty.2⟩

end Local

/-- However the handshake goes, from where the connection is opened on the conversation is a run of the
link between the client and the connection. -/
theorem link_reached (P : Parties) (file : File) (s₀ s : Conversation) (hbegins : Begins P file s₀)
    (hrun : (system P).Reaches s₀ s) : ∀ c ∈ connectionOf P s.server, ∃ w,
      LinkStarts P file s₀.server.disk c.cfg w ∧
        (Duplex.system .fifo (Client.patientNode P.ccfg c.cfg.address)
          (ClientConnection.patientNode c.cfg)).Reaches w (s.link c) :=
  fun _ hc ↦ hbegins.reaches hrun hc

theorem link_reached_upload : ∃ s : Conversation, ∃ c ∈ connectionOf (Local.parties .goBackN) s.server,
    ∃ w, LinkStarts (Local.parties .goBackN) (Local.notes [7]) (fun _ ↦ none) c.cfg w ∧
      (Duplex.system .fifo (Client.patientNode (Local.parties .goBackN).ccfg c.cfg.address)
        (ClientConnection.patientNode c.cfg)).Reaches w (s.link c) := by
  obtain ⟨s, hrun, c, hc, -⟩ := Local.exists_named .goBackN
  exact ⟨s, c, hc, link_reached (Local.parties .goBackN) (Local.notes [7]) (Local.opened .goBackN) s
    (Local.begins_opened .goBackN) hrun c hc⟩

/-! ## Stop-and-wait -/

/-- The content is that of the file that an uploading client has opened, or of the one that the server
has under the name that arrives. -/
def Transfers (P : Parties) (file : File) (disk : Disk) (content : Bytes) : Prop :=
  match P.ccfg.task with
  | .upload _ _ => file.content = content
  | .download _ name => ∀ stored f,
      decodeUtf8 ((encodeUtf8 name).take (fullBufferSize - sawProtocolHeaderSize)) = .ok stored →
        P.scfg.fileHandler.openFileReadMode disk stored false = .ok f → f.content = content

/-- Nothing is written to a file that the client has just opened. -/
theorem pieces_openFile {cfg : Client.Config} {disk' : Disk}
    (h : Client.openFile cfg disk = .ok (file, disk')) : file.pieces = [] := by
  unfold Client.openFile at h
  split at h
  · rename_i src name _
    cases hread : cfg.fileHandler.openFileReadMode disk src true with
    | error e =>
        rw [hread] at h
        cases h
    | ok f =>
        rw [hread] at h
        obtain ⟨rfl, -⟩ := Prod.mk.inj (Except.ok.inj h)
        rw [FileHandler.eq_forReading hread]
        rfl
  · obtain ⟨-, rfl, -⟩ := FileHandler.openFileWriteMode_eq_ok h
    rfl

theorem Begins.pieces (h : Begins P file s) : file.pieces = [] := by
  obtain ⟨disk, disk', now, hopen, -⟩ := h.client
  exact pieces_openFile hopen

variable {cfg : Server.Config} {w : World Client ClientConnection Bytes Bytes}

/-- The setting of a transfer either way, of a name that arrives as `stored` -/
inductive Setting (P : Parties) (cfg : Server.Config) (disk : Disk) (stored : String) (content : Bytes)
    (c : Client) : Prop
  | upload (src : String) (htask : P.ccfg.task = .upload src (filename P.ccfg))
      (h : Upload.Setting P.ccfg cfg (filename P.ccfg) stored content)
      (hsource : c.file.content = content)
  | download (destination : String) (htask : P.ccfg.task = .download destination (filename P.ccfg))
      (h : Download.Setting P.ccfg cfg (filename P.ccfg) stored content disk)
      (hpieces : c.file.pieces = [])

/-- The link starts as a transfer of the content. -/
theorem LinkStarts.setting (h : LinkStarts P file disk cfg w)
    (hproto : P.ccfg.protocolVersion = .stopAndWait) (hcontent : content ≠ [])
    (hpieces : file.pieces = []) (hfile : Transfers P file disk content) {stored : String}
    (hstored : ∀ n, decodeUtf8 ((encodeUtf8 (filename P.ccfg)).take
      (fullBufferSize - sawProtocolHeaderSize)) = .ok n → n = stored) :
    ∃ c₀, Saw.Starts P.ccfg cfg disk c₀ w ∧ Setting P cfg disk stored content c₀ := by
  obtain ⟨c₀, rfl, hstarts⟩ := h.saw hproto
  obtain ⟨packet, now, hcfg⟩ := h.created
  have hhandler : cfg.fileHandler = P.scfg.fileHandler := by
    rw [hcfg]
    rfl
  have hserver : cfg.protocolVersion = .stopAndWait := hstarts.connection.proto
  refine ⟨c₀, hstarts, ?_⟩
  unfold Transfers at hfile
  cases htask : P.ccfg.task with
  | upload src name =>
      have hname : filename P.ccfg = name := by rw [filename, htask]
      rw [htask] at hfile
      subst hname
      exact .upload src htask ⟨hproto, hserver, ⟨src, htask⟩, hcontent, hstored⟩ hfile
  | download destination name =>
      have hname : filename P.ccfg = name := by rw [filename, htask]
      rw [htask] at hfile
      subst hname
      rw [← hhandler] at hfile
      exact .download destination htask
        ⟨hproto, hserver, ⟨destination, htask⟩, hcontent, hfile, hstored⟩ hpieces

/-- A name that the receive buffer holds: at any moment the receiving end has written the first chunks of
the content, the sending end is at most one chunk ahead, completion is reported for the whole content
only, and the connection goes by the name and the size of the client. -/
theorem link_safe (P : Parties) (file : File) (content : Bytes) (s₀ s : Conversation)
    (hproto : P.ccfg.protocolVersion = .stopAndWait) (hcontent : content ≠ [])
    (hfits : Saw.Fits (filename P.ccfg)) (hbegins : Begins P file s₀)
    (hfile : Transfers P file s₀.server.disk content) (hrun : (system P).Reaches s₀ s) :
    ∀ c ∈ connectionOf P s.server, Safe P.ccfg c.cfg content (s.link c) := by
  intro c hc
  obtain ⟨w, hstarts, hlink⟩ := hbegins.reaches hrun hc
  obtain ⟨c₀, hstart, hsetting⟩ := hstarts.setting hproto hcontent hbegins.pieces hfile hfits
  cases hsetting with
  | upload src htask h hsource =>
      have hsafe := Upload.safe_of_agrees h ((h.starts hsource hstart).agrees.run hlink)
      simpa only [Safe, htask] using hsafe
  | download destination htask h hpieces =>
      have hsafe := Download.safe_of_agrees h ((h.starts hpieces hstart).agrees.run hlink)
      simpa only [Safe, htask] using hsafe

/-- The chunk is written, and its FIN has been seen. -/
theorem link_safe_upload : ∃ s : Conversation, ∃ c ∈ connectionOf (Local.parties .stopAndWait) s.server,
    (c.thread.file.elim [] File.written = [7] ∧ .connectionFinalizationReceived ∈ c.thread.reports) ∧
      Safe (Local.parties .stopAndWait).ccfg c.cfg [7] (s.link c) := by
  obtain ⟨s, hrun, c, hc, hwritten⟩ := Local.exists_written .stopAndWait
  exact ⟨s, c, hc, hwritten, link_safe (Local.parties .stopAndWait) (Local.notes [7]) [7]
    (Local.opened .stopAndWait) s rfl (by decide) (fun _ ↦ eq_of_decodeUtf8_take (by decide +kernel))
    (Local.begins_opened .stopAndWait) rfl hrun c hc⟩

/-- Without a loss, nothing is in flight to the welcoming socket and to the client only when the client has
got its connection. -/
theorem Begins.answered (h : Begins P file s₀) (hport : P.ccfg.serverAddress.port ≠ 0)
    (hrun : (system P).Run (fun _ t ↦ t ≠ .lose) s₀ s)
    (hwelcoming : s.toWelcoming = []) (hclient : s.toClient = []) :
    ∃ c, Linked P file s₀.server.disk False c s := by
  obtain ⟨syn, synAck, op, -, hopening⟩ := h.run False hrun
  cases hopening with
  | unsent hzero => exact absurd hzero hport
  | greeting _ _ _ hdue => exact absurd hwelcoming (hdue.resolve_right not_false)
  | answered _ _ _ _ _ hdue => exact absurd hclient (hdue.resolve_right not_false)
  | requested _ _ _ hdue =>
      rw [hwelcoming] at hdue
      exact hdue.ended_of_nil.elim
  | linked c h => exact ⟨c, h⟩

/-- Without a loss, and whatever timers expire, nothing is in flight to any socket only when the client
has got its connection and the transfer is over. -/
theorem link_over (P : Parties) (file : File) (content : Bytes) (s₀ s : Conversation)
    (hproto : P.ccfg.protocolVersion = .stopAndWait) (hcontent : content ≠ []) (hbegins : Begins P file s₀)
    (hport : P.ccfg.serverAddress.port ≠ 0) (hfile : Transfers P file s₀.server.disk content)
    (hrun : (system P).Run (fun _ t ↦ t ≠ .lose) s₀ s) (hwelcoming : s.toWelcoming = [])
    (hconnection : s.toConnection = []) (hclient : s.toClient = []) :
    ∃ c ∈ connectionOf P s.server, Whole content (received P.ccfg (s.link c)) (s.link c) ∨
      TurnedDown (received P.ccfg (s.link c)) (s.link c) := by
  obtain ⟨c, hlinked⟩ := hbegins.answered hport hrun hwelcoming hclient
  obtain ⟨w, hstarts, hlink⟩ := hlinked.run
  obtain ⟨stored, hstored⟩ := exists_stored (filename P.ccfg)
  obtain ⟨c₀, hstart, hsetting⟩ := hstarts.setting hproto hcontent hbegins.pieces hfile hstored
  have hleft : (s.link c).toLeft = [] := List.map_eq_nil_iff.mpr hclient
  refine ⟨c, hlinked.connection, ?_⟩
  unfold received
  cases hsetting with
  | upload src htask h hsource =>
      rw [htask]
      exact Upload.settled h (((h.flows hsource hstart).run hlink).settled hconnection hleft)
  | download destination htask h hpieces =>
      rw [htask]
      exact Download.settled h (((h.flows hpieces hstart).run hlink).settled hconnection hleft)

theorem link_over_upload : ∃ s : Conversation, ∃ c ∈ connectionOf (Local.parties .stopAndWait) s.server,
    Whole [7] (received (Local.parties .stopAndWait).ccfg (s.link c)) (s.link c) ∨
      TurnedDown (received (Local.parties .stopAndWait).ccfg (s.link c)) (s.link c) := by
  obtain ⟨s, hrun, hwelcoming, hconnection, hclient⟩ := Local.exists_quiet
  exact ⟨s, link_over (Local.parties .stopAndWait) (Local.notes [7]) [7] (Local.opened .stopAndWait) s rfl
    (by decide) (Local.begins_opened .stopAndWait) (by decide) rfl hrun hwelcoming hconnection hclient⟩

/-! ## Either protocol -/

section Either

variable {ccfg : Client.Config} {w' : World Client ClientConnection Bytes Bytes}
  {ℓ : Label Bytes Bytes}

/-- A client that does not exhaust its retries does not give up the confirmation of the name either. -/
theorem patient_of_not_gaveUp {d : ClientConnection} {c : Client} {ev : Event}
    (h : (c.listened ccfg ev).gaveUp = false) : Patient ccfg d c ev := by
  rintro - ⟨-, e, he, hlost⟩
  cases hl : c.listened ccfg ev with
  | listening r b =>
      rw [hl] at he
      cases he
  | returned a =>
      rw [hl] at he
      cases he
  | raised e' b =>
      rw [hl] at he h
      obtain rfl := Option.some.inj he
      have hnot := (Bool.or_eq_false_iff.mp h).2
      rw [hlost] at hnot
      cases hnot

theorem uploads_of_patient (h : Duplex.Step .fifo (Client.patientNode ccfg cfg.address)
    (ClientConnection.patientNode cfg) w ℓ w') : (uploads ccfg cfg (Patient ccfg)).step w ℓ w' := by
  cases h with
  | leftTakes ht hs =>
      obtain ⟨ev, hev, hok, hreact⟩ := hs
      exact .leftTakes ht ⟨ev, hev, patient_of_not_gaveUp hok, hreact⟩
  | leftMoves hs =>
      obtain ⟨ev, hev, hok, hreact⟩ := hs
      exact .leftMoves ⟨ev, hev, patient_of_not_gaveUp hok, hreact⟩
  | rightTakes ht hs =>
      obtain ⟨ev, hev, -, hreact⟩ := hs
      exact .rightTakes ht ⟨ev, hev, hreact⟩
  | rightMoves hs =>
      obtain ⟨ev, hev, -, hreact⟩ := hs
      exact .rightMoves ⟨ev, hev, hreact⟩
  | lose hp hq => exact .lose hp hq

end Either

/-- Under either protocol the connection acts on the name and the size that the client informed it of,
and on them alone. -/
theorem link_informed (P : Parties) (file : File) (src name : String) (s₀ s : Conversation)
    (htask : P.ccfg.task = .upload src name)
    (hfit : ∀ n, decodeUtf8 ((encodeUtf8 name).take
      (fullBufferSize - headerSize P.ccfg.protocolVersion)) = .ok n → n = name)
    (hbegins : Begins P file s₀) (hrun : (system P).Reaches s₀ s) :
    ∀ c ∈ connectionOf P s.server,
      ActsAsInformed P.ccfg c.cfg name file.content.length (s.link c) := by
  intro c hc
  obtain ⟨w, hstarts, hlink⟩ := hbegins.reaches hrun hc
  have hop : Client.operationCode P.ccfg = uploadOperation := by rw [Client.operationCode, htask]
  have hstart := hstarts.configuration
  have hstage : Stage P.ccfg c.cfg file name (s.link c) := by
    refine hlink.invariant (I := Stage P.ccfg c.cfg file name) ?_ (hstart.stage hop)
    exact fun h _ hs ↦ h.step htask hstart.protocol hstart.address (uploads_of_patient hs)
  exact hstage.acts hstart.protocol hfit

/-- The size is in flight. -/
theorem link_informed_upload : ∃ s : Conversation, s.toConnection ≠ [] ∧
    ∃ c ∈ connectionOf (Local.parties .goBackN) s.server,
      ActsAsInformed (Local.parties .goBackN).ccfg c.cfg "notes.txt" 1 (s.link c) := by
  obtain ⟨s, hrun, c, hc, hsent⟩ := Local.exists_named .goBackN
  exact ⟨s, hsent, c, hc, link_informed (Local.parties .goBackN) (Local.notes [7]) "notes.txt" "notes.txt"
    (Local.opened .goBackN) s rfl (fun _ ↦ eq_of_decodeUtf8_take (by decide +kernel))
    (Local.begins_opened .goBackN) hrun c hc⟩

end Rdt.Conversation
