import Rdt.Conversation.Window
import Rdt.Server.Keeping

/-!
# What an upload leaves in the storage

The conversation says what the connection has written when it reports its upload completed, and the
server that this is in the storage from then on, whatever the other clients do.
-/

namespace Rdt

open Server

/-! ## The end of the file comes first -/

namespace Server.ClientConnection

variable {cfg : Config} {c c' : ClientConnection} {ev : Event}

/-- The end of the file has arrived before the closing handshake, and so before the last report. -/
structure Finalized (c : ClientConnection) : Prop where
  closing : c.phase = .closing → Report.connectionFinalizationReceived ∈ c.reports
  completed : Report.uploadCompleted ∈ c.reports → Report.connectionFinalizationReceived ∈ c.reports

theorem Finalized.of_reports (h : Finalized c) (hrep : c'.reports = c.reports)
    (hp : c'.phase ≠ .closing) : Finalized c' := by
  refine ⟨fun hp' ↦ absurd hp' hp, ?_⟩
  rw [hrep]
  exact h.completed

theorem Finalized.does (h : Finalized c) (hd : Does cfg c ev c')
    (hlast : Report.uploadCompleted ∈ c.reports → c.phase = .halted) : Finalized c' := by
  cases hd with
  | waits hphase _ hrep =>
      constructor
      · rw [hphase, hrep]
        exact h.closing
      · rw [hrep]
        exact h.completed
  | opens _ _ hphase _ hrep => exact h.of_reports hrep (by rw [hphase]; simp)
  | accepts _ _ hphase _ hrep => exact h.of_reports hrep (by rw [hphase]; simp)
  | appends _ _ hphase _ hrep => exact h.of_reports hrep (by rw [hphase]; simp)
  | finishes _ _ _ _ _ hrep =>
      have hmem : Report.connectionFinalizationReceived ∈ c'.reports := by
        rw [hrep]
        exact List.mem_append_right _ (List.mem_singleton_self _)
      exact ⟨fun _ ↦ hmem, fun _ ↦ hmem⟩
  | completes hp _ _ hrep =>
      have hmem : Report.connectionFinalizationReceived ∈ c'.reports := by
        rw [hrep]
        exact List.mem_append_left _ (h.closing hp)
      exact ⟨fun _ ↦ hmem, fun _ ↦ hmem⟩
  | refuses _ hphase _ hrep =>
      exact h.of_reports hrep (by rcases hphase with hphase | hphase <;> rw [hphase] <;> simp)
  | fails _ _ _ hphase _ hrep => exact h.of_reports hrep (by rw [hphase]; simp)
  | transmits hp hphase _ _ hrep =>
      constructor
      · intro hp'
        rcases hphase with hphase | hphase | hphase <;> rw [hphase] at hp' <;> cases hp'
      · intro hr
        have hhalted := hlast (hrep.mp hr)
        rw [hp] at hhalted
        cases hhalted

theorem run_finalized (cfg : Config) (disk : Disk) (now : Time) (es : List Event) :
    Finalized (run cfg disk now es) := by
  induction es using List.reverseRecOn with
  | nil =>
      have hstarts := starts cfg disk now
      exact ⟨fun hp ↦ absurd hp hstarts.phase.1, fun hr ↦ absurd (hstarts.reports ▸ hr) List.not_mem_nil⟩
  | append_singleton es ev ih =>
      have hknows := run_knows cfg disk now es
      rw [run_append]
      exact ih.does (step_does hknows.fits ev) hknows.completed

end Server.ClientConnection

namespace Server.Accepter

/-- A connection of the pool reports its upload completed after the end of the file. -/
theorem finalized_of_completed (cfg : AccepterConfig) (disk : Disk) (es : List ServerEvent)
    {b : String × Connection} (hb : b ∈ (run cfg disk es).clients)
    (hr : Report.uploadCompleted ∈ b.2.thread.reports) :
    Report.connectionFinalizationReceived ∈ b.2.thread.reports := by
  obtain ⟨before, raw, B, now, bound, after, moment, -, -, -, -, -, -, heq⟩ :=
    (run_among cfg disk es b hb).alone.since
  rw [heq] at hr ⊢
  exact (ClientConnection.run_finalized ..).completed hr

end Server.Accepter

/-! ## A conversation -/

namespace Conversation

open Gbn Saw Server Session

variable {P : Parties} {file : File} {src name : String} {s₀ s : Conversation} {c : Connection}

/-- The server of a conversation goes through a run. -/
theorem Begins.server_run (h : Begins P file s₀) (hrun : (system P).Reaches s₀ s) :
    ∃ disk es, s.server = Accepter.run P.scfg disk es := by
  refine hrun.invariant (I := fun s ↦ ∃ disk es, s.server = Accepter.run P.scfg disk es) ?_ h.server
  rintro s t s' ⟨disk, es, hs⟩ - hstep
  cases hstep with
  | client => exact ⟨disk, es, hs⟩
  | @welcoming ev rest =>
      refine ⟨disk, es ++ [.welcoming ev P.bound], ?_⟩
      rw [Accepter.run_append, ← hs]
      rfl
  | @connection ev rest =>
      refine ⟨disk, es ++ [.connection P.bound.toCombined ev], ?_⟩
      rw [Accepter.run_append, ← hs]
      rfl
  | lose => exact ⟨disk, es, hs⟩

theorem mem_clients (hc : c ∈ connectionOf P s.server) : (P.bound.toCombined, c) ∈ s.server.clients := by
  obtain ⟨⟨key, c'⟩, hfind, rfl⟩ := Option.map_eq_some_iff.mp hc
  have hkey : key = P.bound.toCombined := by simpa using List.find?_some hfind
  exact hkey ▸ List.mem_of_find?_eq_some hfind

/-- What the connection of a completed upload has written is stored, whatever comes to the server. -/
theorem Begins.stored (h : Begins P file s₀) (hrun : (system P).Reaches s₀ s)
    (hc : c ∈ connectionOf P s.server) (hr : Report.uploadCompleted ∈ c.thread.reports) :
    Report.connectionFinalizationReceived ∈ c.thread.reports ∧
      ∃ f, c.thread.file = some f ∧ ∀ k ∈ f.node, ∀ es : List ServerEvent,
        (es.foldl (Accepter.step P.scfg) s.server).disk k = some f.written := by
  obtain ⟨disk, es, hs⟩ := h.server_run hrun
  have hmem := mem_clients hc
  rw [hs] at hmem
  obtain ⟨f, hfile, hsettled⟩ := (Accepter.run_stored P.scfg disk es).completed _ hmem hr
  refine ⟨Accepter.finalized_of_completed P.scfg disk es hmem hr, f, hfile,
    fun k hk es' ↦ ?_⟩
  rw [hs, ← Accepter.run_append_append]
  exact ((hsettled k hk).reaches (Accepter.run_custody P.scfg disk es es')).stored

/-- What a stop-and-wait upload has written, under the name that arrives. -/
theorem Begins.delivered (h : Begins P file s₀) (hrun : (system P).Reaches s₀ s)
    (hproto : P.ccfg.protocolVersion = .stopAndWait) (htask : P.ccfg.task = .upload src name)
    (hcontent : file.content ≠ []) (hc : c ∈ connectionOf P s.server) {stored : String}
    (hstored : ∀ n, decodeUtf8 ((encodeUtf8 name).take
      (fullBufferSize - sawProtocolHeaderSize)) = .ok n → n = stored) :
    Delivers file.content (c.thread.file.elim [] File.written) s.client.workingOn
        (Reported (s.link c)) ∧
      ∀ f ∈ c.thread.file, P.scfg.fileHandler.OpenAt (P.scfg.fileHandler.getFilepath stored false) f := by
  obtain ⟨w, hstarts, hlink⟩ := h.reaches hrun hc
  have hname : filename P.ccfg = name := by rw [filename, htask]
  have hfile : Transfers P file s₀.server.disk file.content := by rw [Transfers, htask]
  obtain ⟨packet, now, hcfg⟩ := hstarts.created
  have hhandler : c.cfg.fileHandler = P.scfg.fileHandler := by
    rw [hcfg]
    rfl
  obtain ⟨c₀, hstart, hsetting⟩ := hstarts.setting hproto hcontent h.pieces hfile (hname ▸ hstored)
  cases hsetting with
  | upload _ _ hsetting hsource =>
      obtain ⟨hdelivers, hgoes, -⟩ := Upload.safe_of_agrees hsetting
        ((hsetting.starts hsource hstart).agrees.run hlink)
      exact ⟨hdelivers, hhandler ▸ hgoes.1⟩
  | download _ hdownload =>
      rw [htask] at hdownload
      cases hdownload

/-- By the time of that report the connection has written the file of the client. -/
theorem Begins.written (h : Begins P file s₀) (hrun : (system P).Reaches s₀ s)
    (htask : P.ccfg.task = .upload src name) (hcontent : file.content ≠ [])
    (hfits : P.ccfg.protocolVersion = .goBackN → 3 + totalChunks file.content ≤ maxSequenceNumber)
    (hc : c ∈ connectionOf P s.server) (hr : Report.uploadCompleted ∈ c.thread.reports) :
    c.thread.file.elim [] File.written = file.content := by
  cases hproto : P.ccfg.protocolVersion with
  | stopAndWait =>
      obtain ⟨stored, hstored⟩ := exists_stored name
      obtain ⟨⟨k, -, hwritten, -, hall⟩, -⟩ := h.delivered hrun hproto htask hcontent hc hstored
      have hk : k = total file.content := hall (.inr (List.ne_nil_of_mem hr))
      exact hwritten.trans (flatten_take_chunks hk.ge)
  | goBackN =>
      obtain ⟨huploading, huploads⟩ := h.uploads hrun hproto htask hcontent (hfits hproto) hc
      obtain ⟨k, -, hwritten, hall⟩ := huploads.written
      have hk : k = totalChunks file.content := hall (h.stored hrun hc hr).1
      rw [hk, totalChunks, List.take_length, flatten_chunksOf] at hwritten
      exact hwritten

/-- What a stop-and-wait download has written, of what the server has under the name -/
theorem Begins.received {content : Bytes} {destination : String} (h : Begins P file s₀)
    (hrun : (system P).Reaches s₀ s) (hproto : P.ccfg.protocolVersion = .stopAndWait)
    (htask : P.ccfg.task = .download destination name) (hcontent : content ≠ [])
    (hfile : Transfers P file s₀.server.disk content) (hc : c ∈ connectionOf P s.server) :
    Delivers content s.client.file.written c.thread.workingOn (Reported (s.link c)) := by
  obtain ⟨w, hstarts, hlink⟩ := h.reaches hrun hc
  obtain ⟨stored, hstored⟩ := exists_stored (filename P.ccfg)
  obtain ⟨c₀, hstart, hsetting⟩ := hstarts.setting hproto hcontent h.pieces hfile hstored
  cases hsetting with
  | upload _ hupload =>
      rw [htask] at hupload
      cases hupload
  | download _ _ hsetting hpieces =>
      exact (Download.safe_of_agrees hsetting ((hsetting.starts hpieces hstart).agrees.run hlink)).1

namespace Local

open Session.Local

def bob : Address := ⟨"127.0.0.1", 5002⟩

def downloader : Client.Config :=
  ⟨.stopAndWait, welcomingAddress, bob, handler, .download "copy.txt" "notes.txt"⟩

theorem bobPort_ne_zero : bob.port ≠ 0 := by decide

theorem secondPort_ne_zero : (7002 : UInt16) ≠ 0 := by decide

def fetching : Parties :=
  ⟨downloader, accepter .stopAndWait, ⟨bob, bobPort_ne_zero⟩, ⟨⟨"127.0.0.1", 7002⟩, secondPort_ne_zero⟩⟩

def copy : File := .forWriting "copy.txt" (some "copy.txt")

/-- Bob's disk, with the file that his client has created -/
def copied : Disk := Function.update (fun _ ↦ none) "copy.txt" (some [])

/-- Bob's client has said SYN. -/
def asking (server : Accepter) : Conversation :=
  let client := Client.swallow do
    let c ← Client.requestConnection downloader (Client.init downloader copy copied 0)
    return c.block .handshake 0
  { client
    server
    toWelcoming := client.outbox.to welcomingAddress
    toConnection := []
    toClient := [] }

/-- What is left of Bob's download when the name is in flight -/
def answered : List Reader := [.connection, .client, .connection]

/-- Nothing at the server stands in Bob's way. -/
def Ready (server : Accepter) : Prop :=
  server.Running ∧ server.point = .acceptConnection ∧ server.clients.isClientConnected bob = false ∧
    server.clients.isClientConnected fetching.bound = false

instance (server : Accepter) : Decidable (Ready server) := inferInstanceAs (Decidable (_ ∧ _ ∧ _ ∧ _))

theorem openFile_copy : Client.openFile downloader (fun _ ↦ none) = .ok (copy, copied) := by
  have hpath : FileHandler.hasNull "copy.txt" = false := by decide +kernel
  simp [Client.openFile, downloader, FileHandler.openFileWriteMode, FileHandler.getFilepath,
    FileHandler.openFileWrite, FileHandler.lookup, hpath, handler, copy, copied, Disk.put]

theorem begins_asking {server : Accepter} (h : Ready server)
    (hserver : ∃ disk es, server = Accepter.run (accepter .stopAndWait) disk es) :
    Begins fetching copy (asking server) where
  matched := ⟨rfl, rfl, show welcomingAddress ≠ fetching.bound.toAddress by decide⟩
  client := by
    refine ⟨fun _ ↦ none, copied, 0, openFile_copy, ?_⟩
    show Client.start downloader (fun _ ↦ none) 0 = _
    simp only [Client.start, openFile_copy]
    rfl
  server := hserver
  running := h.1
  point := h.2.1
  stranger := h.2.2.1
  fresh := h.2.2.2
  toWelcoming := rfl
  toConnection := rfl
  toClient := rfl

/-- Alice's upload, and Bob's download after it -/
theorem exists_fetched : ∃ s, (system (parties .stopAndWait)).Reaches (opened .stopAndWait) s ∧
    (∃ c ∈ connectionOf (parties .stopAndWait) s.server, Report.uploadCompleted ∈ c.thread.reports ∧
      c.thread.file.bind File.node = some "storage/notes.txt") ∧
      Ready s.server ∧ ∃ s₂, (system fetching).Reaches (asking s.server) s₂ ∧
        Client.Report.downloadCompleted ∈ s₂.client.reports ∧
          ∃ c', c' ∈ connectionOf fetching s₂.server := by
  have hplayed : ((named ++ chunk .stopAndWait).foldlM (takes (parties .stopAndWait))
      (opened .stopAndWait)).any fun s ↦ ((connectionOf (parties .stopAndWait) s.server).any fun c ↦
        decide (Report.uploadCompleted ∈ c.thread.reports ∧
          c.thread.file.bind File.node = some "storage/notes.txt")) && decide (Ready s.server) &&
          ((named ++ answered).foldlM (takes fetching) (asking s.server)).any
            fun s₂ ↦ decide (Client.Report.downloadCompleted ∈ s₂.client.reports) &&
              (connectionOf fetching s₂.server).isSome := by
    decide +kernel
  obtain ⟨s, hs, hall⟩ := (Option.any_eq_true _ _).mp hplayed
  simp only [Bool.and_eq_true, decide_eq_true_eq] at hall
  obtain ⟨⟨hany, hready⟩, hfetched⟩ := hall
  obtain ⟨c, hc, hcompleted⟩ := (Option.any_eq_true _ _).mp hany
  obtain ⟨s₂, hs₂, hboth⟩ := (Option.any_eq_true _ _).mp hfetched
  simp only [Bool.and_eq_true, decide_eq_true_eq] at hboth
  obtain ⟨hreport, hsome⟩ := hboth
  exact ⟨s, (run_of_takes hs).reaches, ⟨c, hc, of_decide_eq_true hcompleted⟩, hready, s₂,
    (run_of_takes hs₂).reaches, hreport, Option.isSome_iff_exists.mp hsome⟩

end Local

/-- Under either protocol: when the connection of an upload has reported its completion, the file of the
client is in the storage, unless its name is that of a device, and stays there whatever comes to the
server then, and from whom. -/
theorem link_stored (P : Parties) (file : File) (src name : String) (s₀ s : Conversation)
    (htask : P.ccfg.task = .upload src name) (hcontent : file.content ≠ [])
    (hfits : P.ccfg.protocolVersion = .goBackN → 3 + totalChunks file.content ≤ maxSequenceNumber)
    (hbegins : Begins P file s₀) (hrun : (system P).Reaches s₀ s) :
    ∀ c ∈ connectionOf P s.server, Report.uploadCompleted ∈ c.thread.reports →
      ∃ f, c.thread.file = some f ∧ ∀ k ∈ f.node, ∀ es : List ServerEvent,
        (es.foldl (Accepter.step P.scfg) s.server).disk k = some file.content := by
  intro c hc hr
  obtain ⟨-, f, hfile, hstays⟩ := hbegins.stored hrun hc hr
  have hwritten := hbegins.written hrun htask hcontent hfits hc hr
  rw [hfile] at hwritten
  exact ⟨f, hfile, fun k hk es ↦ (hstays k hk es).trans (congrArg some hwritten)⟩

theorem link_stored_seven : ∃ s : Conversation, ∃ c ∈ connectionOf (Local.parties .stopAndWait) s.server,
    ∃ f, c.thread.file = some f ∧ ∀ es : List ServerEvent, (es.foldl (Accepter.step
      (Local.parties .stopAndWait).scfg) s.server).disk "storage/notes.txt" = some [7] := by
  obtain ⟨s, hrun, ⟨c, hc, hr, hnode⟩, -⟩ := Local.exists_fetched
  obtain ⟨f, hfile, hstays⟩ := link_stored (Local.parties .stopAndWait) (Local.notes [7]) "notes.txt"
    "notes.txt" (Local.opened .stopAndWait) s rfl (by decide) (fun h ↦ (by cases h))
    (Local.begins_opened .stopAndWait) hrun c hc hr
  rw [hfile] at hnode
  exact ⟨s, c, hc, f, hfile, hstays "storage/notes.txt" hnode⟩

/-- A file that has been uploaded under the name of a regular file is what a download of that name
receives later, whatever comes to the server in between. -/
theorem download_uploaded (P P' : Parties) (file file' : File) (src destination name : String)
    (es : List ServerEvent) (s₀ s s₁ s₂ : Conversation)
    (hproto : P.scfg.protocolVersion = .stopAndWait) (hserver : P'.scfg = P.scfg)
    (htask : P.ccfg.task = .upload src name) (htask' : P'.ccfg.task = .download destination name)
    (hcontent : file.content ≠ []) (hbegins : Begins P file s₀) (hrun : (system P).Reaches s₀ s)
    (hbetween : s₁.server = es.foldl (Accepter.step P.scfg) s.server) (hbegins' : Begins P' file' s₁)
    (hrun' : (system P').Reaches s₁ s₂) :
    ∀ c ∈ connectionOf P s.server, Report.uploadCompleted ∈ c.thread.reports →
      c.thread.file.bind File.node ≠ none → ∀ c' ∈ connectionOf P' s₂.server,
        Delivers file.content s₂.client.file.written c'.thread.workingOn (Reported (s₂.link c')) := by
  intro c hc hr hregular c' hc'
  have hupload : P.ccfg.protocolVersion = .stopAndWait := hbegins.matched.protocol.trans hproto
  have hdownload : P'.ccfg.protocolVersion = .stopAndWait := by
    rw [hbegins'.matched.protocol, hserver, hproto]
  obtain ⟨stored, hstored⟩ := exists_stored name
  obtain ⟨-, hopened⟩ := hbegins.delivered hrun hupload htask hcontent hc hstored
  obtain ⟨-, f, hfile, hstays⟩ := hbegins.stored hrun hc hr
  have hwritten := hbegins.written hrun htask hcontent (fun h ↦ (by cases hupload.symm.trans h)) hc hr
  rw [hfile] at hwritten hregular
  obtain ⟨k, hk⟩ := Option.ne_none_iff_exists'.mp hregular
  refine hbegins'.received hrun' hdownload htask' hcontent ?_ hc'
  rw [Transfers, htask']
  intro n f' hn hopen
  obtain rfl := hstored n hn
  have hread := (FileHandler.openFileReadMode_eq_ok hopen).2
  rw [hserver, FileHandler.lookup_eq ((hopened f hfile).2.symm.trans hk), hbetween, hstays k hk es] at hread
  exact (Option.some.inj hread).symm.trans hwritten

/-- The download is complete. -/
theorem download_uploaded_seven : ∃ s₂ : Conversation, s₂.client.reports ≠ [] ∧
    ∃ c' ∈ connectionOf Local.fetching s₂.server,
      Delivers [7] s₂.client.file.written c'.thread.workingOn (Reported (s₂.link c')) := by
  obtain ⟨s, hrun, ⟨c, hc, hr, hnode⟩, hready, s₂, hrun', hreport, c', hc'⟩ := Local.exists_fetched
  have hserver := (Local.begins_opened .stopAndWait).server_run hrun
  refine ⟨s₂, List.ne_nil_of_mem hreport, c', hc', ?_⟩
  exact download_uploaded (Local.parties .stopAndWait) Local.fetching (Session.Local.notes [7]) Local.copy
    "notes.txt" "copy.txt" "notes.txt" [] (Local.opened .stopAndWait) s (Local.asking s.server) s₂ rfl rfl
    rfl rfl (by decide) (Local.begins_opened .stopAndWait) hrun rfl (Local.begins_asking hready hserver)
    hrun' c hc hr (by rw [hnode]; exact Option.some_ne_none _) c' hc'

end Conversation

end Rdt
