import ThreatDesk.Proofs.Host.Alike
import ThreatDesk.Proofs.Shell.Saving

/-!
# Sessions that differ in how the working directory is written

Desks that are the same but for the spelling of the working directory, for the lines that have shown it,
and for the snapshots that hold such lines. A verb does the same on both, whatever it does.
-/

namespace ThreatDesk

/-- Sessions that are the same but for what they draw, and for how the working directory is written and
where it is shown. -/
structure Session.Alike (s t : Session) : Prop where
  tree : s.tree = t.tree
  lines : Line.AllAlike s.lines t.lines
  cwd : Path.Respells s.cwd t.cwd
  version : s.version = t.version
  state : s.state = t.state
  lastOutcome : s.lastOutcome = t.lastOutcome
  loadedName : s.loadedName = t.loadedName
  activeFile : s.activeFile = t.activeFile
  told : Line.AllAlike s.told t.told

structure Desk.Alike (d e : Desk) : Prop where
  site : d.site = e.site
  session : d.session.Alike e.session
  dialogue : d.dialogue = e.dialogue
  host : d.host.Alike e.host

namespace Answer

structure Alike (a b : Answer) : Prop where
  desk : a.desk.Alike b.desk
  now : a.now = b.now
  said : Line.AllAlike a.said b.said

def LeftAlike {α : Type} (r s : Answer × α) : Prop := r.1.Alike s.1 ∧ r.2 = s.2

namespace Alike

variable {a b : Answer}

/-! ## Saying and changing -/

theorem say_of (h : a.Alike b) {kind : LineKind} {t u : Text} (ht : kind.TextsAlike t u) :
    (a.say kind t).Alike (b.say kind u) := by
  have hline : Line.Alike (a.desk.session.nextLine a.now kind t) (b.desk.session.nextLine b.now kind u) := by
    exact ⟨⟨rfl, ht, congrArg Number.integer h.now⟩, .drawn _ _⟩
  have hadd {ls ms : List Line} (hs : Line.AllAlike ls ms) :
      Line.AllAlike (ls ++ [a.desk.session.nextLine a.now kind t])
        (ms ++ [b.desk.session.nextLine b.now kind u]) :=
    List.rel_append hs (.cons hline .nil)
  have hs := h.desk.session
  exact {
    desk := { h.desk with session := { hs with
      lines := hadd hs.lines
      told := hadd hs.told } }
    now := h.now
    said := hadd h.said }

theorem say (h : a.Alike b) (kind : LineKind) (t : Text) : (a.say kind t).Alike (b.say kind t) :=
  h.say_of (.same kind t)

theorem sayAll (h : a.Alike b) (kind : LineKind) (texts : List Text) :
    (a.sayAll kind texts).Alike (b.sayAll kind texts) := by
  rw [Answer.sayAll, Answer.sayAll]
  induction texts generalizing a b with
  | nil => exact h
  | cons t texts ih => exact ih (h.say kind t)

theorem withSession (h : a.Alike b) {f g : Session → Session}
    (hf : (f a.session).Alike (g b.session)) : (a.withSession f).Alike (b.withSession g) :=
  { h with desk := { h.desk with session := hf } }

theorem withTree (h : a.Alike b) (tree : Tree) : (a.withTree tree).Alike (b.withTree tree) :=
  h.withSession { h.desk.session with tree := rfl }

theorem withHost (h : a.Alike b) {host host' : Host} (hh : host.Alike host') :
    (a.withHost host).Alike (b.withHost host') :=
  { h with desk := { h.desk with host := hh } }

theorem inState (h : a.Alike b) (state : ShellState) :
    (Shell.inState a state).Alike (Shell.inState b state) :=
  h.withSession { h.desk.session with state := rfl }

theorem fail (h : a.Alike b) {f g : Fault} (hf : f.Alike g) : (a.fail f).Alike (b.fail g) := by
  cases hf with
  | same => exact h.say .error _
  | unencodable hf => exact h.say_of (.unencodable hf)

/-! ## What is seen -/

theorem tree (h : a.Alike b) : a.session.tree = b.session.tree := h.desk.session.tree

theorem version (h : a.Alike b) : a.session.version = b.session.version := h.desk.session.version

theorem loadedName (h : a.Alike b) : a.session.loadedName = b.session.loadedName :=
  h.desk.session.loadedName

theorem activeFile (h : a.Alike b) : a.session.activeFile = b.session.activeFile :=
  h.desk.session.activeFile

theorem isBusy (h : a.Alike b) : a.session.isBusy = b.session.isBusy :=
  congrArg ShellState.isBusy h.desk.session.state

theorem cwd (h : a.Alike b) : Path.Respells a.session.cwd b.session.cwd := h.desk.session.cwd

theorem directory? (h : a.Alike b) :
    a.session.tree.directory? a.session.cwd = b.session.tree.directory? b.session.cwd := by
  rw [h.tree, Tree.directory?_respelt _ h.cwd]

theorem resolved (h : a.Alike b) {word : Text} (hw : word ≠ []) :
    Shell.resolved a word = Shell.resolved b word :=
  h.cwd.resolve_eq hw

end Alike

end Answer

namespace Shell

open Answer (LeftAlike)
open Engine (Failure)

variable {a b : Answer}

/-! ## Verbs that are done at once -/

theorem report_alike (h : a.Alike b) (label : Text) {f g : Fault} (hf : f.Alike g) :
    (report a label f).Alike (report b label g) := by
  cases hf with
  | same f =>
    rw [report, report]
    split
    · exact h.say .error _
    · exact h.fail (.same f)
  | unencodable hf => exact h.fail (.unencodable hf)

theorem version_alike (h : a.Alike b) : (version a).Alike (version b) := by
  have hsaid : (a.system ("CURRENT VERSION: " ++ a.session.version)).Alike
      (b.system ("CURRENT VERSION: " ++ b.session.version)) := by
    rw [h.version]
    exact h.say .system _
  unfold version
  dsimp only
  generalize a.system _ = x at hsaid ⊢
  generalize b.system _ = y at hsaid ⊢
  rw [hsaid.loadedName]
  split
  · exact hsaid
  · exact hsaid.say .system _

theorem clear_alike (h : a.Alike b) : (clear a).Alike (clear b) :=
  h.withSession { h.desk.session with lines := .nil }

theorem stateText_eq {s t : Session} (h : s.Alike t) : stateText s = stateText t := by
  rw [stateText, stateText, h.lastOutcome, h.state, Session.isBusy, Session.isBusy, h.state]

theorem status_alike (h : a.Alike b) : (status a).Alike (status b) := by
  -- The one line that shows the working directory where it is there.
  have hshown : (a.sayAll .output
      ["STATE: " ++ stateText a.session, "VER: " ++ a.session.version, "CWD: " ++ a.session.cwd]).Alike
      (b.sayAll .output
      ["STATE: " ++ stateText b.session, "VER: " ++ b.session.version, "CWD: " ++ b.session.cwd]) := by
    have hstate : stateText a.session = stateText b.session := stateText_eq h.desk.session
    rw [hstate, h.version]
    exact ((h.say .output _).say .output _).say_of (.directory h.cwd)
  unfold status
  dsimp only
  generalize a.sayAll .output _ = x at hshown ⊢
  generalize b.sayAll .output _ = y at hshown ⊢
  rw [hshown.desk.site, KeyStore.source_eq _ hshown.desk.host, h.tree, h.activeFile]
  split
  · exact hshown.fail (.same _)
  · next source _ =>
    have hcounted := (hshown.say .output ("KEY: " ++ source.toText)).say .output
      ("FILES: " ++ Text.ofNat (Node.allFiles b.session.tree.children).length)
    split
    · exact hcounted.say .output _
    · exact hcounted

theorem setKey_alike (h : a.Alike b) (args : List Text) : (setKey a args).Alike (setKey b args) := by
  cases args with
  | nil => exact h.say .error _
  | cons key args =>
    obtain ⟨hhost, hfault⟩ := KeyStore.set_alike b.desk.site.keys h.desk.host key
    rw [setKey, setKey, h.desk.site]
    generalize b.desk.site.keys.set a.desk.host key = r at hhost hfault ⊢
    generalize b.desk.site.keys.set b.desk.host key = s at hhost hfault ⊢
    obtain ⟨host, f⟩ := r
    obtain ⟨host', g⟩ := s
    obtain rfl : f = g := hfault
    have hset := h.withHost hhost
    cases f with
    | none => exact hset.say .success _
    | some fault =>
      dsimp only
      split
      · exact hset.say .error _
      · exact hset.fail (.same _)

/-! ## Verbs on the tree -/

theorem list_alike (h : a.Alike b) {args : List Text} (hargs : ∀ word ∈ args, word ≠ []) :
    (list a args).Alike (list b args) := by
  cases args with
  | nil =>
    rw [list, list, h.directory?]
    split
    · exact h.say .error _
    · exact h.sayAll .output _
  | cons word args =>
    rw [list, list, h.resolved (hargs word List.mem_cons_self), h.tree]
    split
    · exact h.say .error _
    · exact h.sayAll .output _

theorem changeDirectory_alike (h : a.Alike b) {args : List Text} (hargs : ∀ word ∈ args, word ≠ []) :
    (changeDirectory a args).Alike (changeDirectory b args) := by
  cases args with
  | nil =>
    rw [changeDirectory, changeDirectory]
    exact h.withSession { h.desk.session with cwd := .refl rfl }
  | cons word args =>
    have hword := hargs word List.mem_cons_self
    have habsolute : (resolved b word).head? = some Path.separator :=
      Path.absolute_resolve h.cwd.right word
    rw [changeDirectory, changeDirectory, h.resolved hword, h.tree]
    split
    · exact h.say .error _
    · exact h.withSession { h.desk.session with cwd := .refl habsolute }

theorem makeDirectory_alike (h : a.Alike b) (args : List Text) :
    (makeDirectory a args).Alike (makeDirectory b args) := by
  cases args with
  | nil => exact h.say .error _
  | cons name args =>
    rw [makeDirectory, makeDirectory, h.directory?]
    split
    · exact h.say .error _
    · split
      · exact h.say_of (.lost h.cwd)
      · split
        · exact h.say .error _
        · rw [h.tree, Tree.makeDirectory_respelt _ h.cwd]
          exact (h.withTree _).say .success _

theorem read_alike (h : a.Alike b) {args : List Text} (hargs : ∀ word ∈ args, word ≠ []) :
    (read a args).Alike (read b args) := by
  cases args with
  | nil => exact h.say .error _
  | cons word args =>
    rw [read, read, h.resolved (hargs word List.mem_cons_self), h.tree]
    split
    · exact h.say .error _
    · next f _ =>
      have hopened : (a.withSession fun s => { s with activeFile := some f }).Alike
          (b.withSession fun s => { s with activeFile := some f }) :=
        h.withSession { h.desk.session with activeFile := rfl }
      exact (hopened.say .success _).say .output _

theorem write_alike (h : a.Alike b) (raw : Text) {args : List Text} (hargs : ∀ word ∈ args, word ≠ []) :
    (write a raw args).Alike (write b raw args) := by
  cases args with
  | nil => exact h.say .error _
  | cons word args =>
    rw [write, write, h.resolved (hargs word List.mem_cons_self), h.tree]
    split
    · exact (h.withTree _).say .success _
    · exact h.say .error _
    · exact h.say .error _
    · exact h

theorem find_alike (h : a.Alike b) (args : List Text) : (find a args).Alike (find b args) := by
  cases args with
  | nil => exact h.say .error _
  | cons needle args =>
    rw [find, find, h.tree]
    split
    · exact h.say .system _
    · exact h.sayAll .output _

theorem run_alike (h : a.Alike b) {args : List Text} (hargs : ∀ word ∈ args, word ≠ []) :
    (run a args).Alike (run b args) := by
  cases args with
  | nil => exact h.say .error _
  | cons word args =>
    rw [run, run, h.resolved (hargs word List.mem_cons_self), h.tree]
    split
    · exact h.say .error _
    · split
      · exact (h.sayAll .system _).say .success _
      · exact h.say .error _

/-! ## Export -/

structure Export.Alike (e f : Export) : Prop where
  version : e.version = f.version
  filename : e.filename = f.filename
  bytes : Snapshot.BytesAlike e.bytes f.bytes

theorem ofSession_alike {s t : Session} (h : s.Alike t) (version : Text) (now : Int) :
    (Snapshot.ofSession s version now).Alike (Snapshot.ofSession t version now) where
  version := by rw [Snapshot.ofSession, Snapshot.ofSession, h.version]
  timestamp := rfl
  tree := h.tree
  lines := h.lines

theorem export_alike {d e : Desk} (h : d.Alike e) (hd : d.Timed) (now : Int) :
    Agree Fault.Alike Export.Alike (Export.ofDesk d now) (Export.ofDesk e now) := by
  rw [Export.ofDesk, Export.ofDesk, h.session.version]
  refine (Agree.refl .same (fun _ => rfl) _).bind ?_
  rintro version _ rfl
  refine (Agree.refl .same (fun _ => rfl) _).bind ?_
  rintro filename _ rfl
  have htimes : ∀ n ∈ (Snapshot.ofSession d.session version now).times, n.IsCanonical :=
    List.forall_mem_cons.2 ⟨trivial, List.forall_mem_map.2 hd⟩
  refine ((ofSession_alike h.session version now).toBytes htimes).bind ?_
  intro b c hbytes
  exact .ok ⟨rfl, rfl, hbytes⟩

theorem exportSession_alike (h : a.Alike b) (ha : a.desk.Timed) :
    (exportSession a).Alike (exportSession b) := by
  have hexport := export_alike h.desk ha a.now
  rw [exportSession, exportSession, ← h.now, h.desk.site]
  generalize he : Export.ofDesk a.desk a.now = x at hexport ⊢
  generalize Export.ofDesk b.desk a.now = y at hexport ⊢
  cases hexport with
  | error hf => exact report_alike h exportLabel hf
  | @ok e f hef =>
    obtain ⟨-, hname, -⟩ := Export.ofDesk_eq_ok he
    obtain ⟨hhost, hpath⟩ := b.desk.site.archive.write_alike h.desk.host hef.bytes
      (Archive.isFileName_snapshotName hname)
    dsimp only
    rw [← hef.filename, ← hef.version]
    generalize b.desk.site.archive.write a.desk.host e.bytes e.filename = r at hhost hpath ⊢
    generalize b.desk.site.archive.write b.desk.host f.bytes e.filename = s at hhost hpath ⊢
    obtain ⟨host, path⟩ := r
    obtain ⟨host', path'⟩ := s
    obtain rfl : path = path' := hpath
    have hwritten := h.withHost hhost
    cases path with
    | error fault => exact report_alike hwritten exportLabel (.same _)
    | ok path =>
      have hversioned : ((a.withHost host).withSession fun s => { s with version := e.version }).Alike
          ((b.withHost host').withSession fun s => { s with version := e.version }) :=
        hwritten.withSession { hwritten.desk.session with version := rfl }
      exact hversioned.say .success _

/-! ## Load -/

theorem loadName_eq {d e : Desk} (h : d.Alike e) (args : List Text) : loadName d args = loadName e args := by
  cases args with
  | nil => rw [loadName, loadName, h.site, Archive.latest_eq _ h.host]
  | cons name args => rfl

theorem readSnapshot_alike {d e : Desk} (h : d.Alike e) (name : Text) :
    Agree Fault.Alike Snapshot.Alike (readSnapshot d name) (readSnapshot e name) := by
  have hread := e.site.archive.read_alike h.host name
  rw [readSnapshot, readSnapshot, h.site]
  generalize e.site.archive.read d.host name = x at hread ⊢
  generalize e.site.archive.read e.host name = y at hread ⊢
  cases hread with
  | @error fault _ he =>
    subst he
    exact .error (.same _)
  | ok hb => exact hb.ofBytes.mapError fun _ _ he => he ▸ .same _

theorem restoreSession_alike {s t : Session} (h : s.Alike t) {x y : Snapshot} (hxy : x.Alike y)
    {ε : Type} (modules : Except ε (List Baseline.Module)) :
    Agree Eq (fun r q => r.1.Alike q.1 ∧ r.2 = q.2) (Snapshot.restore s x modules)
      (Snapshot.restore t y modules) := by
  rw [Snapshot.restore, Snapshot.restore, hxy.tree]
  refine (Agree.refl (fun _ => rfl) (fun _ => rfl) (Baseline.reconcile y.tree modules)).map ?_
  rintro ⟨tree, added⟩ _ rfl
  exact ⟨{ h with
    tree := rfl
    lines := hxy.lines
    version := hxy.version
    cwd := .refl rfl
    state := rfl
    activeFile := rfl }, rfl⟩

theorem restore_alike {d e : Desk} (h : d.Alike e) (name : Text) {s t : Snapshot} (hs : s.Alike t) :
    Agree Eq (fun r q => r.1.Alike q.1 ∧ r.2 = q.2) (restore d name s) (restore e name t) := by
  have hmodules : d.modules = e.modules := by
    rw [Desk.modules, Desk.modules, h.site, Baseline.read_eq h.host]
  rw [restore, restore, hmodules]
  refine (restoreSession_alike h.session hs e.modules).map ?_
  rintro ⟨s', added⟩ ⟨t', added'⟩ ⟨hsession, hadded⟩
  obtain rfl : added = added' := hadded
  refine ⟨{ h with
    session := { hsession with loadedName := rfl }
    dialogue := rfl }, ?_⟩
  show loadReport _ s.version added = loadReport _ t.version added
  rw [hs.version]

theorem load_alike (h : a.Alike b) (args : List Text) : (load a args).Alike (load b args) := by
  rw [load, load, h.isBusy, loadName_eq h.desk]
  split
  · exact h.say .error _
  · split
    · exact h.fail (.same _)
    · exact h.say .error _
    · next name _ =>
      have hread := readSnapshot_alike h.desk name
      rw [loadNamed, loadNamed]
      generalize readSnapshot a.desk name = x at hread ⊢
      generalize readSnapshot b.desk name = y at hread ⊢
      cases hread with
      | error hf => exact report_alike h loadLabel hf
      | @ok s t hs =>
        have hrestored := restore_alike h.desk name hs
        dsimp only
        generalize restore a.desk name s = x at hrestored ⊢
        generalize restore b.desk name t = y at hrestored ⊢
        cases hrestored with
        | @error fault _ he =>
          subst he
          exact h.fail (.same _)
        | @ok r q hrq =>
          obtain ⟨d, report⟩ := r
          obtain ⟨e, report'⟩ := q
          obtain ⟨hdesk, rfl⟩ := hrq
          have hloaded : Answer.Alike { a with desk := d } { b with desk := e } :=
            { h with desk := hdesk }
          exact hloaded.sayAll .system _

/-! ## Operations -/

theorem ite_alike {c : Prop} [Decidable c] {x y : Answer} (h : a.Alike b) (k : x.Alike y) :
    (if c then a else x).Alike (if c then b else y) := by
  split
  · exact h
  · exact k

theorem startAnalysis_alike (h : a.Alike b) : LeftAlike (startAnalysis a) (startAnalysis b) := by
  have hsaid : (a.system "INITIATING HEURISTIC ANALYSIS ENGINE...").Alike
      (b.system "INITIATING HEURISTIC ANALYSIS ENGINE...") := h.say .system _
  unfold startAnalysis
  dsimp only
  generalize a.system _ = x at hsaid ⊢
  generalize b.system _ = y at hsaid ⊢
  rw [hsaid.tree]
  have hcontext := ite_alike (c := (y.session.tree.gather Place.pages).isEmpty) hsaid
    (hsaid.say .system "LOADING BROWSING CONTEXT FOR ANALYSIS...")
  have hdocument := ite_alike (c := (y.session.tree.textAt Place.analysis).isEmpty) hcontext
    (hcontext.say .system "DETECTED EXISTING ANALYSIS DATA. RUNNING INCREMENTAL UPDATE...")
  exact ⟨(hdocument.inState .generatingDocs).say .system _, rfl⟩

theorem startResearch_alike (h : a.Alike b) : LeftAlike (startResearch a) (startResearch b) := by
  unfold startResearch
  dsimp only
  rw [h.tree]
  exact ⟨ite_alike h (h.say .system _), rfl⟩

theorem start_alike (h : a.Alike b) (op : Operation) : LeftAlike (start a op) (start b op) := by
  have hstate := h.inState op.state
  cases op with
  | analyze => exact startAnalysis_alike hstate
  | research => exact startResearch_alike hstate
  | scan => exact ⟨hstate, congrArg (fun t => Stage.scan (definitions t)) hstate.tree⟩
  | browse url => exact ⟨hstate, rfl⟩
  | ask message =>
    refine ⟨hstate, ?_⟩
    show Stage.chat _ = Stage.chat _
    rw [hstate.desk.dialogue, hstate.desk.site, hstate.tree]

theorem finish_alike (h : a.Alike b) (outcome : ShellState) :
    (finish a outcome).Alike (finish b outcome) :=
  h.withSession { h.desk.session with lastOutcome := rfl, state := rfl }

theorem abort_alike (h : a.Alike b) (label : Text) (failure : Failure) :
    (abort a label failure).Alike (abort b label failure) := by
  cases failure with
  | missingCredential | collaborator | malformed | unusable => exact finish_alike (h.say .error _) .error
  | fault fault => exact (finish_alike h .error).fail (.same fault)

theorem storing_alike (h : a.Alike b) (label : Text) (entries : List (Text × Text))
    {next : Answer → Answer} (hnext : ∀ x y : Answer, x.Alike y → (next x).Alike (next y)) :
    (storing a label entries next).Alike (storing b label entries next) := by
  rw [storing, storing, h.tree]
  split
  · exact abort_alike h label _
  · next tree _ => exact finish_alike (hnext _ _ (h.withTree tree)) .complete

theorem finishAnalysis_alike (h : a.Alike b) (g : Groundwork) (document architecture code : Text) :
    (finishAnalysis a g document architecture code).Alike
      (finishAnalysis b g document architecture code) := by
  rw [finishAnalysis, finishAnalysis]
  refine storing_alike h _ _ fun x y hxy => ?_
  exact ite_alike ((hxy.say .success _).say .system _) (hxy.say .success _)

theorem artifactFiles_alike (h : a.Alike b) (artifacts : List Artifact) :
    LeftAlike (artifactFiles a artifacts) (artifactFiles b artifacts) := by
  induction artifacts generalizing a b with
  | nil => exact ⟨h, rfl⟩
  | cons artifact artifacts ih =>
    rw [artifactFiles, artifactFiles]
    split
    · obtain ⟨hrest, hfiles⟩ := ih h
      exact ⟨hrest, congrArg (_ :: ·) hfiles⟩
    · exact ih (h.say .system _)

theorem finishResearch_alike (h : a.Alike b) (report : ResearchReport) :
    (finishResearch a report).Alike (finishResearch b report) := by
  obtain ⟨hsaid, hfiles⟩ := artifactFiles_alike h report.artifacts
  unfold finishResearch
  generalize artifactFiles a report.artifacts = r at hsaid hfiles ⊢
  generalize artifactFiles b report.artifacts = s at hsaid hfiles ⊢
  obtain ⟨x, files⟩ := r
  obtain ⟨y, files'⟩ := s
  obtain rfl : files = files' := hfiles
  exact storing_alike hsaid _ _ fun x y hxy => (hxy.sayAll .system _).say .success _

theorem finishScan_alike (h : a.Alike b) (report : Text) :
    (finishScan a report).Alike (finishScan b report) :=
  finish_alike ((h.say .output _).say _ _) .complete

theorem finishBrowse_alike (h : a.Alike b) (url : Text) (page : VisitedPage) :
    (finishBrowse a url page).Alike (finishBrowse b url page) := by
  have hshown : ((a.success ("LOADED: " ++ url)).output page.content).Alike
      ((b.success ("LOADED: " ++ url)).output page.content) :=
    (h.say .success _).say .output _
  unfold finishBrowse
  dsimp only
  generalize (a.success _).output page.content = x at hshown ⊢
  generalize (b.success _).output page.content = y at hshown ⊢
  rw [hshown.desk.host.clock]
  split
  · exact abort_alike hshown _ _
  · exact storing_alike hshown _ _ fun x y hxy => hxy.say .system _

theorem exchanged_alike (h : a.Alike b) (e : Exchange) (reply : ChatReply) :
    (exchanged a e reply).Alike (exchanged b e reply) := by
  have hworked := h.withTree (Exchange.runCalls b.session.tree reply.toolCalls).1
  rw [exchanged, exchanged, h.tree]
  exact { hworked with desk := { hworked.desk with
    dialogue := congrArg (· ++ e.turns reply) hworked.desk.dialogue } }

theorem continueChat_alike (h : a.Alike b) (e : Exchange) (reply : ChatReply) :
    LeftAlike (continueChat a e reply) (continueChat b e reply) := by
  have hexchanged := exchanged_alike h e reply
  rw [continueChat_eq, continueChat_eq, h.tree]
  split
  · next fault _ => exact ⟨abort_alike hexchanged (Stage.chat e).label (.fault fault), rfl⟩
  · split
    · exact ⟨hexchanged, rfl⟩
    · exact ⟨finish_alike (hexchanged.say .output _) .complete, rfl⟩

/-- An operation goes on alike with whatever comes back. -/
theorem resume_alike (h : a.Alike b) (s : Stage) (reply : Except Failure s.request.Answer) :
    LeftAlike (resume a s reply) (resume b s reply) := by
  cases reply with
  | error failure => exact ⟨abort_alike h _ _, rfl⟩
  | ok answer =>
    cases s with
    | document g => exact ⟨(h.inState .generatingSpecs).say .system _, rfl⟩
    | architecture g document => exact ⟨h.say .system _, rfl⟩
    | countermeasure g document architecture => exact ⟨finishAnalysis_alike h g _ _ _, rfl⟩
    | research existing context => exact ⟨finishResearch_alike h answer, rfl⟩
    | scan definitions => exact ⟨finishScan_alike h answer, rfl⟩
    | browse url => exact ⟨finishBrowse_alike h url answer, rfl⟩
    | chat e => exact continueChat_alike h e answer

theorem continued_alike (h : a.Alike b) (s : Stage) (signal : Signal s) :
    LeftAlike (continued a s signal) (continued b s signal) := by
  cases signal with
  | replied reply => exact resume_alike h s reply
  | cancelled => exact ⟨finish_alike h .error, rfl⟩

/-! ## Lines -/

theorem startUnlessBusy_alike (h : a.Alike b) (op : Operation) :
    LeftAlike (startUnlessBusy a op) (startUnlessBusy b op) := by
  rw [startUnlessBusy, startUnlessBusy, h.isBusy]
  split
  · exact ⟨h.say .error _, rfl⟩
  · obtain ⟨hstarted, hstage⟩ := start_alike h op
    exact ⟨hstarted, congrArg some hstage⟩

theorem perform_alike (h : a.Alike b) (ha : a.desk.Timed) (verb : Verb) {args : List Text}
    (hargs : ∀ word ∈ args, word ≠ []) (raw : Text) :
    LeftAlike (perform a verb args raw) (perform b verb args raw) := by
  cases verb with
  | help => exact ⟨h.say .output _, rfl⟩
  | about => exact ⟨h.say .system _, rfl⟩
  | version => exact ⟨version_alike h, rfl⟩
  | clear => exact ⟨clear_alike h, rfl⟩
  | ls => exact ⟨list_alike h hargs, rfl⟩
  | cd => exact ⟨changeDirectory_alike h hargs, rfl⟩
  | mkdir => exact ⟨makeDirectory_alike h args, rfl⟩
  | cat => exact ⟨read_alike h hargs, rfl⟩
  | write => exact ⟨write_alike h raw hargs, rfl⟩
  | find => exact ⟨find_alike h args, rfl⟩
  | status => exact ⟨status_alike h, rfl⟩
  | setkey => exact ⟨setKey_alike h args, rfl⟩
  | run => exact ⟨run_alike h hargs, rfl⟩
  | analyze => exact startUnlessBusy_alike h .analyze
  | research => exact startUnlessBusy_alike h .research
  | scan => exact startUnlessBusy_alike h .scan
  | browse =>
    cases args with
    | nil => exact ⟨h.say .error _, rfl⟩
    | cons url args => exact startUnlessBusy_alike h (.browse url)
  | ask =>
    cases args with
    | nil => exact ⟨h.say .error _, rfl⟩
    | cons word args => exact startUnlessBusy_alike h (.ask (raw.argument 1))
  | exportSession => exact ⟨exportSession_alike h ha, rfl⟩
  | load => exact ⟨load_alike h args, rfl⟩

theorem begin_alike {d e : Desk} (h : d.Alike e) (hd : d.Timed) (now : Int) (raw : Text) :
    LeftAlike (begin d now raw) (begin e now raw) := by
  have hecho : (echo d now raw).Alike (echo e now raw) :=
    Answer.Alike.say (a := d.silent now) (b := e.silent now) ⟨h, rfl, .nil⟩ .input raw
  have htimed : (echo d now raw).desk.Timed :=
    timed_of_saying (Answer.Says.say (d.silent now) .input raw) hd
  cases hraw : raw.words with
  | nil =>
    rw [begin, begin, hraw]
    exact ⟨hecho, rfl⟩
  | cons word args =>
    have hwords : ∀ w ∈ word :: args, Text.IsWord w := hraw ▸ Text.forall_mem_words raw
    rw [begin_of_words hraw, begin_of_words hraw]
    split
    · exact ⟨hecho.say .error _, rfl⟩
    · next verb _ =>
      exact perform_alike hecho htimed verb
        (fun w hw => (hwords w (List.mem_cons_of_mem word hw)).1) raw

end Shell

end ThreatDesk
