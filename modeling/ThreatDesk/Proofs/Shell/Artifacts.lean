import ThreatDesk.Proofs.Engine.Researching
import ThreatDesk.Proofs.Shell.AllOrNothing
import ThreatDesk.Proofs.Shell.Loading
import ThreatDesk.Proofs.Tree.Elsewhere

/-!
# Where artifacts go

Of the items that research is answered with, those that are artifacts and whose names are names become
files of one directory, the last one of each name; for every other artifact there is a warning, and every
other item is passed over. Nothing else in the tree changes, but for the report and directories that are
missing (`Lodged`). This holds whatever lines are entered while the engine works. Main statement:
`artifacts_lodged`.
-/

namespace ThreatDesk

/-! ## While an engine works -/

def Interlude.told? : Interlude → Option Text
  | .progress text => some text
  | .line _ => none

/-- The engine does what the other one does, while any lines are entered. -/
structure Engine.Amid {σ : Type} (engine other : Engine σ) : Prop where
  state : ∀ state host q, (engine.attend state host q).state = (other.attend state host q).state
  told : ∀ state host q, (engine.attend state host q).interludes.filterMap Interlude.told? =
    (other.attend state host q).interludes.filterMap Interlude.told?
  reply : ∀ state host q, (engine.attend state host q).reply = (other.attend state host q).reply

namespace Shell

open Engine (Failure Online ServiceConfig ServiceState online)
open Engine.Service

theorem shown_meanwhile (a : Answer) (asides : List Answer) (interludes : List Interlude) :
    (meanwhile a asides interludes).1.said.map shown =
      a.said.map shown ++ (interludes.filterMap Interlude.told?).map (.system, ·) := by
  induction interludes generalizing a asides with
  | nil => exact (List.append_nil _).symm
  | cons i rest ih =>
    cases i with
    | progress text =>
      rw [meanwhile, ih, Answer.system, Answer.say, List.map_append, List.append_assoc]
      rfl
    | line raw => exact ih ..

variable {σ : Type}

/-- An operation that begins on the desk, as it stands when the reply to its first stage arrives. -/
def awaited (engine : Engine σ) (state : σ) (d : Desk) (now : Int) (raw : Text) (op : Operation) :
    Answer :=
  let begun := start (echo d now raw) op
  (meanwhile begun.1 [] (engine.attend state d.host begun.2.request).interludes).1

theorem sound_awaited (engine : Engine σ) (state : σ) {d : Desk} (hd : d.Sound) (now : Int) (raw : Text)
    (op : Operation) : (awaited engine state d now raw op).desk.Sound := by
  obtain ⟨shell, -, hstart⟩ := start_cases (echo d now raw) op
  have hecho := sound_of_saying (Answer.Says.say (d.silent now) .input raw) hd
  have hbegun := sound_of_saying hstart ⟨hecho.archive, hecho.keys, hecho.host, hecho.tree⟩
  obtain ⟨hreaches, -⟩ := @reaches_meanwhile Host.Named (start (echo d now raw) op).2
    (engine.attend state d.host (start (echo d now raw) op).2.request).interludes
    (start (echo d now raw) op).1 (Floor.isBusy_start ..) []
  exact hreaches.sound hbegun

theorem tree_awaited {engine : Engine σ} (hq : engine.Quiet) (state : σ) (d : Desk) (now : Int)
    (raw : Text) (op : Operation) : (awaited engine state d now raw op).session.tree = d.session.tree := by
  obtain ⟨shell, -, hstart⟩ := start_cases (echo d now raw) op
  exact (says_meanwhile (hq state d.host _) _ []).tree.trans hstart.tree

/-! ## Research -/

def researching (t : Tree) : Stage := .research (t.textAt Place.intelligence) (t.gather Place.pages)

theorem drive_research (engine : Engine σ) (state : σ) (a : Answer) (asides : List Answer)
    (existing context : Text) :
    let attended := engine.attend state a.desk.host (.research existing context)
    (drive engine state a asides (.research existing context)).answer =
      (resume (meanwhile a asides attended.interludes).1 (.research existing context)
        attended.reply).1 := by
  intro attended
  rw [drive_stage]
  simp only
  split
  · next b hb => exact (congrArg Prod.fst hb).symm
  · next b t hb =>
    -- No stage comes after this one.
    have hnone (c : Answer) (reply : Except Failure ResearchReport) :
        (resume c (.research existing context) reply).2 = none := by
      cases reply <;> rfl
    exact absurd ((hnone _ _).symm.trans (congrArg Prod.snd hb)) (by simp)

theorem executeAt_research {d : Desk} (hbusy : d.session.isBusy = false) {raw : Text}
    (hop : operation? raw = some .research) (engine : Engine σ) (state : σ) (now : Int) :
    (executeAt engine state d now raw).answer =
      (resume (awaited engine state d now raw .research) (researching d.session.tree)
        (engine.attend state d.host (researching d.session.tree).request).reply).1 := by
  have hidle : ¬ (echo d now raw).session.isBusy = true := ne_true_of_eq_false hbusy
  have hhost : (start (echo d now raw) .research).1.desk.host = d.host := by
    obtain ⟨shell, -, hstart⟩ := start_cases (echo d now raw) .research
    exact hstart.host
  have hdrive := drive_research engine state (start (echo d now raw) .research).1 []
    (d.session.tree.textAt Place.intelligence) (d.session.tree.gather Place.pages)
  rw [hhost] at hdrive
  rw [executeAt, begin_of_operation? hop, startUnlessBusy, if_neg hidle]
  exact hdrive

def integrating (context : Text) : List Text :=
  if context.isEmpty then [] else ["INTEGRATING LOCAL BROWSE DATA INTO INTELLIGENCE MATRIX..."]

theorem shown_awaited (engine : Engine σ) (state : σ) (d : Desk) (now : Int) (raw : Text) :
    let attended := engine.attend state d.host (researching d.session.tree).request
    (awaited engine state d now raw .research).said.map shown =
      (.input, raw) :: (integrating (d.session.tree.gather Place.pages) ++
        attended.interludes.filterMap Interlude.told?).map (.system, ·) := by
  intro attended
  have hstart : (start (echo d now raw) .research).1.said.map shown =
      (.input, raw) :: (integrating (d.session.tree.gather Place.pages)).map (.system, ·) := by
    show (startResearch (inState (echo d now raw) .researching)).1.said.map shown = _
    unfold startResearch integrating
    have htree : (inState (echo d now raw) .researching).session.tree = d.session.tree := rfl
    simp only [htree]
    split
    · rfl
    · rfl
  rw [awaited, shown_meanwhile, hstart, List.map_append]
  rfl

/-! ## What is said of the artifacts -/

def warning (x : Artifact) : LineKind × Text :=
  (.system, "WARN: Skipped artifact with invalid name: " ++ x.name.quoted)

def generated (x : Artifact) : LineKind × Text :=
  (.system, "GENERATED EXPLOIT/TOOL: " ++ Path.join Place.exploits x.name)

def saved (isUpdate : Bool) : Text :=
  "RESEARCH " ++ (if isUpdate then ("UPDATE" : Text) else "COMPLETE") ++ ". INTEL SAVED."

/-- What is said once the engine has answered: a warning for each artifact whose name is none, and then
the path of every other one. -/
def closing (found : List Artifact) (isUpdate : Bool) : List (LineKind × Text) :=
  (found.filter fun x => !Path.isName x.name).map warning ++
    (found.filter fun x => Path.isName x.name).map generated ++ [(.success, saved isUpdate)]

theorem shown_artifactFiles (a : Answer) (found : List Artifact) :
    (artifactFiles a found).1.said.map shown =
      a.said.map shown ++ (found.filter fun x => !Path.isName x.name).map warning := by
  induction found generalizing a with
  | nil => exact (List.append_nil _).symm
  | cons x found ih =>
    rw [artifactFiles]
    split
    · next hx =>
      rw [List.filter_cons_of_neg (by simp [hx])]
      exact ih a
    · next hx =>
      rw [List.filter_cons_of_pos (by simp [hx]), ih, Answer.system, Answer.say, List.map_append,
        List.append_assoc]
      rfl

def reporting (a : Answer) (found : List Artifact) (isUpdate : Bool) : Answer :=
  let paths := (artifactEntries found).map fun (path, _) => "GENERATED EXPLOIT/TOOL: " ++ path
  (a.sayAll .system paths).success (saved isUpdate)

theorem shown_reporting (a : Answer) (found : List Artifact) (isUpdate : Bool) :
    (reporting a found isUpdate).said.map shown = a.said.map shown ++
      ((found.filter fun x => Path.isName x.name).map generated ++ [(.success, saved isUpdate)]) := by
  rw [reporting, Answer.success, Answer.say, List.map_append, shown_sayAll, List.append_assoc,
    artifactEntries, List.map_map, List.map_map]
  rfl

theorem finishResearch_eq (a : Answer) (report : ResearchReport) :
    finishResearch a report = storing (artifactFiles a report.artifacts).1 "RESEARCH"
      ((Place.intelligence, report.report) :: artifactEntries report.artifacts)
      fun a => reporting a report.artifacts report.isUpdate := by
  unfold reporting
  rw [← (artifactFiles_eq a report.artifacts).2]
  rfl

theorem finishResearch_cases (a : Answer) (report : ResearchReport) :
    (finishResearch a report).session.lastOutcome = some .error ∨
      (a.session.tree.storeAll
          ((Place.intelligence, report.report) :: artifactEntries report.artifacts) =
        .ok (finishResearch a report).session.tree ∧
      (finishResearch a report).said.map shown =
        a.said.map shown ++ closing report.artifacts report.isUpdate) := by
  have hsaid := shown_artifactFiles a report.artifacts
  rw [finishResearch_eq]
  unfold storing
  rw [(artifactFiles_eq a report.artifacts).1.tree]
  split
  · exact .inl (lastOutcome_abort ..)
  · next tree hstore =>
    refine .inr ⟨?_, ?_⟩
    · have hsays : Answer.Says ((artifactFiles a report.artifacts).1.withTree tree)
          (reporting ((artifactFiles a report.artifacts).1.withTree tree) report.artifacts
            report.isUpdate) := (Answer.Says.sayAll ..).then_say ..
      exact hstore.trans (congrArg _ hsays.tree.symm)
    · refine (shown_reporting _ _ _).trans ?_
      rw [show ((artifactFiles a report.artifacts).1.withTree tree).said =
        (artifactFiles a report.artifacts).1.said from rfl, hsaid, closing]
      simp only [List.append_assoc]

/-! ## What is stored -/

theorem join_exploits_injective {x y : Text}
    (h : Path.join Place.exploits x = Path.join Place.exploits y) : x = y := by
  rw [Path.join_eq (by decide), Path.join_eq (by decide)] at h
  exact (List.cons.inj (List.append_cancel_left h)).2

theorem lookup_artifactEntries (before : List Artifact) {after : List Artifact} {x : Artifact}
    (hx : Path.isName x.name = true) (hlast : ∀ y ∈ after, y.name ≠ x.name) :
    (artifactEntries (before ++ x :: after)).reverse.lookup (Path.join Place.exploits x.name) =
      some x.content := by
  have hafter : (artifactEntries after).reverse.lookup (Path.join Place.exploits x.name) = none := by
    refine List.lookup_eq_none_iff.2 fun e he => ?_
    obtain ⟨y, hy, rfl⟩ := List.mem_map.1 (List.mem_reverse.1 he)
    have hne := hlast y (List.mem_filter.1 hy).1
    simpa using fun h => hne (join_exploits_injective h).symm
  have hentries : artifactEntries (before ++ x :: after) = artifactEntries before ++
      (Path.join Place.exploits x.name, x.content) :: artifactEntries after := by
    simp [artifactEntries, hx]
  rw [hentries, List.reverse_append, List.reverse_cons, List.append_assoc, List.lookup_append, hafter,
    Option.none_or, List.singleton_append, List.lookup_cons, beq_self_eq_true]

theorem lookup_intelligence (found : List Artifact) :
    (artifactEntries found).reverse.lookup Place.intelligence = none := by
  refine List.lookup_eq_none_iff.2 fun e he => ?_
  obtain ⟨x, hx, rfl⟩ := List.mem_map.1 (List.mem_reverse.1 he)
  have hne : Place.intelligence ≠ Path.join Place.exploits x.name := by
    intro h
    have hsegments := congrArg Path.segments h
    rw [Path.segments_join _ (List.mem_filter.1 hx).2] at hsegments
    exact absurd (List.cons.inj hsegments).1 (by decide)
  simpa using hne

/-- What research puts into a tree: its report, and the last artifact of each name. Every place that is
none of these, and does not lead to one, keeps what it has, and no directory loses a child or their
order. -/
structure Lodged (report : Text) (items : List Json) (t u : Tree) : Prop where
  intelligence : ∃ f, u.file? Place.intelligence = some f ∧ f.content = some report
  last : ∀ before v after x, items = before ++ v :: after → IsArtifact v x →
    Path.isName x.name = true → (∀ w ∈ after, ∀ y, IsArtifact w y → y.name ≠ x.name) →
      ∃ f, u.file? (Path.join Place.exploits x.name) = some f ∧ f.content = some x.content
  elsewhere : ∀ folders name, ¬ folders ++ [name] <+: Path.segments Place.intelligence →
    (∀ v ∈ items, ∀ x, IsArtifact v x → Path.isName x.name = true →
      ¬ folders ++ [name] <+: Path.segments (Path.join Place.exploits x.name)) →
    u.root.at? folders name = t.root.at? folders name
  keeps : t.Keeps u
  wellFormed : u.WellFormed

theorem lodged_of_storeAll {report : Text} {items : List Json} {t u : Tree} (ht : t.WellFormed)
    (h : t.storeAll ((Place.intelligence, report) :: artifactEntries (items.filterMap artifact?)) = .ok u) :
    Lodged report items t u := by
  let entries := (Place.intelligence, report) :: artifactEntries (items.filterMap artifact?)
  have hfiles : stored (.integer 0) (.research [] []) ⟨report, items.filterMap artifact?, false⟩ =
    .ok entries := rfl
  have hstored : Tree.Stored entries t u := by
    rcases Tree.storeAll_cases (t := t) (apart_of_stored hfiles) with
      ⟨e, -, fault, -, hfault⟩ | ⟨-, v, hv, hstored⟩
    · cases hfault.symm.trans h
    · obtain rfl := Except.ok.inj (hv.symm.trans h)
      exact hstored
  have hu : u.WellFormed := wellFormed_of_stored hfiles ht h
  have hlookup (path : Text) : entries.reverse.lookup path =
      ((artifactEntries (items.filterMap artifact?)).reverse.lookup path).or
        ([(Place.intelligence, report)].lookup path) := by
    rw [List.reverse_cons, List.lookup_append]
  refine ⟨?_, ?_, ?_, Tree.keeps_of_extends hstored.grows, hu⟩
  · obtain ⟨f, hf, hcontent⟩ := hstored.texts _ List.mem_cons_self
    refine ⟨f, hf, hcontent.trans ?_⟩
    rw [hlookup, lookup_intelligence]
    rfl
  · rintro before v after x rfl hx hname hlast
    have hfound : (before ++ v :: after).filterMap artifact? =
        before.filterMap artifact? ++ x :: after.filterMap artifact? := by
      rw [List.filterMap_append, List.filterMap_cons_some (artifact?_eq_some_iff.2 hx)]
    have hlater : ∀ y ∈ after.filterMap artifact?, y.name ≠ x.name := by
      intro y hy
      obtain ⟨w, hw, hwy⟩ := List.mem_filterMap.1 hy
      exact hlast w hw y (artifact?_eq_some_iff.1 hwy)
    have hlooked := lookup_artifactEntries (before.filterMap artifact?) hname hlater
    rw [← hfound] at hlooked
    have hentry : (Path.join Place.exploits x.name, x.content) ∈ entries :=
      List.mem_cons_of_mem _ (Tree.mem_of_lookup_reverse hlooked)
    obtain ⟨f, hf, hcontent⟩ := hstored.texts _ hentry
    refine ⟨f, hf, hcontent.trans ?_⟩
    rw [hlookup, hlooked]
    rfl
  · intro folders name hintelligence hexploits
    refine Tree.at?_elsewhere ht hu hstored.grows ?_
    rintro fs s ⟨e, he, hsegments⟩ hprefix
    rw [← hsegments] at hprefix
    rcases List.mem_cons.1 he with rfl | he
    · exact hintelligence hprefix
    · obtain ⟨x, hx, rfl⟩ := List.mem_map.1 he
      obtain ⟨hmem, hname⟩ := List.mem_filter.1 hx
      obtain ⟨v, hv, hvx⟩ := List.mem_filterMap.1 hmem
      exact hexploits v hv x (artifact?_eq_some_iff.1 hvx) hname hprefix

/-! ## Research that is complete -/

theorem exists_of_complete {a : Answer} {t : Tree} {reply : Except Failure ResearchReport}
    (h : (resume a (researching t) reply).1.session.lastOutcome = some .complete) :
    ∃ report, reply = .ok report ∧
      a.session.tree.storeAll ((Place.intelligence, report.report) :: artifactEntries report.artifacts) =
        .ok (resume a (researching t) reply).1.session.tree ∧
      (resume a (researching t) reply).1.said.map shown =
        a.said.map shown ++ closing report.artifacts report.isUpdate := by
  cases reply with
  | error failure => cases (lastOutcome_abort a (researching t).label failure).symm.trans h
  | ok report =>
    refine ⟨report, rfl, (finishResearch_cases a report).resolve_left ?_⟩
    intro herror
    cases herror.symm.trans h

theorem researched_of_ok (script : Nat → Except Text ApiReply) (config : ServiceConfig) {keys : KeyStore}
    {s : Online (List ApiCall)} {h : Host} {existing context : Text} {report : ResearchReport}
    (hreply : ((online (.scripted script) keys config).attend s h (.research existing context)).reply =
      .ok report)
    {r : ApiReply} {items : List Json} (hr : script (s.client.length + 2) = .ok r)
    (hitems : documentOf r = .ok (.array items)) :
    ∃ queries text sources,
      Researched script s.client.length queries text sources (items.filterMap artifact?)
        (toldOf (items.filterMap artifact?)) ∧
      report = ⟨reportOf text sources, items.filterMap artifact?, !existing.isEmpty⟩ ∧
      ((online (.scripted script) keys config).attend s h (.research existing context)).interludes =
        (toldOpening existing queries ++ toldSearch sources ++
          toldOf (items.filterMap artifact?)).map .progress := by
  obtain ⟨queries, text, sources, found, told, hresearched, hreport, hinterludes⟩ :=
    Engine.researched_of_reply script config hreply
  obtain ⟨rfl, rfl⟩ : found = items.filterMap artifact? ∧
      told = toldOf (items.filterMap artifact?) := by
    rcases hresearched.offers.2 with ⟨r', items', hr', hitems', rfl, rfl⟩ | ⟨hnone, -⟩
    · obtain rfl := Except.ok.inj (hr.symm.trans hr')
      obtain rfl := Json.array.inj (Except.ok.inj (hitems.symm.trans hitems'))
      exact ⟨rfl, rfl⟩
    · exact absurd hitems (hnone r items hr)
  exact ⟨queries, text, sources, hresearched, hreport, hinterludes⟩

theorem filterMap_told?_progress (texts : List Text) :
    (texts.map Interlude.progress).filterMap Interlude.told? = texts := by
  rw [List.filterMap_map]
  exact List.filterMap_some

/-- Where the last reply of the service is an array, whatever its items are, and the research ends as
complete, its artifacts are lodged in the tree that is there when it ends, and all that is said of them is
a warning for each one whose name is none and the path of every other one, in their order. -/
theorem artifacts_lodged (script : Nat → Except Text ApiReply) (config : ServiceConfig) {keys : KeyStore}
    {engine : Engine (Online (List ApiCall))}
    (hamid : engine.Amid (online (.scripted script) keys config)) (state : Online (List ApiCall))
    {d : Desk} (hd : d.Sound) (hbusy : d.session.isBusy = false) (now : Int) {raw : Text}
    (hop : operation? raw = some .research) {r : ApiReply} {items : List Json}
    (hr : script (state.client.length + 2) = .ok r) (hitems : documentOf r = .ok (.array items))
    (hcomplete : (executeAt engine state d now raw).answer.session.lastOutcome = some .complete) :
    let existing := d.session.tree.textAt Place.intelligence
    let context := d.session.tree.gather Place.pages
    let found := items.filterMap artifact?
    let before := (awaited engine state d now raw .research).session.tree
    let after := (executeAt engine state d now raw).answer
    (engine.Quiet → before = d.session.tree) ∧
    ∃ queries text sources,
      Researched script state.client.length queries text sources found (toldOf found) ∧
      Lodged (reportOf text sources) items before after.session.tree ∧
      after.said.map shown = (.input, raw) ::
        (integrating context ++ toldOpening existing queries ++ toldSearch sources ++ toldOf found).map
          (.system, ·) ++ closing found (!existing.isEmpty) := by
  intro existing context found before after
  have hafter := executeAt_research hbusy hop engine state now
  rw [hafter] at hcomplete
  obtain ⟨report, hreply, hstore, hsaid⟩ := exists_of_complete hcomplete
  rw [← hafter] at hstore hsaid
  rw [hamid.reply] at hreply
  obtain ⟨queries, text, sources, hresearched, rfl, htold⟩ :=
    researched_of_ok script config hreply hr hitems
  have hsound := sound_awaited engine state hd now raw .research
  refine ⟨fun hq => tree_awaited hq state d now raw .research, queries, text, sources, hresearched,
    lodged_of_storeAll hsound.tree hstore, hsaid.trans ?_⟩
  have hinterludes : (engine.attend state d.host (researching d.session.tree).request).interludes.filterMap
      Interlude.told? = toldOpening existing queries ++ toldSearch sources ++ toldOf found := by
    rw [hamid.told]
    exact (congrArg _ htold).trans (filterMap_told?_progress _)
  rw [shown_awaited, hinterludes]
  simp only [List.append_assoc, List.cons_append, existing, context, found]

theorem artifacts_lodged_repeated :
    let artifact (name content : Text) : Json := .object [("name", .text name), ("content", .text content)]
    let items := [.null, artifact "a" "one", artifact "a/b" "", artifact "a" "two"]
    let document := (Json.array items).toDocument
    let script : Nat → Except Text ApiReply := fun _ => .ok (.saying document)
    let keys : KeyStore := ⟨HostPath.ofText "/k", KeyStore.defaultVariable⟩
    let service := online (.scripted script) keys ⟨.null, 1, 1⟩
    let engine : Engine (Online (List ApiCall)) := ⟨fun state host q =>
      let attended := service.attend state host q
      { attended with interludes := .line "write b c" :: attended.interludes }⟩
    let bare := Desk.bare (Session.withoutHistory ⟨[]⟩ "1.0")
    let d := { bare with host := { bare.host with environment := [(KeyStore.defaultVariable, "k")] } }
    let after := (executeAt engine ⟨none, []⟩ d 0 "research").answer
    engine.Amid service ∧ d.Sound ∧ after.session.lastOutcome = some .complete ∧
      (∃ f, after.session.tree.file? "/exploits/a" = some f ∧ f.content = some "two") ∧
      closing [⟨"a", "one"⟩, ⟨"a/b", ""⟩, ⟨"a", "two"⟩] false <:+ after.said.map shown := by
  intro artifact items document script keys service engine bare d after
  have hamid : engine.Amid service := ⟨fun _ _ _ => rfl, fun _ _ _ => rfl, fun _ _ _ => rfl⟩
  have hd : d.Sound := ⟨HostPath.plain_ofText _, HostPath.plain_ofText _,
    ⟨List.forall_mem_nil _, List.forall_mem_nil _⟩, trivial⟩
  have hbusy : d.session.isBusy = false := rfl
  have hop : operation? "research" = some .research := by decide
  have hitems : documentOf (.saying document) = .ok (.array items) := by
    have htext : (ApiReply.saying document).text = .ok document := by
      rw [ApiReply.text_saying]
      exact congrArg Except.ok (by decide +kernel)
    have hplain : Markdown.unfence document = document := by decide +kernel
    have hmark : ¬ document.head?.map CodePoint.val = some 0xFEFF := by decide +kernel
    have hexact : Json.Exact (.array items) := by
      have hnames : ([("name" : Text), "content"]).Nodup := by decide
      have hartifact (name content : Text) : Json.Exact (artifact name content) :=
        ⟨hnames, trivial, trivial, trivial⟩
      exact ⟨trivial, hartifact _ _, hartifact _ _, hartifact _ _, trivial⟩
    rw [documentOf_of_text htext, hplain, Json.ofText, if_neg hmark,
      Json.ofUnmarked_toDocument hexact (by decide)]
    rfl
  have hcomplete : after.session.lastOutcome = some .complete := by
    show (executeAt engine ⟨none, []⟩ d 0 "research").answer.session.lastOutcome = _
    rw [executeAt_research hbusy hop]
    decide +kernel
  obtain ⟨-, queries, text, sources, -, hlodged, hsaid⟩ :=
    artifacts_lodged script ⟨.null, 1, 1⟩ hamid ⟨none, []⟩ hd hbusy 0 hop (r := .saying document) rfl
      hitems hcomplete
  refine ⟨hamid, hd, hcomplete, ?_, ?_⟩
  · exact hlodged.last [.null, artifact "a" "one", artifact "a/b" ""] (artifact "a" "two") []
      ⟨"a", "two"⟩ rfl ⟨_, rfl, rfl, rfl⟩ (by decide) (List.forall_mem_nil _)
  · rw [hsaid]
    exact List.suffix_append _ _

end Shell

end ThreatDesk
