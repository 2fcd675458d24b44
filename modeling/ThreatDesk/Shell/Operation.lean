import ThreatDesk.Shell.Desk
import ThreatDesk.Shell.Exchange
import ThreatDesk.Shell.Verb
import ThreatDesk.Yaml.Scalar

/-!
# Long operations

An operation runs in stages, each of which waits for one answer of the engine. What happens between two
answers happens at once. Main statement: every stage leads to a stage of lower rank or to the end
(`rank_resume`).

A page is stored with a front matter, which is written as the `frontmatter` package does with libyaml:
the keys in order and in block style, between lines of three hyphens, and the whole without white space at
either end. What is proved of storing takes the text of a page (`Page.toText`) as it is.
-/

namespace ThreatDesk

/-! ## Pages -/

structure Page where
  source : Text
  fetched : Text
  links : List Text
  content : Text

namespace Page

/-- The first part of the metadata that cannot be written, because it holds a surrogate. -/
def fault? (p : Page) : Option Encoding.EncodeFault :=
  (p.links ++ [p.source]).findSome? (Encoding.surrogateRun? 0)

def metadata (p : Page) : Text :=
  "fetched:" ++ Yaml.scalar 8 p.fetched ++ "\nlinks:" ++ Yaml.sequence p.links ++ "\nsource:" ++
    Yaml.scalar 7 p.source

def toText (p : Page) : Text :=
  Text.trim ("---\n" ++ Text.trim p.metadata ++ "\n---\n\n" ++ p.content ++ "\n")

end Page

/-! ## Names of pages -/

namespace PageName

/-- The letters beyond ASCII that differ from an ASCII letter in case alone. -/
def foldsToAscii : List Nat := [0x130, 0x131, 0x17F, 0x212A]

def isKept (c : CodePoint) : Bool :=
  c.isDigit || (0x41 ≤ c.val && c.val ≤ 0x5A) || (0x61 ≤ c.val && c.val ≤ 0x7A) ||
    foldsToAscii.contains c.val

def lengthLimit : Nat := 50

def ofAddress (url : Text) : Text :=
  (url.map fun c => if isKept c then c else '_').take lengthLimit ++ ".md"

end PageName

/-! ## Places in the tree -/

namespace Place

def analysis : Text := "/docs/agent_hopper_analysis.md"
def architecture : Text := "/docs/specs/defense_architecture.md"
def countermeasure : Text := "/agent_killer.py"
def intelligence : Text := "/docs/deep_dive_intel.md"
def exploits : Text := "/exploits"
def pages : Text := "/browse"
def documents : Text := "/docs"

end Place

/-! ## Kinds of operations -/

inductive Operation
  | analyze
  | research
  | scan
  | browse (url : Text)
  | ask (message : Text)
deriving DecidableEq

namespace Operation

def state : Operation → ShellState
  | .analyze => .analyzing
  | .research => .researching
  | .scan => .scanning
  | .browse _ => .browsing
  | .ask _ => .chatting

end Operation

/-- What an analysis goes on from: the texts that were there when it began. -/
structure Groundwork where
  document : Text
  architecture : Text
  countermeasure : Text
  context : Text

inductive Stage
  | document (g : Groundwork)
  | architecture (g : Groundwork) (document : Text)
  | countermeasure (g : Groundwork) (document architecture : Text)
  | research (existing context : Text)
  | scan (definitions : List Text)
  | browse (url : Text)
  | chat (e : Exchange)

namespace Stage

open Engine (Request Failure)

def request : Stage → Request
  | .document g =>
    .document "research_analysis.md" "Comprehensive analysis of AgentHopper exploit mechanics."
      g.document g.context
  | .architecture g _ =>
    .document "defense_architecture.md"
      "Defense architecture specification against autonomous AI agents." g.architecture g.context
  | .countermeasure g _ _ => .code g.countermeasure g.context
  | .research existing context => .research existing context
  | .scan definitions => .scan definitions
  | .browse url => .browse url
  | .chat e => .chat e.history e.prompt e.context

def label : Stage → Text
  | .document _ | .architecture .. | .countermeasure .. => "ANALYSIS"
  | .research .. => "RESEARCH"
  | .scan _ => "SCAN"
  | .browse _ => "BROWSE"
  | .chat _ => "AGENT"

/-- How many answers of the engine the operation may still wait for. -/
def rank : Stage → Nat
  | .document _ => 3
  | .architecture .. => 2
  | .chat e => e.roundsLeft + 1
  | _ => 1

end Stage

namespace Shell

open Engine (Failure)

def inState (a : Answer) (state : ShellState) : Answer :=
  a.withSession fun s => { s with state := state }

/-! ## Starting -/

def startAnalysis (a : Answer) : Answer × Stage :=
  let a := a.system "INITIATING HEURISTIC ANALYSIS ENGINE..."
  let tree := a.session.tree
  let context := tree.gather Place.pages
  let a := if context.isEmpty then a else a.system "LOADING BROWSING CONTEXT FOR ANALYSIS..."
  let document := tree.textAt Place.analysis
  let a :=
    if document.isEmpty then a
    else a.system "DETECTED EXISTING ANALYSIS DATA. RUNNING INCREMENTAL UPDATE..."
  let a := (inState a .generatingDocs).system "PROCESSING RESEARCH DOCUMENTATION..."
  (a, .document ⟨document, tree.textAt Place.architecture, tree.textAt Place.countermeasure, context⟩)

def startResearch (a : Answer) : Answer × Stage :=
  let tree := a.session.tree
  let context := tree.gather Place.pages
  let a :=
    if context.isEmpty then a
    else a.system "INTEGRATING LOCAL BROWSE DATA INTO INTELLIGENCE MATRIX..."
  (a, .research (tree.textAt Place.intelligence) context)

def definitions (t : Tree) : List Text :=
  match t.directory? Place.exploits with
  | none => []
  | some c => c.children.map Node.name

def background (t : Tree) : Text :=
  Text.intercalate "\n\n"
    ([t.gather Place.documents, t.gather Place.pages].filter fun part => !part.isEmpty)

def start (a : Answer) (op : Operation) : Answer × Stage :=
  let a := inState a op.state
  match op with
  | .analyze => startAnalysis a
  | .research => startResearch a
  | .scan => (a, .scan (definitions a.session.tree))
  | .browse url => (a, .browse url)
  | .ask message =>
    (a, .chat (.ofMessage a.desk.dialogue a.desk.site.rounds message (background a.session.tree)))

/-! ## Ending -/

def finish (a : Answer) (outcome : ShellState) : Answer :=
  a.withSession fun s => { s with lastOutcome := some outcome, state := .idle }

/-- A missing key is explained, a failure of the service or of storing is reported under the label of
the operation, and anything else ends the command after the operation is over. -/
def abort (a : Answer) (label : Text) : Failure → Answer
  | .missingCredential => finish (a.error Manual.keyGuidance) .error
  | .collaborator message | .malformed message | .unusable message =>
    finish (a.error (label ++ " FAILED: " ++ message)) .error
  | .fault fault => (finish a .error).fail fault

def complete (a : Answer) : Answer := finish a .complete

def storing (a : Answer) (label : Text) (entries : List (Text × Text)) (next : Answer → Answer) :
    Answer :=
  match a.session.tree.storeAll entries with
  | .error fault => abort a label (.unusable fault.message)
  | .ok tree => complete (next (a.withTree tree))

/-! ## Going on -/

/-- A result, unless it is the mark of no changes: then what was there. -/
def orUnchanged (result existing : Text) : Text :=
  if result = Engine.noChanges then existing else result

def finishAnalysis (a : Answer) (g : Groundwork) (document architecture countermeasure : Text) :
    Answer :=
  let document := orUnchanged document g.document
  storing a "ANALYSIS"
    [(Place.analysis, document),
     (Place.architecture, orUnchanged architecture g.architecture),
     (Place.countermeasure, orUnchanged countermeasure g.countermeasure)]
    fun a =>
      let a := a.success "ANALYSIS SEQUENCE COMPLETE."
      if !g.document.isEmpty && document = g.document then
        a.system "NOTICE: No significant changes detected in analysis."
      else a

/-- The files of the artifacts whose names are names, in order; the others are skipped with a
warning. -/
def artifactFiles (a : Answer) : List Artifact → Answer × List (Text × Text)
  | [] => (a, [])
  | artifact :: artifacts =>
    if Path.isName artifact.name then
      let (a, files) := artifactFiles a artifacts
      (a, (Path.join Place.exploits artifact.name, artifact.content) :: files)
    else
      artifactFiles
        (a.system ("WARN: Skipped artifact with invalid name: " ++ artifact.name.quoted)) artifacts

def finishResearch (a : Answer) (report : ResearchReport) : Answer :=
  let (a, files) := artifactFiles a report.artifacts
  storing a "RESEARCH" ((Place.intelligence, report.report) :: files) fun a =>
    (a.sayAll .system (files.map fun (path, _) => "GENERATED EXPLOIT/TOOL: " ++ path)).success
      ("RESEARCH " ++ (if report.isUpdate then ("UPDATE" : Text) else "COMPLETE") ++
        ". INTEL SAVED.")

def finishScan (a : Answer) (report : Text) : Answer :=
  let kind : LineKind := if Text.occurs "VULNERABLE" report then .error else .success
  complete ((a.output "--- SCAN REPORT ---").say kind report)

def pageText (url : Text) (page : VisitedPage) (clock : Number) : Except Fault Text :=
  match Calendar.ofNumber clock with
  | .error fault => .error (.calendar fault)
  | .ok date =>
    let page : Page := ⟨url, date.isoStamp, page.links, page.content⟩
    match page.fault? with
    | some fault => .error (.unencodable fault)
    | none => .ok page.toText

def finishBrowse (a : Answer) (url : Text) (page : VisitedPage) : Answer :=
  let a := (a.success ("LOADED: " ++ url)).output page.content
  match pageText url page a.desk.host.clock with
  | .error fault => abort a "BROWSE" (.fault fault)
  | .ok text =>
    let path := Path.join Place.pages (PageName.ofAddress url)
    storing a "BROWSE" [(path, text)] fun a => a.system ("CACHED: " ++ path)

def continueChat (a : Answer) (e : Exchange) (reply : ChatReply) : Answer × Option Stage :=
  let (tree, results) := Exchange.runCalls a.session.tree reply.toolCalls
  let a := a.withTree tree
  let a := { a with desk := { a.desk with dialogue := a.desk.dialogue ++ e.turns reply } }
  match results with
  | .error fault => (abort a (Stage.chat e).label (.fault fault), none)
  | .ok results =>
    match e.next reply results with
    | .again e => (a, some (.chat e))
    | .done answer =>
      (complete (a.output (if answer.isEmpty then ("(no response)" : Text) else answer)), none)

def proceed (a : Answer) : (s : Stage) → s.request.Answer → Answer × Option Stage
  | .document g, document =>
    ((inState a .generatingSpecs).system "PROCESSING DEFENSE ARCHITECTURE SPECS...",
      some (.architecture g document))
  | .architecture g document, architecture =>
    (a.system "OPTIMIZING ANTI-VIRUS COUNTERMEASURES...",
      some (.countermeasure g document architecture))
  | .countermeasure g document architecture, code =>
    (finishAnalysis a g document architecture code, none)
  | .research .., report => (finishResearch a report, none)
  | .scan _, report => (finishScan a report, none)
  | .browse url, page => (finishBrowse a url page, none)
  | .chat e, reply => continueChat a e reply

def resume (a : Answer) (s : Stage) : Except Failure s.request.Answer → Answer × Option Stage
  | .ok answer => proceed a s answer
  | .error failure => (abort a s.label failure, none)

theorem rank_continueChat {a : Answer} {e : Exchange} {reply : ChatReply} {t : Stage}
    (h : (continueChat a e reply).2 = some t) : t.rank < (Stage.chat e).rank := by
  unfold continueChat at h
  simp only at h
  split at h
  · simp at h
  · split at h
    · next f hf =>
      obtain rfl : Stage.chat f = t := by simpa using h
      have := Exchange.roundsLeft_of_next hf
      simp only [Stage.rank]
      omega
    · simp at h

theorem rank_resume {a : Answer} {s t : Stage} {reply : Except Failure s.request.Answer}
    (h : (resume a s reply).2 = some t) : t.rank < s.rank := by
  cases reply with
  | error failure => simp [resume] at h
  | ok answer =>
    cases s with
    | document g =>
      obtain rfl : Stage.architecture g answer = t := by simpa [resume, proceed] using h
      simp [Stage.rank]
    | architecture g document =>
      obtain rfl : Stage.countermeasure g document answer = t := by
        simpa [resume, proceed] using h
      simp [Stage.rank]
    | chat e => exact rank_continueChat h
    | _ => simp [resume, proceed] at h

end Shell

end ThreatDesk
