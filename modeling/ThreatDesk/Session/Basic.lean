import ThreatDesk.Tree.Baseline
import ThreatDesk.Calendar

/-!
# Sessions

What the commands change and a snapshot keeps. `told` is what a listener has heard since the session
was made: every line as it was added. Times count milliseconds. Identifiers are drawn at random: from a
sequence that is given to a session, and whatever is said of sessions holds for each. Main statement: a
line is added to both (`lines_say`, `told_say`).
-/

namespace ThreatDesk

inductive LineKind
  | input
  | output
  | system
  | error
  | success
deriving DecidableEq

namespace LineKind

def all : List LineKind := [.input, .output, .system, .error, .success]

def toText : LineKind → Text
  | .input => "input"
  | .output => "output"
  | .system => "system"
  | .error => "error"
  | .success => "success"

def ofText? (t : Text) : Option LineKind := all.find? fun k => k.toText = t

theorem ofText?_toText (k : LineKind) : ofText? k.toText = some k := by
  cases k <;> decide

end LineKind

structure Line where
  id : Text
  kind : LineKind
  text : Text
  timestamp : Number
deriving DecidableEq

inductive ShellState
  | idle
  | analyzing
  | generatingDocs
  | generatingSpecs
  | researching
  | browsing
  | scanning
  | chatting
  | complete
  | error
deriving DecidableEq

namespace ShellState

def all : List ShellState :=
  [.idle, .analyzing, .generatingDocs, .generatingSpecs, .researching, .browsing, .scanning,
   .chatting, .complete, .error]

def toText : ShellState → Text
  | .idle => "IDLE"
  | .analyzing => "ANALYZING"
  | .generatingDocs => "GENERATING_DOCS"
  | .generatingSpecs => "GENERATING_SPECS"
  | .researching => "RESEARCHING"
  | .browsing => "BROWSING"
  | .scanning => "SCANNING"
  | .chatting => "CHATTING"
  | .complete => "COMPLETE"
  | .error => "ERROR"

def ofText? (t : Text) : Option ShellState := all.find? fun s => s.toText = t

def isBusy : ShellState → Bool
  | .idle | .complete | .error => false
  | _ => true

end ShellState

structure Session where
  tree : Tree
  lines : List Line
  cwd : Text
  version : Text
  state : ShellState
  lastOutcome : Option ShellState
  loadedName : Text
  activeFile : Option File
  /-- What the identifiers of lines are drawn from: a number for each line. -/
  drawn : Nat → Nat
  /-- How many identifiers the session has made for lines. -/
  issued : Nat
  told : List Line

namespace Session

def isBusy (s : Session) : Bool := s.state.isBusy

def lineId (drawn : Nat) : Text := Text.hex 8 drawn

def nextLine (s : Session) (now : Int) (kind : LineKind) (text : Text) : Line :=
  ⟨lineId (s.drawn (s.issued + 1)), kind, text, .integer now⟩

def say (s : Session) (now : Int) (kind : LineKind) (text : Text) : Session :=
  let line := s.nextLine now kind text
  { s with lines := s.lines ++ [line], issued := s.issued + 1, told := s.told ++ [line] }

theorem lines_say (s : Session) (now : Int) (kind : LineKind) (text : Text) :
    (s.say now kind text).lines = s.lines ++ [s.nextLine now kind text] := rfl

theorem told_say (s : Session) (now : Int) (kind : LineKind) (text : Text) :
    (s.say now kind text).told = s.told ++ [s.nextLine now kind text] := rfl

/-- The session after a line that got an identifier and no time, and so was not added. -/
def skipLine (s : Session) : Session := { s with issued := s.issued + 1 }

def withoutHistory (tree : Tree) (version : Text) (drawn : Nat → Nat := id) : Session where
  tree := tree
  lines := []
  cwd := Path.root
  version := version
  state := .idle
  lastOutcome := none
  loadedName := []
  activeFile := none
  drawn := drawn
  issued := 0
  told := []

def bootText (version : Text) : Text :=
  "BOOT SEQUENCE INITIATED...\nVERSION: " ++ version ++ "\nMOUNTING VIRTUAL FS..."

/-- A session over the baseline with its modules, which has said that it booted. -/
def new {ε : Type} (modules : Except ε (List Baseline.Module)) (now : Except ε Int) (version : Text)
    (drawn : Nat → Nat := id) : Except ε Session :=
  match Baseline.merge Baseline.initialTree modules with
  | (tree, .ok _) =>
    now.map fun now => (withoutHistory tree version drawn).say now .system (bootText version)
  | (_, .error fault) => .error fault

end Session

end ThreatDesk
