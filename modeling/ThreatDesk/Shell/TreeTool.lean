import ThreatDesk.Engine.Request
import ThreatDesk.Tree.Edit

/-!
# The agent's tools

What a tool call does to the tree and what it answers. All arguments are texts, paths start from the
root, and only writing changes the tree. A call that cannot be made sense of gets an answer that says
so, or is a fault if not even that can be said.
-/

namespace ThreatDesk

inductive TreeTool
  | list
  | read
  | write
deriving DecidableEq

namespace TreeTool

def name : TreeTool → Text
  | .list => "list"
  | .read => "read"
  | .write => "write"

def all : List TreeTool := [.list, .read, .write]

def ofName? (t : Text) : Option TreeTool := all.find? fun tool => tool.name = t

theorem ofName?_name (tool : TreeTool) : ofName? tool.name = some tool := by
  cases tool <;> decide

/-! ## Arguments -/

def parameters : TreeTool → List Text
  | .list | .read => ["path"]
  | .write => ["path", "content"]

def required : TreeTool → List Text
  | .list => []
  | .read => ["path"]
  | .write => ["path", "content"]

def signature : TreeTool → Text
  | .list => "get_vfs_tools.<locals>.list_files()"
  | .read => "get_vfs_tools.<locals>.read_file()"
  | .write => "get_vfs_tools.<locals>.write()"

inductive Mismatch
  | notTexts (names : List Text)
  | notNamed
  | unknown (argument : Text)
  | missing (arguments : List Text)

/-- An unknown argument counts before missing ones. -/
def mismatch? (tool : TreeTool) (input : Json.Fields) : Option Mismatch :=
  match input.find? fun (k, _) => !tool.parameters.contains k with
  | some (k, _) => some (.unknown k)
  | none =>
    let missing := tool.required.filter fun p => (Json.Fields.get? p input).isNone
    if missing.isEmpty then none else some (.missing missing)

def mark (name : Text) : Text := "'" ++ name ++ "'"

def Mismatch.message (tool : TreeTool) : Mismatch → Text
  | .notTexts names => Text.intercalate ", " names ++ " must be strings"
  | .notNamed => "keywords must be strings"
  | .unknown k => tool.signature ++ " got an unexpected keyword argument " ++ mark k
  | .missing ps =>
    let arguments : Text :=
      if ps.length = 1 then " required positional argument: " else " required positional arguments: "
    tool.signature ++ " missing " ++ Text.ofNat ps.length ++ arguments ++
      Text.intercalate " and " (ps.map mark)

/-- The arguments as fields that the tool can go by, or what is wrong with them; nothing can be said
of an argument that is no text where its name is none either. -/
def accept (tool : TreeTool) (input : Arguments) : Except Fault (Except Mismatch Json.Fields) :=
  match Fault.textsFrom 0 (input.notTexts.map Json.Atom.toJson) with
  | .error fault => .error fault
  | .ok (name :: names) => .ok (.error (.notTexts (name :: names)))
  | .ok [] =>
    match input.fields? with
    | none => .ok (.error .notNamed)
    | some fields =>
      match tool.mismatch? fields with
      | some mismatch => .ok (.error mismatch)
      | none => .ok (.ok fields)

def argument (input : Json.Fields) (name default : Text) : Text :=
  ((Json.Fields.get? name input).bind Json.text?).getD default

/-! ## What the tools do -/

def listing (t : Tree) (path : Text) : Text :=
  let target := Path.resolve Path.root path
  match t.directory? target with
  | none => "Error: Directory " ++ target ++ " not found."
  | some c => "Files in " ++ target ++ ":\n" ++ Text.intercalate "\n" c.listing

def reading (t : Tree) (path : Text) : Text :=
  let target := Path.resolve Path.root path
  match t.file? target with
  | none => "Error: File " ++ target ++ " not found."
  | some f => f.text

def report (target : Text) : Tree.WriteOutcome → Text
  | .written => "Successfully wrote to " ++ target
  | .noParent => "Error: Parent directory of " ++ target ++ " not found."
  | .isDirectory => "Error: " ++ target ++ " is a directory."
  | .invalidName => "Error: Invalid file name in " ++ target ++ "."

def writing (t : Tree) (path content : Text) : Tree × Text :=
  let target := Path.resolve Path.root path
  let (written, outcome) := t.write target content
  (written, report target outcome)

def apply (tool : TreeTool) (t : Tree) (input : Json.Fields) : Tree × Text :=
  match tool with
  | .list => (t, listing t (argument input "path" Path.root))
  | .read => (t, reading t (argument input "path" []))
  | .write => writing t (argument input "path" []) (argument input "content" [])

/-- The tree after a call of the tool, and its answer. -/
def call (tool : TreeTool) (t : Tree) (input : Arguments) : Tree × Except Fault Text :=
  match tool.accept input with
  | .error fault => (t, .error fault)
  | .ok (.error mismatch) =>
    (t, .ok ("Error: Bad arguments for " ++ tool.name ++ ": " ++ mismatch.message tool))
  | .ok (.ok fields) =>
    let (t, result) := tool.apply t fields
    (t, .ok result)

end TreeTool

def ToolCall.run (call : ToolCall) (t : Tree) : Tree × Except Fault Text :=
  match call.name.atom? with
  | none => (t, .error (.notAtom call.name))
  | some name =>
    match name.text?.bind TreeTool.ofName? with
    | none => (t, .ok ("Error: Unknown tool " ++ call.name.shown))
    | some tool => tool.call t call.input

end ThreatDesk
