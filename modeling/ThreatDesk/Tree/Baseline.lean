import ThreatDesk.Tree.Edit
import ThreatDesk.Host.Store

/-!
# The baseline

What every session starts from: a note, a directory for documents and the shell's own modules under
`/src`. Merging the modules adds what is missing and keeps what is there. On a host the modules are the
files below a directory that are called `*.py`, by their paths, but for what was compiled.
-/

namespace ThreatDesk

namespace Baseline

def version : Text := "1.1.0"

def readme : Text := "NETSEC RETRODECK v" ++ version ++
"
=======================
AUTHORIZED PERSONNEL ONLY

Current Mission: Analyze 'AgentHopper' AI Worm variant.
Objective: Generate documentation and countermeasures.

Commands:
- help: Show available commands
- ls: List files
- cat [filename]: View file content
- analyze: Start AgentHopper heuristics analysis
- research: Deep dive internet research for new vectors
- export: Save current session to local disk
- load: Load a previous session
- clear: Clear terminal
"

def sourceName : Text := "src"

def initialTree : Tree :=
  Tree.ofNodes [Node.newFile "readme.txt" (some readme), Node.newDirectory "docs" []]

structure Module where
  folders : List Text
  name : Text
  content : Text
deriving DecidableEq

/-- The children of `parent` with the module at its place, unless a node is there or a file stands
where one of its directories should be; and whether it was added. -/
def place (name content parent : Text) (nodes : List Node) : List Text → List Node × Bool
  | [] =>
    if Nodes.has name nodes then (nodes, false)
    else (nodes ++ [.file ⟨name, Path.join parent name, some content⟩], true)
  | s :: rest =>
    match Nodes.get? s nodes with
    | none =>
      let path := Path.join parent s
      let (children, added) := place name content path [] rest
      (nodes ++ [.directory s path children], added)
    | some (.file _) => (nodes, false)
    | some (.directory n path children) =>
      let (children, added) := place name content path children rest
      (Nodes.modify s (fun _ => .directory n path children) nodes, added)

def placeAll (parent : Text) (nodes : List Node) : List Module → List Node × Nat
  | [] => (nodes, 0)
  | m :: ms =>
    let (nodes, added) := place m.name m.content parent nodes m.folders
    let (nodes, count) := placeAll parent nodes ms
    (nodes, if added then count + 1 else count)

def fresh (modules : List Module) : Node :=
  let path := Path.join Path.root sourceName
  .directory sourceName path (placeAll path [] modules).1

def hasSource (t : Tree) : Bool := Nodes.has sourceName t.children

/-- The tree with an empty `/src`, unless something has that name. -/
def withSource (t : Tree) : Tree :=
  if hasSource t then t else ⟨t.children ++ [fresh []]⟩

/-- The tree with the modules merged into its `/src`, and how many were added. A file of that name
is left alone. -/
def mergeInto (t : Tree) (modules : List Module) : Tree × Nat :=
  match Nodes.get? sourceName t.children with
  | some (.directory n path children) =>
    let (children, count) := placeAll path children modules
    (⟨Nodes.modify sourceName (fun _ => .directory n path children) t.children⟩, count)
  | _ => (t, 0)

/-- The tree with the modules merged in, and how many were added, or why they could not be read.
`/src` is made before they are read, and they are not read where a file has its name. -/
def merge {ε : Type} (t : Tree) (modules : Except ε (List Module)) : Tree × Except ε Nat :=
  let t := withSource t
  match Nodes.get? sourceName t.children with
  | some (.directory ..) =>
    match modules with
    | .ok ms => let (t, count) := mergeInto t ms; (t, .ok count)
    | .error fault => (t, .error fault)
  | _ => (t, .ok 0)

/-- The tree with a directory of the modules last, if it has nothing called `src`; they are read only
then. The second part says whether it was added. -/
def reconcile {ε : Type} (t : Tree) (modules : Except ε (List Module)) : Except ε (Tree × Bool) :=
  if hasSource t then .ok (t, false)
  else modules.map fun ms => (⟨t.children ++ [fresh ms]⟩, true)

end Baseline

/-! ## Modules on a host -/

namespace Baseline

def isModuleName (name : Text) : Bool := name.endsWith ".py"

def compiled : Text := "__pycache__"

def modulePlaces (h : Host) (root : List Text) : List (List Text) :=
  let below := h.entries.filterMap fun (p, _) =>
    if root.isPrefixOf p then some (p.drop root.length) else none
  let modules := below.filter fun p =>
    isModuleName (p.getLast?.getD []) && !p.contains compiled
  modules.mergeSort Text.leAll

def readModule (h : Host) (root : HostPath) (place : List Text) : Except Host.Fault Module :=
  (h.readText ⟨root.anchor, root.parts ++ place⟩).map fun content =>
    ⟨place.dropLast, place.getLast?.getD [], content⟩

def read (h : Host) (root : HostPath) : Except Host.Fault (List Module) :=
  (modulePlaces h root.parts).mapM (readModule h root)

end Baseline

end ThreatDesk
