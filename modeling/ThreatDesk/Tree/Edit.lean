import ThreatDesk.Tree.Lookup

/-!
# Changing the tree

Every change is one of the children of one directory, at the end of a list of segments.
-/

namespace ThreatDesk

abbrev Change := Text → List Node → List Node

/-- The children of `parent` after a change of the directory that the segments lead to; where they
lead nowhere nothing changes. -/
def Nodes.changeAt (change : Change) (parent : Text) (nodes : List Node) :
    List Text → List Node
  | [] => change parent nodes
  | s :: rest =>
    match Nodes.get? s nodes with
    | some (.directory name path children) =>
      Nodes.modify s (fun _ => .directory name path (changeAt change path children rest)) nodes
    | _ => nodes

namespace Tree

def changeAt (t : Tree) (path : Text) (change : Change) : Tree :=
  ⟨Nodes.changeAt change Path.root t.children (Path.segments path)⟩

inductive WriteOutcome
  | written
  | noParent
  | isDirectory
  | invalidName
deriving DecidableEq

def writeOutcome (t : Tree) (path : Text) : WriteOutcome :=
  let (parent, name) := Path.split path
  if !Path.isName name then .invalidName
  else
    match t.directory? parent with
    | none => .noParent
    | some c =>
      match Nodes.get? name c.children with
      | some (.directory ..) => .isDirectory
      | _ => .written

/-- The tree with a file of that content at the path, a new one or in place of the old one. A
directory is not made and not replaced. -/
def write (t : Tree) (path content : Text) : Tree × WriteOutcome :=
  let (parent, name) := Path.split path
  match t.writeOutcome path with
  | .written =>
    (t.changeAt parent fun p ns => Nodes.upsert p (Node.newFile name (some content)) ns, .written)
  | outcome => (t, outcome)

/-- The tree with an empty directory in the one at `path`, unless the name is taken there. -/
def makeDirectory (t : Tree) (path name : Text) : Tree :=
  t.changeAt path fun p ns => (Nodes.add? p (Node.newDirectory name []) ns).getD ns

end Tree

/-! ## Making the directories of a path -/

/-- Where making the directories of a path ended. -/
inductive Ensured
  | found (path : Text)
  | blocked
  | invalid (segment : Text)
deriving DecidableEq

def Nodes.ensure (parent : Text) (nodes : List Node) : List Text → List Node × Ensured
  | [] => (nodes, .found parent)
  | s :: rest =>
    match Nodes.get? s nodes with
    | none =>
      if Path.isName s then
        let path := Path.join parent s
        let (children, ensured) := ensure path [] rest
        (nodes ++ [.directory s path children], ensured)
      else (nodes, .invalid s)
    | some (.file _) => (nodes, .blocked)
    | some (.directory name path children) =>
      let (children, ensured) := ensure path children rest
      (Nodes.modify s (fun _ => .directory name path children) nodes, ensured)

def Tree.ensure (t : Tree) (path : Text) : Tree × Ensured :=
  let (children, ensured) := Nodes.ensure Path.root t.children (Path.segments path)
  (⟨children⟩, ensured)

/-! ## Storing results -/

inductive StoreFault
  | blocked (path segment : Text)
  | isDirectory (path : Text)
  | unreachable (path : Text)
deriving DecidableEq

def StoreFault.message : StoreFault → Text
  | .blocked path segment => "cannot store " ++ path ++ ": /" ++ segment ++ " is not a directory"
  | .isDirectory path => "cannot store " ++ path ++ ": it is a directory"
  | .unreachable path => "cannot store " ++ path

/-- What stands in the way of a file called `name` at the end of the segments. -/
def Nodes.obstacle? (path name : Text) (nodes : List Node) : List Text → Option StoreFault
  | [] =>
    match Nodes.get? name nodes with
    | some (.directory ..) => some (.isDirectory path)
    | _ => none
  | s :: rest =>
    match Nodes.get? s nodes with
    | none => none
    | some (.file _) => some (.blocked path s)
    | some (.directory _ _ children) => obstacle? path name children rest

namespace Tree

def obstacle? (t : Tree) (path : Text) : Option StoreFault :=
  Nodes.obstacle? path (Path.split path).2 t.children (Path.segments path).dropLast

def store (t : Tree) (path content : Text) : Except StoreFault Tree :=
  let (parent, name) := Path.split path
  match t.ensure parent with
  | (t, .found _) =>
    .ok (t.changeAt parent fun p ns => Nodes.upsert p (Node.newFile name (some content)) ns)
  | _ => .error (.unreachable path)

def storeEach (t : Tree) : List (Text × Text) → Except StoreFault Tree
  | [] => .ok t
  | (path, content) :: entries =>
    match t.store path content with
    | .ok t => t.storeEach entries
    | .error fault => .error fault

/-- The tree with all the files, or the first obstacle if any has one. -/
def storeAll (t : Tree) (entries : List (Text × Text)) : Except StoreFault Tree :=
  match entries.findSome? fun (path, _) => t.obstacle? path with
  | some fault => .error fault
  | none => t.storeEach entries

end Tree

end ThreatDesk
