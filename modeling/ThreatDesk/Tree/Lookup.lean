import ThreatDesk.Tree.Node

/-!
# Lookups

What a path names, where a name occurs, and how a directory is listed.
-/

namespace ThreatDesk

/-- The place that the segments lead to, by names of directories alone. -/
def Container.descend (c : Container) : List Text → Option Container
  | [] => some c
  | s :: rest =>
    match Nodes.get? s c.children with
    | some (.directory _ path children) => descend ⟨path, children⟩ rest
    | _ => none

namespace Tree

def directory? (t : Tree) (path : Text) : Option Container := t.root.descend (Path.segments path)

def node? (t : Tree) (path : Text) : Option Node :=
  let (parent, name) := Path.split path
  match t.directory? parent with
  | none => none
  | some c => if name.isEmpty then none else Nodes.get? name c.children

def file? (t : Tree) (path : Text) : Option File :=
  let (parent, name) := Path.split path
  match t.directory? parent with
  | none => none
  | some c => (Nodes.get? name c.children).bind Node.file?

def textAt (t : Tree) (path : Text) : Text :=
  match t.file? path with
  | some f => f.text
  | none => []

end Tree

namespace Node

mutual

/-- The paths, before the node's children and in order, of what has `needle` in its name, if the
node stands under `parent`. -/
def matching (needle parent : Text) : Node → List Text
  | .file f => if Text.occurs needle f.name then [Path.join parent f.name] else []
  | .directory name _ children =>
    let path := Path.join parent name
    (if Text.occurs needle name then [path] else []) ++ matchingAll needle path children

def matchingAll (needle parent : Text) : List Node → List Text
  | [] => []
  | n :: ns => matching needle parent n ++ matchingAll needle parent ns

end

mutual

def files : Node → List File
  | .file f => [f]
  | .directory _ _ children => allFiles children

def allFiles : List Node → List File
  | [] => []
  | n :: ns => files n ++ allFiles ns

end

def entry (n : Node) : Text := (if n.isDirectory then "[DIR]    " else "[FILE]   ") ++ n.name

end Node

def Tree.find (t : Tree) (needle : Text) : List Text :=
  Node.matchingAll needle Path.root t.children

def Container.listing (c : Container) : List Text :=
  if c.children.isEmpty then ["(empty)"] else c.children.map Node.entry

def File.excerpt (f : File) : Text :=
  "--- START OF " ++ f.name ++ " ---\n" ++ f.text ++ "\n--- END OF " ++ f.name ++ " ---"

def Tree.gather (t : Tree) (path : Text) : Text :=
  match t.directory? path with
  | none => []
  | some c => Text.intercalate "\n\n" ((c.children.filterMap Node.file?).map File.excerpt)

end ThreatDesk
