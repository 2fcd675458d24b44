import ThreatDesk.Tree.Path

/-!
# Nodes

A file or a directory with its children in order. Every node keeps its own path; `rebase` gives a
subtree the paths that go with its place.
-/

namespace ThreatDesk

structure File where
  name : Text
  path : Text
  content : Option Text
deriving DecidableEq

def File.text (f : File) : Text := f.content.getD []

inductive Node
  | file (f : File)
  | directory (name path : Text) (children : List Node)

namespace Node

def name : Node → Text
  | .file f => f.name
  | .directory name _ _ => name

def path : Node → Text
  | .file f => f.path
  | .directory _ path _ => path

def children : Node → List Node
  | .file _ => []
  | .directory _ _ children => children

def isDirectory : Node → Bool
  | .file _ => false
  | .directory .. => true

def file? : Node → Option File
  | .file f => some f
  | .directory .. => none

mutual

def decEq : (m n : Node) → Decidable (m = n)
  | .file f, .file g => decidable_of_iff (f = g) (by simp)
  | .directory a p cs, .directory b q ds =>
    match decEqList cs ds with
    | isTrue h => decidable_of_iff (a = b ∧ p = q) (by simp [h])
    | isFalse h => isFalse (by simp [h])
  | .file _, .directory .. => isFalse (by simp)
  | .directory .., .file _ => isFalse (by simp)

def decEqList : (ms ns : List Node) → Decidable (ms = ns)
  | [], [] => isTrue rfl
  | m :: ms, n :: ns =>
    match decEq m n, decEqList ms ns with
    | isTrue h, isTrue hs => isTrue (by rw [h, hs])
    | isFalse h, _ => isFalse (by simp [h])
    | _, isFalse hs => isFalse (by simp [hs])
  | [], _ :: _ => isFalse (by simp)
  | _ :: _, [] => isFalse (by simp)

end

instance : DecidableEq Node := decEq

mutual

/-- The node as a child of the directory at `parent`. -/
def rebase (parent : Text) : Node → Node
  | .file f => .file { f with path := Path.join parent f.name }
  | .directory name _ children =>
    .directory name (Path.join parent name) (rebaseAll (Path.join parent name) children)

def rebaseAll (parent : Text) : List Node → List Node
  | [] => []
  | n :: ns => rebase parent n :: rebaseAll parent ns

end

mutual

/-- Whether the node stands rightly under the directory at `parent`: its name is valid, its path
goes with its place, and so with the children, whose names differ. -/
def WellPlaced (parent : Text) : Node → Prop
  | .file f => Path.isName f.name ∧ f.path = Path.join parent f.name
  | .directory name path children =>
    Path.isName name ∧ path = Path.join parent name ∧ WellPlacedAll path children

def WellPlacedAll (parent : Text) : List Node → Prop
  | [] => True
  | n :: ns => WellPlaced parent n ∧ (∀ m ∈ ns, m.name ≠ n.name) ∧ WellPlacedAll parent ns

end

/-- A file that has just been made; it belongs to the root until it is put elsewhere. -/
def newFile (name : Text) (content : Option Text) : Node :=
  .file ⟨name, Path.join Path.root name, content⟩

def newDirectory (name : Text) (children : List Node) : Node :=
  .directory name (Path.join Path.root name) (rebaseAll (Path.join Path.root name) children)

end Node

/-! ## Children of one directory -/

namespace Nodes

def get? (name : Text) : List Node → Option Node
  | [] => none
  | n :: ns => if n.name = name then some n else get? name ns

def has (name : Text) (ns : List Node) : Bool := (get? name ns).isSome

/-- The children with the first one of that name changed. -/
def modify (name : Text) (change : Node → Node) : List Node → List Node
  | [] => []
  | n :: ns => if n.name = name then change n :: ns else n :: modify name change ns

/-- The children with `node` in the place of the first one of its name, or last. -/
def upsert (parent : Text) (node : Node) : List Node → List Node
  | [] => [node.rebase parent]
  | n :: ns => if n.name = node.name then node.rebase parent :: ns else n :: upsert parent node ns

def add? (parent : Text) (node : Node) (ns : List Node) : Option (List Node) :=
  if has node.name ns then none else some (ns ++ [node.rebase parent])

def remove (name : Text) : List Node → List Node
  | [] => []
  | n :: ns => if n.name = name then ns else n :: remove name ns

end Nodes

structure Tree where
  children : List Node
deriving DecidableEq

/-- A directory as a place: its path and its children. The root is one too. -/
structure Container where
  path : Text
  children : List Node

namespace Tree

def root (t : Tree) : Container := ⟨Path.root, t.children⟩

/-- The tree of those nodes, with the paths that go with their places. -/
def ofNodes (nodes : List Node) : Tree := ⟨Node.rebaseAll Path.root nodes⟩

def WellFormed (t : Tree) : Prop := Node.WellPlacedAll Path.root t.children

end Tree

end ThreatDesk
