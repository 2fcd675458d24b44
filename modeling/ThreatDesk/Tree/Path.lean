import ThreatDesk.Text.Basic

/-!
# Names and paths

A path is text; it names a place in the tree through its segments alone. Main statement: resolving a
relative target is a fold of its segments over those of the directory it starts from (`resolve_eq`).
-/

namespace ThreatDesk

namespace Path

def separator : CodePoint := '/'

def root : Text := "/"

def join (parent name : Text) : Text := if parent = root then root ++ name else parent ++ "/" ++ name

/-- A name is one segment, and no relative marker. -/
def isName (name : Text) : Bool :=
  !name.isEmpty && !name.contains separator && name ≠ "." && name ≠ ".."

def segments (path : Text) : List Text := (path.splitOn separator).filter fun s => !s.isEmpty

def ofSegments (segments : List Text) : Text := root ++ Text.intercalate "/" segments

/-- One segment of a relative target, on the segments passed so far, innermost first. -/
def enter (stack : List Text) (segment : Text) : List Text :=
  if segment = "." then stack else if segment = ".." then stack.tail else segment :: stack

/-- The absolute path that `target` means in directory `cwd`. An absolute target stands as it is, but
for one separator at its end. -/
def resolve (cwd target : Text) : Text :=
  match target with
  | [] => cwd
  | c :: rest =>
    if c = separator then
      if rest ≠ [] ∧ target.getLast? = some separator then target.dropLast else target
    else ofSegments ((segments target).foldl enter (segments cwd).reverse).reverse

/-- The directory part and the last name of a path. -/
def split (path : Text) : Text × Text :=
  let orRoot (t : Text) : Text := if t.isEmpty then root else t
  match Text.splitAtLast? separator path with
  | some (before, leaf) => (orRoot before, leaf)
  | none => (orRoot path.dropLast, path)

theorem resolve_eq {target : Text} (cwd : Text) (h : target ≠ [])
    (hs : target.head? ≠ some separator) :
    resolve cwd target =
      ofSegments ((segments target).foldl enter (segments cwd).reverse).reverse := by
  cases target with
  | nil => exact absurd rfl h
  | cons c t =>
    have hc : c ≠ separator := by simpa using hs
    simp [resolve, hc]

end Path

end ThreatDesk
