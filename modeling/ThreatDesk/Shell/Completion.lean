import ThreatDesk.Shell.Verb
import ThreatDesk.Tree.Lookup

/-!
# Completion

What to add to a line that is being typed: the rest of a verb, or of the name of a node behind it.
-/

namespace ThreatDesk

namespace Completion

def shortest : List Text → Option Text
  | [] => none
  | t :: ts =>
    match shortest ts with
    | none => some t
    | some u => if u.length < t.length then some u else some t

/-- The rest of the shortest verb that goes on from `text`, in any case. -/
def ofVerb (verbs : List Text) (text : Text) : Text :=
  if text.isEmpty then []
  else
    let typed := text.lower
    match shortest (verbs.filter fun v => v.startsWith typed && typed.length < v.length) with
    | some best => best.drop typed.length
    | none => []

/-- The directory part of a path that is being typed, with its separator, and the name begun. -/
def splitTyped (token : Text) : Text × Text :=
  match Text.splitAtLast? Path.separator token with
  | some (before, name) => (before ++ [Path.separator], name)
  | none => ([], token)

def directoryOf? (tree : Tree) (cwd part : Text) : Option Container :=
  tree.directory? (if part.isEmpty then cwd else Path.resolve cwd part)

/-- The rest of the name of the first child that goes on from what is typed; a directory is followed
by a separator. -/
def ofPath (tree : Tree) (cwd token : Text) : Text :=
  let (part, typed) := splitTyped token
  match directoryOf? tree cwd part with
  | none => []
  | some c =>
    match c.children.find? fun n => n.name.startsWith typed with
    | none => []
    | some n => n.name.drop typed.length ++ (if n.isDirectory then [Path.separator] else [])

def lastToken (text : Text) : Text := (text.reverse.takeWhile fun c => !c.isBlank).reverse

def suggest (verbs : List Text) (cwd : Text) (tree : Option Tree) (text : Text) : Text :=
  if !text.any CodePoint.isBlank then ofVerb verbs text
  else
    match tree with
    | none => []
    | some tree => ofPath tree cwd (lastToken text)

end Completion

structure InputBuffer where
  verbs : List Text
  tree : Option Tree
  cwd : Text
  text : Text
  suggestion : Text

namespace InputBuffer

def refresh (b : InputBuffer) : InputBuffer :=
  { b with suggestion := Completion.suggest b.verbs b.cwd b.tree b.text }

def type (b : InputBuffer) (typed : Text) : InputBuffer :=
  refresh { b with text := b.text ++ typed }

def backspace (b : InputBuffer) : InputBuffer := refresh { b with text := b.text.dropLast }

def accept (b : InputBuffer) : InputBuffer :=
  { b with text := b.text ++ b.suggestion, suggestion := [] }

def submit (b : InputBuffer) : InputBuffer := { b with text := [], suggestion := [] }

end InputBuffer

end ThreatDesk
