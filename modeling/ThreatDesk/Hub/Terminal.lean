import ThreatDesk.Hub.Basic

/-!
# The terminal

What a terminal shows: a banner, a prompt before every line, and every line of the history as soon as
it is said, but for what was typed there.
-/

namespace ThreatDesk

structure Terminal (σ : Type) where
  hub : Hub σ
  color : Bool
  /-- Whether the prompt shows the directory of the session, and not just the root. -/
  followsSession : Bool

inductive Typed
  | line (text : Text)
  | interrupt
  | endOfInput

namespace Terminal

variable {σ : Type}

def promptFor (place : Text) : Text := "retrodeck:" ++ place ++ "$ "

def banner : Text :=
  "NetSec RetroDeck (type 'help' for commands, 'exit' or Ctrl+D to quit)\n" ++
    Text.replicate 60 "-" ++ "\n"

def reset : Text := "\x1b[0m"
def clearScreen : Text := "\x1b[2J\x1b[H"

def colorOf? : LineKind → Option Text
  | .system => some "\x1b[36m"
  | .error => some "\x1b[31m"
  | .success => some "\x1b[32m"
  | .input | .output => none

def farewell : Text := "Bye!\n"

def isFarewell (line : Text) : Bool :=
  let word := line.trim.lower
  word = "exit" || word = "quit"

def render (color : Bool) (l : Line) : Text :=
  if l.kind = .input then []
  else
    match if color then colorOf? l.kind else none with
    | some c => c ++ l.text ++ reset ++ "\n"
    | none => l.text ++ "\n"

def prompt (t : Terminal σ) : Text :=
  promptFor (if t.followsSession then t.hub.desk.session.cwd else Path.root)

def clears (line : Text) : Bool :=
  match line.words with
  | word :: _ => word.lower = "clear"
  | [] => false

def respond (t : Terminal σ) : Typed → Except Hub.Fault (Terminal σ × Text × Bool)
  | .interrupt => .ok (t, "\n" ++ farewell, false)
  | .endOfInput => .ok (t, farewell, false)
  | .line typed =>
    let line := typed.trim
    if isFarewell line then .ok (t, farewell, false)
    else if line.isEmpty then .ok (t, [], true)
    else
      (t.hub.handle line).map fun hub =>
        let heard := hub.desk.session.told.drop t.hub.desk.session.told.length
        let shown := heard.flatMap (render t.color)
        let cleared := if t.color && clears line then clearScreen else []
        ({ t with hub := hub }, shown ++ cleared, true)

inductive Shown
  | prompt (text : Text)
  | text (text : Text)

/-- Read what is typed up to the end; what is shown is put behind `shown` in reverse. -/
def readAll (t : Terminal σ) (shown : List Shown) :
    List Typed → Terminal σ × List Shown × Option Hub.Fault
  | [] => (t, .text farewell :: .prompt t.prompt :: shown, none)
  | typed :: rest =>
    let shown := .prompt t.prompt :: shown
    match t.respond typed with
    | .error fault => (t, shown, some fault)
    | .ok (t, text, true) => readAll t (.text text :: shown) rest
    | .ok (t, text, false) => (t, .text text :: shown, none)

def run (t : Terminal σ) (typed : List Typed) : Terminal σ × List Shown × Option Hub.Fault :=
  let (t, shown, fault) := readAll t [.text banner] typed
  (t, shown.reverse, fault)

/-! ## Typed bytes -/

/-- The lines of some bytes, without their line feeds; what follows the last one is a line if it is
not empty. -/
def linesOf (read : Bytes) : Bytes → List Bytes
  | [] => if read.isEmpty then [] else [read.reverse]
  | b :: bs => if b = 0x0A then read.reverse :: linesOf [] bs else linesOf (b :: read) bs

def typedOf (bytes : Bytes) : List Typed :=
  (linesOf [] bytes).map fun line => .line (Utf8.scheme.lossy line)

/-! ## Completion by key -/

/-- What takes the place of the word that is being typed, at the first request for it. -/
def completeWord (t : Terminal σ) (line word : Text) (request : Nat) :
    Except Hub.Fault (Option Text) :=
  if request > 0 then .ok none
  else
    (t.hub.complete line).map fun suffix =>
      if suffix.isEmpty then none else some (word ++ suffix)

end Terminal

end ThreatDesk
