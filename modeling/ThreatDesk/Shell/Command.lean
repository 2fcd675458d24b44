import ThreatDesk.Shell.Persistence
import ThreatDesk.Shell.Verb

/-!
# Short commands

The verbs that are done at once. Each takes the words behind it, or the whole line, and goes on with
the answer.
-/

namespace ThreatDesk

namespace Shell

def usage (a : Answer) (form : Text) : Answer := a.error ("Usage: " ++ form)

/-! ## The session -/

def version (a : Answer) : Answer :=
  let a := a.system ("CURRENT VERSION: " ++ a.session.version)
  if a.session.loadedName.isEmpty then a else a.system ("LOADED IMAGE: " ++ a.session.loadedName)

def clear (a : Answer) : Answer := a.withSession fun s => { s with lines := [] }

def stateText (s : Session) : Text :=
  match s.lastOutcome with
  | some outcome =>
    if s.isBusy then s.state.toText else s.state.toText ++ " (LAST: " ++ outcome.toText ++ ")"
  | none => s.state.toText

def status (a : Answer) : Answer :=
  let s := a.session
  let a := a.sayAll .output
    ["STATE: " ++ stateText s, "VER: " ++ s.version, "CWD: " ++ s.cwd]
  match a.desk.site.keys.source a.desk.host with
  | .error fault => a.fail (.host fault)
  | .ok source =>
    let a := a.output ("KEY: " ++ source.toText)
    let a := a.output ("FILES: " ++ Text.ofNat (Node.allFiles s.tree.children).length)
    match s.activeFile with
    | some f => a.output ("OPEN: " ++ f.path)
    | none => a

def setKey (a : Answer) : List Text → Answer
  | [] => usage a "setkey <KEY>"
  | key :: _ =>
    match a.desk.site.keys.set a.desk.host key with
    | (host, none) => (a.withHost host).success "KEY UPDATED."
    | (host, some fault) =>
      let a := a.withHost host
      if fault.isSystem then a.error ("setkey: " ++ fault.message) else a.fail (.host fault)

/-! ## The tree -/

def resolved (a : Answer) (word : Text) : Text := Path.resolve a.session.cwd word

def list (a : Answer) (args : List Text) : Answer :=
  let target :=
    match args with
    | [] => a.session.cwd
    | word :: _ => resolved a word
  match a.session.tree.directory? target with
  | none => a.error "Access denied."
  | some c => a.sayAll .output c.listing

def changeDirectory (a : Answer) : List Text → Answer
  | [] => a.withSession fun s => { s with cwd := Path.root }
  | word :: _ =>
    let target := resolved a word
    match a.session.tree.directory? target with
    | none => a.error ("cd: no such directory: " ++ word)
    | some _ => a.withSession fun s => { s with cwd := target }

def makeDirectory (a : Answer) : List Text → Answer
  | [] => usage a "mkdir [name]"
  | name :: _ =>
    if !Path.isName name then a.error ("mkdir: invalid name: " ++ name)
    else
      match a.session.tree.directory? a.session.cwd with
      | none => a.error ("mkdir: no such directory: " ++ a.session.cwd)
      | some c =>
        if Nodes.has name c.children then a.error ("mkdir: exists: " ++ name)
        else
          (a.withTree (a.session.tree.makeDirectory a.session.cwd name)).success
            ("Created: " ++ name)

def read (a : Answer) : List Text → Answer
  | [] => usage a "cat [file]"
  | word :: _ =>
    match a.session.tree.file? (resolved a word) with
    | none => a.error ("cat: not found: " ++ word)
    | some f =>
      ((a.withSession fun s => { s with activeFile := some f }).success
        ("READING " ++ f.name ++ "...")).output f.text

/-- Writing where the directory is missing does nothing and says nothing. -/
def write (a : Answer) (raw : Text) : List Text → Answer
  | [] => usage a "write [path] [content]"
  | word :: _ =>
    let target := resolved a word
    match a.session.tree.write target (raw.argument 2) with
    | (tree, .written) => (a.withTree tree).success ("Wrote: " ++ target)
    | (_, .isDirectory) => a.error ("write: is a directory: " ++ word)
    | (_, .invalidName) => a.error ("write: invalid path: " ++ word)
    | (_, .noParent) => a

def find (a : Answer) : List Text → Answer
  | [] => usage a "find [name]"
  | needle :: _ =>
    match a.session.tree.find needle with
    | [] => a.system "No matches found."
    | paths => a.sayAll .output paths

/-- Only a script can be run, and running it is a show. -/
def run (a : Answer) : List Text → Answer
  | [] => usage a "run [script]"
  | word :: _ =>
    let invalid := a.error ("run: invalid target: " ++ word)
    match a.session.tree.file? (resolved a word) with
    | none => invalid
    | some f =>
      if f.name.endsWith ".py" then
        (a.sayAll .system
          ["SPAWNING PYTHON PROCESS: " ++ f.name, "[PROC] PID 1337 started.",
           "[PROC] Importing modules..."]).success "[STDOUT] Execution complete."
      else invalid

end Shell

end ThreatDesk
