import ThreatDesk.Session.Basic
import ThreatDesk.Engine.Request
import ThreatDesk.Archive
import ThreatDesk.KeyStore
import ThreatDesk.Tree.Baseline

/-!
# The desk

Everything that a command line can reach: the session, the conversation with the agent and the host. A
command answers with a desk and the lines that it has said there. Main statement: what an answer has
said is what its session has heard (`told_say`).
-/

namespace ThreatDesk

structure Site where
  archive : Archive
  keys : KeyStore
  moduleRoot : HostPath
  /-- How often the agent may be asked in one command; never less than once. -/
  maxRounds : Int

def Site.rounds (s : Site) : Nat := (max 1 s.maxRounds).toNat

structure Desk where
  site : Site
  session : Session
  dialogue : List Turn
  host : Host

/-- A desk and the lines that a command has said there, all at one time. -/
structure Answer where
  desk : Desk
  now : Int
  said : List Line

namespace Answer

def say (a : Answer) (kind : LineKind) (text : Text) : Answer where
  desk := { a.desk with session := a.desk.session.say a.now kind text }
  now := a.now
  said := a.said ++ [a.desk.session.nextLine a.now kind text]

def output (a : Answer) (text : Text) : Answer := a.say .output text
def system (a : Answer) (text : Text) : Answer := a.say .system text
def success (a : Answer) (text : Text) : Answer := a.say .success text
def error (a : Answer) (text : Text) : Answer := a.say .error text

def sayAll (a : Answer) (kind : LineKind) (texts : List Text) : Answer :=
  texts.foldl (fun a t => a.say kind t) a

/-- A command cannot go on for a reason that it does not report itself. -/
def fail (a : Answer) (fault : Fault) : Answer := a.error ("CRITICAL ERROR: " ++ fault.message)

def session (a : Answer) : Session := a.desk.session

def withSession (a : Answer) (change : Session → Session) : Answer :=
  { a with desk := { a.desk with session := change a.desk.session } }

def withTree (a : Answer) (tree : Tree) : Answer := a.withSession fun s => { s with tree := tree }

def withHost (a : Answer) (host : Host) : Answer := { a with desk := { a.desk with host := host } }

theorem told_say (a : Answer) (kind : LineKind) (text : Text) :
    ∃ line, (a.say kind text).session.told = a.session.told ++ [line] ∧
      (a.say kind text).said = a.said ++ [line] :=
  ⟨_, rfl, rfl⟩

end Answer

namespace Desk

def silent (d : Desk) (now : Int) : Answer := ⟨d, now, []⟩

def modules (d : Desk) : Except Host.Fault (List Baseline.Module) :=
  Baseline.read d.host d.site.moduleRoot

end Desk

end ThreatDesk
