import ThreatDesk.Hub.Terminal
import ThreatDesk.Engine.Online
import ThreatDesk.Settings

/-!
# The program

What the arguments ask for: the shell at a terminal, or whether the engine answers.
-/

namespace ThreatDesk

namespace Program

inductive Task
  | shell
  | health
  | usage
deriving DecidableEq

/-- Only the first argument counts. -/
def Task.ofArguments : List Text → Task
  | [] => .shell
  | word :: _ =>
    if word = "shell" || word = "repl" then .shell else if word = "health" then .health else .usage

def usage : Text :=
  "Usage: python -m retrodeck [shell|health]\n" ++
  "  shell   Interactive terminal shell (default)\n" ++
  "  health  Check the engine and API key\n"

inductive Fault
  | settings (fault : Settings.Fault)
  | notLevel (kind : Text)
  | unknownEngine (shown : Text)
  | integer (fault : Integer.Fault)
  | session (fault : ThreatDesk.Fault)
  | engine (fault : ThreatDesk.Fault)

def Fault.message : Fault → Text
  | .settings fault => fault.message
  | .notLevel kind => "'" ++ kind ++ "' object has no attribute 'upper'"
  | .unknownEngine shown => "Unknown engine: " ++ shown
  | .integer fault => fault.message
  | .session fault => fault.message
  | .engine fault => fault.message

/-! ## Beginning -/

/-- The settings in force; the level for the log must be text. -/
def settings (h : Host) : Except Fault Settings :=
  match Settings.load h none with
  | .error fault => .error (.settings fault)
  | .ok s =>
    match s.logLevel with
    | .text _ => .ok s
    | v => .error (.notLevel v.kindName)

def keys (s : Settings) : KeyStore := ⟨s.keyFile, KeyStore.defaultVariable⟩

def serviceConfig (s : Settings) : Engine.ServiceConfig :=
  ⟨s.engine.model.toJson, s.engine.maxTokens, s.engine.timeout⟩

def checkEngine (s : Settings) : Except Fault Unit :=
  if s.engine.name.text? = some Settings.onlineEngine then .ok ()
  else
    match s.engine.name.shown with
    | .ok shown => .error (.unknownEngine shown)
    | .error fault => .error (.integer fault)

variable {τ : Type}

def terminal (h : Host) (moduleRoot : HostPath) (client : Client τ) (state : τ)
    (drawn : Nat → Nat := id) : Except Fault (Terminal (Engine.Online τ)) := do
  let s ← settings h
  let session ← (Session.new ((Baseline.read h moduleRoot).mapError .host)
    ((Calendar.milliseconds h.clock).mapError .clock) Baseline.version drawn).mapError .session
  checkEngine s
  let site : Site := ⟨⟨s.exportDirectory⟩, keys s, moduleRoot, s.engine.maxToolRounds⟩
  let hub : Hub (Engine.Online τ) :=
    ⟨[], Settings.onlineEngine, ⟨none, state⟩, ⟨site, session, [], h⟩⟩
  return ⟨hub.register Settings.onlineEngine (Engine.online client (keys s) (serviceConfig s)),
    false, true⟩

def opening (t : Terminal (Engine.Online τ)) : Text :=
  match t.hub.desk.session.lines.getLast? with
  | some l => Terminal.render t.color l
  | none => []

def health (h : Host) (client : Client τ) (state : τ) : Except Fault Bool := do
  let s ← settings h
  checkEngine s
  let work := Engine.Service.health (client.link (keys s)) (serviceConfig s)
  match ((⟨none, state⟩ : Engine.Online τ).run h work).reply with
  | .ok answers => return answers
  | .error (.fault fault) => throw (.engine fault)
  | .error _ => return false

def healthReport (answers : Bool) : Text :=
  Settings.onlineEngine ++ (if answers then (": OK\n" : Text) else ": UNAVAILABLE\n")

end Program

end ThreatDesk
