import ThreatDesk.Shell.Run
import ThreatDesk.Shell.Completion
import ThreatDesk.Text.Quoted

/-!
# The hub

One desk, and engines by name, of which the one that the settings choose is asked. Main statement: an
engine is found under the name that it was last registered with (`find?_register`).

Sources are taken one after the other here. What holds where they take turns, while an engine is waited
for, is proved of `Shell.Floor`, whose steps may come in any order; it is not proved that a hub makes them.
-/

namespace ThreatDesk

structure Hub (σ : Type) where
  engines : List (Text × Engine σ)
  chosen : Text
  state : σ
  desk : Desk

namespace Hub

variable {σ : Type}

inductive Fault
  | noEngines
  | unregistered (name : Text) (registered : List Text)
  | clock (fault : Number.Fault)

def Fault.message : Fault → Text
  | .noEngines => "No engines registered. Call add_engine() first."
  | .unregistered name registered =>
    "Engine '" ++ name ++ "' not registered. Available: " ++ Shown.items (registered.map Text.quoted)
  | .clock fault => fault.message

/-- The engines with one more; one of the same name gives up its place to it. -/
def registerIn (name : Text) (engine : Engine σ) : List (Text × Engine σ) → List (Text × Engine σ)
  | [] => [(name, engine)]
  | (n, e) :: es => if n = name then (n, engine) :: es else (n, e) :: registerIn name engine es

def register (h : Hub σ) (name : Text) (engine : Engine σ) : Hub σ :=
  { h with engines := registerIn name engine h.engines }

def find? (h : Hub σ) (name : Text) : Option (Engine σ) :=
  (h.engines.find? fun (n, _) => n = name).map (·.2)

theorem find?_register (h : Hub σ) (name : Text) (engine : Engine σ) :
    (h.register name engine).find? name = some engine := by
  simp only [find?, register]
  fun_induction registerIn name engine h.engines with
  | case1 => simp
  | case2 e es => simp
  | case3 n e es hn ih => simpa [hn] using ih

def engine (h : Hub σ) : Except Fault (Engine σ) :=
  match h.find? h.chosen with
  | some e => .ok e
  | none => .error (.unregistered h.chosen (h.engines.map (·.1)))

def handle (h : Hub σ) (raw : Text) : Except Fault (Hub σ) :=
  match h.engine with
  | .error fault => .error fault
  | .ok engine =>
    match Shell.execute engine h.state h.desk raw with
    | .error refusal => .error (.clock refusal.fault)
    | .ok outcome => .ok { h with state := outcome.engine, desk := outcome.answer.desk }

def handleAll (h : Hub σ) : List Text → Hub σ × Option Fault
  | [] => (h, none)
  | raw :: rest =>
    match h.handle raw with
    | .ok h => handleAll h rest
    | .error fault => (h, some fault)

/-- Take in what comes from outside, where no source has to wait: one source after the other. -/
def start (h : Hub σ) (sources : List (List Text)) : Hub σ × Option Fault :=
  if h.engines.isEmpty then (h, some .noEngines) else h.handleAll sources.flatten

def complete (h : Hub σ) (text : Text) : Except Fault Text :=
  h.engine.map fun _ =>
    Completion.suggest Verb.names h.desk.session.cwd (some h.desk.session.tree) text

end Hub

end ThreatDesk
