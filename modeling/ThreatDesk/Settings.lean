import ThreatDesk.Toml.Reader
import ThreatDesk.Toml.Value
import ThreatDesk.Host.Store

/-!
# Settings

Where the shell keeps its files and how its engine works: from the environment, else from a TOML file,
else as built in.
-/

namespace ThreatDesk

structure EngineSettings where
  name : Toml
  model : Toml
  maxTokens : Int
  timeout : Int
  maxToolRounds : Int

structure Settings where
  engine : EngineSettings
  stateDirectory : HostPath
  exportDirectory : HostPath
  keyFile : HostPath
  logLevel : Toml

namespace Settings

inductive Fault
  | toml (fault : Toml.Fault)
  | host (fault : Host.Fault)
  | integer (fault : Integer.Fault)
  | notInteger (kind : Text)
  | number (fault : Number.Fault)
  | notPath (kind : Text)
  | notTable (kind : Text)

def Fault.message : Fault → Text
  | .toml .malformed => "malformed settings"
  | .toml (.tooLong n) => (Integer.Fault.tooLong n).message
  | .toml .nested => "maximum recursion depth exceeded"
  | .host fault => fault.message
  | .integer fault => fault.message
  | .notInteger kind =>
    "int() argument must be a string, a bytes-like object or a real number, not '" ++ kind ++ "'"
  | .number fault => fault.message
  | .notPath kind => "expected str, bytes or os.PathLike object, not " ++ kind
  | .notTable kind => "'" ++ kind ++ "' object has no attribute 'get'"

def fileName : Text := "retrodeck.toml"

def onlineEngine : Text := "anthropic_api"
def defaultModel : Text := "claude-sonnet-4-5-20250929"
def defaultMaxTokens : Int := 4096
def defaultTimeout : Int := 120
def defaultMaxToolRounds : Int := 4
def defaultLogLevel : Text := "WARNING"

/-! ## Finding the file -/

def firstThere (h : Host) : List HostPath → Except Host.Fault (Option HostPath)
  | [] => .ok none
  | p :: ps =>
    match h.exists? p with
    | .error fault => .error fault
    | .ok true => .ok (some p)
    | .ok false => firstThere h ps

/-- The places where the file may be: the one that was asked for, the working directory, the directory
of the shell. -/
def places (h : Host) (stateDirectory : HostPath) (asked : Option HostPath) : List HostPath :=
  asked.toList ++ [⟨"/", h.workingDirectory ++ [fileName]⟩, stateDirectory.child fileName]

def readFile (h : Host) (p : HostPath) : Except Fault Toml.Entries :=
  match h.readText p with
  | .error fault => .error (.host fault)
  | .ok t => (Toml.ofText t).mapError .toml

def readFirst (h : Host) (places : List HostPath) : Except Fault Toml.Entries :=
  match firstThere h places with
  | .error fault => .error (.host fault)
  | .ok none => .ok []
  | .ok (some p) => readFile h p

/-! ## Values -/

def toInteger : Toml → Except Fault Int
  | .bool b => .ok (if b then 1 else 0)
  | .integer n => .ok n
  | .real x => (Number.whole (.real x)).mapError .number
  | .text t => (Integer.ofText t).mapError .integer
  | v => .error (.notInteger v.kindName)

def toPath (h : Host) : Toml → Except Fault HostPath
  | .text t => (h.expandUser (HostPath.ofText t)).mapError .host
  | v => .error (.notPath v.shortKindName)

def pathOr (h : Host) (default : HostPath) : Option Toml → Except Fault HostPath
  | none => .ok default
  | some v => if v.isPresent then toPath h v else .ok default

/-- The value of a variable, else the entry, else the default. -/
def choose (h : Host) (variableName : Text) (entry : Option Toml) (default : Toml) : Toml :=
  match h.getEnv? variableName with
  | some t => .text t
  | none => entry.getD default

def engineEntries (entries : Toml.Entries) : Except Fault Toml.Entries :=
  match entries.get? "engine" with
  | none => .ok []
  | some (.table inner) => .ok inner
  | some v => .error (.notTable v.kindName)

def readEngine (h : Host) (entries : Toml.Entries) : Except Fault EngineSettings := do
  let inner ← engineEntries entries
  let name := choose h "RETRODECK_ENGINE" (inner.get? "name") (.text onlineEngine)
  let model := choose h "RETRODECK_MODEL" (inner.get? "model") (.text defaultModel)
  let maxTokens ← toInteger ((inner.get? "max_tokens").getD (.integer defaultMaxTokens))
  let timeout ←
    toInteger (choose h "RETRODECK_TIMEOUT" (inner.get? "timeout") (.integer defaultTimeout))
  let rounds ← toInteger ((inner.get? "max_tool_rounds").getD (.integer defaultMaxToolRounds))
  return ⟨name, model, maxTokens, timeout, rounds⟩

def homeDirectory (h : Host) : HostPath :=
  match h.getEnv? "RETRODECK_HOME" with
  | some t => HostPath.ofText t
  | none => h.home.child ".retrodeck"

/-- The directory of the shell: what a file says about it counts where the environment is silent. -/
def stateDirectoryOf (h : Host) (entries : Toml.Entries) : Except Fault HostPath :=
  match h.getEnv? "RETRODECK_HOME", entries.get? "state_dir" with
  | none, some v => toPath h v
  | _, _ => .ok (homeDirectory h)

def ofEntries (h : Host) (entries : Toml.Entries) : Except Fault Settings := do
  let directory ← stateDirectoryOf h entries
  let engine ← readEngine h entries
  let exports :=
    match h.getEnv? "RETRODECK_EXPORT_DIR" with
    | some t => some (.text t)
    | none => entries.get? "export_dir"
  let exportDirectory ← pathOr h (directory.child "sessions") exports
  let keyFile ← pathOr h (directory.child "api_key") (entries.get? "key_file")
  let level := choose h "RETRODECK_LOG_LEVEL" (entries.get? "log_level") (.text defaultLogLevel)
  return ⟨engine, directory, exportDirectory, keyFile, level⟩

def load (h : Host) (asked : Option HostPath) : Except Fault Settings := do
  ofEntries h (← readFirst h (places h (homeDirectory h) asked))

end Settings

end ThreatDesk
