import ThreatDesk.Host.Store
import ThreatDesk.Text.Blank

/-!
# The key

A key comes from a variable of the environment or, where that is empty, from a file.
-/

namespace ThreatDesk

structure KeyStore where
  path : HostPath
  variableName : Text

inductive KeySource
  | environment
  | file
  | missing
deriving DecidableEq

def KeySource.toText : KeySource → Text
  | .environment => "ENV"
  | .file => "LOCAL"
  | .missing => "MISSING"

namespace KeyStore

def defaultVariable : Text := "ANTHROPIC_API_KEY"

def present? (t : Text) : Option Text := if t.isEmpty then none else some t

def fromFile (k : KeyStore) (h : Host) : Except Host.Fault (Option Text) :=
  match h.exists? k.path with
  | .error fault => .error fault
  | .ok false => .ok none
  | .ok true => (h.readText k.path).map fun t => present? t.trim

def find (k : KeyStore) (h : Host) : Except Host.Fault (Option (Text × KeySource)) :=
  match (h.getEnv? k.variableName).bind present? with
  | some key => .ok (some (key, .environment))
  | none => (k.fromFile h).map fun key => key.map fun t => (t, .file)

def key (k : KeyStore) (h : Host) : Except Host.Fault (Option Text) :=
  (k.find h).map fun found => found.map (·.1)

def source (k : KeyStore) (h : Host) : Except Host.Fault KeySource :=
  (k.find h).map fun found =>
    match found with
    | some (_, source) => source
    | none => .missing

def emptied (k : KeyStore) (h : Host) : Except Host.Fault Host := h.writeBytes k.path []

/-- The host with the key in its file, which is for its owner alone, and what went wrong if
something did. -/
def set (k : KeyStore) (h : Host) (key : Text) : Host × Option Host.Fault :=
  match h.makeDirectories k.path.parent with
  | (made, some fault) => (made, some fault)
  | (made, none) =>
    match k.emptied made with
    | .error fault => (made, some fault)
    | .ok opened =>
      match Utf8.encode (key.trim ++ [Text.newline]) with
      | .error fault => (opened, some (.unencodable fault))
      | .ok bytes =>
        match opened.writeBytes k.path bytes with
        | .error fault => (opened, some fault)
        | .ok written => (written.restrict k.path, none)

end KeyStore

end ThreatDesk
