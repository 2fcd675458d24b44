import ThreatDesk.Host.Store
import ThreatDesk.Engine.Arguments
import ThreatDesk.Snapshot.Basic

/-!
# Faults

Everything that can end a command or an engine's work ahead of time, apart from an engine's own
failures.
-/

namespace ThreatDesk

inductive Fault
  | host (fault : Host.Fault)
  | snapshot (fault : Snapshot.Fault)
  | integer (fault : Integer.Fault)
  | calendar (fault : Calendar.Fault)
  | clock (fault : Number.Fault)
  | unencodable (fault : Encoding.EncodeFault)
  | nested (inObject : Bool)
  | tooDeep
  | noClient (message : Text)
  | value (message : Text)
  | noAttribute (name : Text)
  | notText (index : Nat) (kind : Text)
  | arguments (fault : Arguments.Fault)

def Fault.message : Fault → Text
  | .host fault => fault.message
  | .snapshot fault => fault.message
  | .integer fault => fault.message
  | .calendar fault => fault.message
  | .clock fault => fault.message
  | .unencodable fault => fault.message
  | .nested inObject => Json.Fault.message (.nested inObject)
  | .tooDeep => "maximum recursion depth exceeded"
  | .noClient message => message
  | .value message => message
  | .noAttribute name => "'types.SimpleNamespace' object has no attribute '" ++ name ++ "'"
  | .notText index kind =>
    "sequence item " ++ Text.ofNat index ++ ": expected str instance, " ++ kind ++ " found"
  | .arguments fault => fault.message

/-- A value with parts stands where something is looked up. -/
def Fault.notAtom (v : Json) : Fault := .arguments (.notName v.kindName)

def Fault.textsFrom (index : Nat) : List Json → Except Fault (List Text)
  | [] => .ok []
  | .text t :: vs => (textsFrom (index + 1) vs).map (t :: ·)
  | v :: _ => .error (.notText index v.kindName)

def Fault.ofRead : Snapshot.ReadFault → Fault
  | .rejected fault => .snapshot fault
  | .number fault => .integer fault

def Fault.ofWrite : Snapshot.WriteFault → Fault
  | .nested => .tooDeep
  | .number fault => .integer fault
  | .unencodable fault => .unencodable fault

/-- Whether a fault is one that saving and loading report as their own failure: the system objected,
or a document is no snapshot. -/
def Fault.isReported : Fault → Bool
  | .host fault => fault.isSystem
  | .snapshot _ => true
  | .calendar .beyondYears => true
  | _ => false

end ThreatDesk
