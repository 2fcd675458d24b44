import ThreatDesk.Toml.Basic
import ThreatDesk.Json.Basic
import ThreatDesk.Text.Integer
import ThreatDesk.Text.Quoted

/-!
# What TOML values stand for

Their kinds, whether they count as something, their JSON and their text in messages. An integer in a
message must not be too long to be written.
-/

namespace ThreatDesk

namespace Toml

def kindName : Toml → Text
  | .bool _ => "bool"
  | .integer _ => "int"
  | .real _ => "float"
  | .text _ => "str"
  | .moment m => m.kindName
  | .array _ => "list"
  | .table _ => "dict"

/-- The kinds of values where a moment goes by its own kind alone. -/
def shortKindName : Toml → Text
  | .moment m => m.kind
  | v => v.kindName

def text? : Toml → Option Text
  | .text t => some t
  | _ => none

def isPresent : Toml → Bool
  | .bool b => b
  | .integer n => n ≠ 0
  | .real x => !x.isZero
  | .text t => !t.isEmpty
  | .moment _ => true
  | .array items => !items.isEmpty
  | .table entries => !entries.isEmpty

mutual

def toJson : Toml → Json
  | .bool b => .bool b
  | .integer n => .number (.integer n)
  | .real x => .number (.real x)
  | .text t => .text t
  | .moment m => .text m.toText
  | .array items => .array (itemsToJson items)
  | .table entries => .object (entriesToJson entries)

def itemsToJson : List Toml → List Json
  | [] => []
  | v :: vs => toJson v :: itemsToJson vs

def entriesToJson : List (Text × Toml) → List (Text × Json)
  | [] => []
  | (k, v) :: es => (k, toJson v) :: entriesToJson es

end

/-! ## Values in messages -/

mutual

def inner : Toml → Except Integer.Fault Text
  | .bool b => .ok (Shown.truth b)
  | .integer n => Integer.toText n
  | .real x => .ok x.toText
  | .text t => .ok t.quoted
  | .moment m => .ok m.inner
  | .array items => (innerItems items).map Shown.items
  | .table entries => (innerEntries entries).map Shown.entries

def innerItems : List Toml → Except Integer.Fault (List Text)
  | [] => .ok []
  | v :: vs => do return (← inner v) :: (← innerItems vs)

def innerEntries : List (Text × Toml) → Except Integer.Fault (List Text)
  | [] => .ok []
  | (k, v) :: es => do return Shown.entry k (← inner v) :: (← innerEntries es)

end

def shown : Toml → Except Integer.Fault Text
  | .text t => .ok t
  | .moment m => .ok m.toText
  | v => inner v

end Toml

end ThreatDesk
