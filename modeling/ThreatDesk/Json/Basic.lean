import ThreatDesk.Number.Basic

/-!
# JSON values

The fields of an object keep the order in which their names first came; a name occurs once. Main
statement: a field that has been put is found (`get?_put_self`).
-/

namespace ThreatDesk

inductive Json
  | null
  | bool (b : Bool)
  | number (n : Number)
  | text (t : Text)
  | array (items : List Json)
  | object (fields : List (Text × Json))

namespace Json

abbrev Fields := List (Text × Json)

namespace Fields

def get? (name : Text) : Fields → Option Json
  | [] => none
  | (k, v) :: fields => if k = name then some v else get? name fields

/-- The fields with `name` set to `value`; a new name comes last. -/
def put (name : Text) (value : Json) : Fields → Fields
  | [] => [(name, value)]
  | (k, v) :: fields => if k = name then (k, value) :: fields else (k, v) :: put name value fields

/-- Of several fields of one name the last value stands at the first place. -/
def ofPairs (pairs : List (Text × Json)) : Fields :=
  pairs.foldl (fun fields (k, v) => put k v fields) []

theorem get?_put_self (name : Text) (value : Json) (fields : Fields) :
    get? name (put name value fields) = some value := by
  fun_induction put name value fields with
  | case1 => simp [get?]
  | case2 v fields => simp [get?]
  | case3 k v fields h ih => simp [get?, h, ih]

theorem get?_put_of_ne {name other : Text} (h : other ≠ name) (value : Json) (fields : Fields) :
    get? other (put name value fields) = get? other fields := by
  fun_induction put name value fields with
  | case1 => simp [get?, Ne.symm h]
  | case2 v fields => simp [get?, Ne.symm h]
  | case3 k v fields hk ih => simp [get?, ih]

end Fields

def ofInt (n : Int) : Json := .number (.integer n)

def text? : Json → Option Text
  | .text t => some t
  | _ => none

/-- Whether the value counts as something: not null, false, zero or empty. -/
def isPresent : Json → Bool
  | .null => false
  | .bool b => b
  | .number n => !n.isZero
  | .text t => !t.isEmpty
  | .array items => !items.isEmpty
  | .object fields => !fields.isEmpty

mutual

def nesting : Json → Nat
  | .array vs => nestingItems vs + 1
  | .object fs => nestingFields fs + 1
  | .null | .bool _ | .number _ | .text _ => 0

def nestingItems : List Json → Nat
  | [] => 0
  | v :: vs => max (nesting v) (nestingItems vs)

def nestingFields : List (Text × Json) → Nat
  | [] => 0
  | (_, v) :: fs => max (nesting v) (nestingFields fs)

end

end Json

end ThreatDesk
