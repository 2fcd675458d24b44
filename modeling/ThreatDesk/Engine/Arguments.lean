import ThreatDesk.Json.Atom

/-!
# Arguments of tool calls

The model names the arguments of a tool in an object. A list of pairs, a name and a value each, does as
well, and then the names need not be texts. Main statement: the fields of an object are found again
(`fields?_ofFields`).
-/

namespace ThreatDesk

abbrev Arguments := List (Json.Atom × Json)

namespace Arguments

inductive Fault
  | notList (kind : Text)
  | notItem (index : Nat)
  | notPair (index length : Nat)
  /-- A value of that kind has parts and names nothing. -/
  | notName (kind : Text)

def Fault.message : Fault → Text
  | .notList kind => "'" ++ kind ++ "' object is not iterable"
  | .notItem index =>
    "cannot convert dictionary update sequence element #" ++ Text.ofNat index ++ " to a sequence"
  | .notPair index length =>
    "dictionary update sequence element #" ++ Text.ofNat index ++ " has length " ++
      Text.ofNat length ++ "; 2 is required"
  | .notName kind => "unhashable type: '" ++ kind ++ "'"

def ofFields (fields : Json.Fields) : Arguments := fields.map fun (k, v) => (.text k, v)

def put (name : Json.Atom) (value : Json) : Arguments → Arguments
  | [] => [(name, value)]
  | (k, v) :: rest => if k.same name then (k, value) :: rest else (k, v) :: put name value rest

/-- The parts of an item: the characters of a text, the names of an object. -/
def parts? : Json → Option (List Json)
  | .array items => some items
  | .text t => some (t.map fun c => .text [c])
  | .object fields => some (fields.map fun (k, _) => .text k)
  | _ => none

def ofItems (read : Arguments) (index : Nat) : List Json → Except Fault Arguments
  | [] => .ok read
  | item :: items =>
    match parts? item with
    | none => .error (.notItem index)
    | some [name, value] =>
      match name.atom? with
      | none => .error (.notName name.kindName)
      | some name => ofItems (put name value read) (index + 1) items
    | some parts => .error (.notPair index parts.length)

/-- The arguments that a value stands for; one that counts as nothing stands for none. -/
def ofJson (v : Json) : Except Fault Arguments :=
  if !v.isPresent then .ok []
  else
    match v with
    | .object fields => .ok (ofFields fields)
    | v =>
      match parts? v with
      | none => .error (.notList v.kindName)
      | some items => ofItems [] 0 items

def fields? : Arguments → Option Json.Fields
  | [] => some []
  | (k, v) :: rest =>
    match k.text?, fields? rest with
    | some k, some fields => some ((k, v) :: fields)
    | _, _ => none

def notTexts (input : Arguments) : List Json.Atom :=
  (input.filter fun (_, v) => v.text?.isNone).map (·.1)

def toJson (input : Arguments) : Json := .object (input.map fun (k, v) => (k.fieldName, v))

theorem fields?_ofFields (fields : Json.Fields) : (ofFields fields).fields? = some fields := by
  induction fields with
  | nil => rfl
  | cons f fields ih =>
    simp only [ofFields] at ih
    simp [ofFields, fields?, Json.Atom.text?, ih]

theorem toJson_ofFields (fields : Json.Fields) : (ofFields fields).toJson = .object fields := by
  simp [toJson, ofFields, List.map_map, Function.comp_def, Json.Atom.fieldName]

end Arguments

end ThreatDesk
