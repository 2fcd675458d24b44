import ThreatDesk.Json.Basic
import ThreatDesk.Text.Quoted

/-!
# Writing JSON

Two layouts: on one line with ASCII alone, for messages and prompts, and indented by two spaces with
every character as it is, for documents. Values are written in front of what follows them. Main
statement: what follows does not change how a value is written (`value_append`). In a message a value is
shown in a layout of its own.
-/

namespace ThreatDesk

namespace Json

namespace Printer

def unit (n : Nat) : Text := "\\u" ++ Text.hex 4 n

def short? (c : CodePoint) : Option Text :=
  if c = '"' then some "\\\""
  else if c = '\\' then some "\\\\"
  else if c = '\n' then some "\\n"
  else if c = '\r' then some "\\r"
  else if c = '\t' then some "\\t"
  else if c.val = 8 then some "\\b"
  else if c.val = 12 then some "\\f"
  else none

/-- A character of a string; beyond ASCII it is escaped if `ascii` is set, in UTF-16 units. -/
def character (ascii : Bool) (c : CodePoint) : Text :=
  match short? c with
  | some t => t
  | none =>
    if c.val < 0x20 then unit c.val
    else if !ascii || c.val < 0x7F then [c]
    else if c.val < 0x10000 then unit c.val
    else
      unit (0xD800 + (c.val - 0x10000) / 0x400) ++ unit (0xDC00 + (c.val - 0x10000) % 0x400)

def string (ascii : Bool) (t : Text) : Text := "\"" ++ t.flatMap (character ascii) ++ "\""

def number : Number → Text
  | .integer n => Text.ofInt n
  | .real .nan => "NaN"
  | .real (.infinity s) => if s then "-Infinity" else "Infinity"
  | .real x => x.toText

structure Layout where
  ascii : Bool
  lines : Bool

def Layout.break (l : Layout) (depth : Nat) : Text :=
  if l.lines then "\n" ++ Text.replicate depth "  " else []

def Layout.comma (l : Layout) (depth : Nat) : Text :=
  if l.lines then "," ++ l.break depth else ", "

mutual

/-- The value in front of what follows it. -/
def value (l : Layout) (depth : Nat) (v : Json) (rest : Text) : Text :=
  match v with
  | .null => "null" ++ rest
  | .bool b => (if b then ("true" : Text) else "false") ++ rest
  | .number n => number n ++ rest
  | .text t => string l.ascii t ++ rest
  | .array [] => "[]" ++ rest
  | .array (v :: vs) =>
    "[" ++ (l.break (depth + 1) ++
      value l (depth + 1) v (items l (depth + 1) vs (l.break depth ++ ("]" ++ rest))))
  | .object [] => "\x7b\x7d" ++ rest
  | .object ((k, v) :: fs) =>
    "\x7b" ++ (l.break (depth + 1) ++ (string l.ascii k ++ (": " ++
      value l (depth + 1) v (fields l (depth + 1) fs (l.break depth ++ ("\x7d" ++ rest))))))

def items (l : Layout) (depth : Nat) (vs : List Json) (rest : Text) : Text :=
  match vs with
  | [] => rest
  | v :: vs => l.comma depth ++ value l depth v (items l depth vs rest)

def fields (l : Layout) (depth : Nat) (fs : List (Text × Json)) (rest : Text) : Text :=
  match fs with
  | [] => rest
  | (k, v) :: fs =>
    l.comma depth ++ (string l.ascii k ++ (": " ++ value l depth v (fields l depth fs rest)))

end

mutual

theorem value_append (l : Layout) (depth : Nat) (v : Json) (s t : Text) :
    value l depth v s ++ t = value l depth v (s ++ t) := by
  match v with
  | .null | .bool b | .number n | .text u | .array [] | .object [] =>
    simp only [value, List.append_assoc]
  | .array (v :: vs) => simp only [value, List.append_assoc, value_append, items_append]
  | .object ((k, v) :: fs) => simp only [value, List.append_assoc, value_append, fields_append]

theorem items_append (l : Layout) (depth : Nat) (vs : List Json) (s t : Text) :
    items l depth vs s ++ t = items l depth vs (s ++ t) := by
  match vs with
  | [] => simp only [items]
  | v :: vs => simp only [items, List.append_assoc, value_append, items_append]

theorem fields_append (l : Layout) (depth : Nat) (fs : List (Text × Json)) (s t : Text) :
    fields l depth fs s ++ t = fields l depth fs (s ++ t) := by
  match fs with
  | [] => simp only [fields]
  | (k, v) :: fs => simp only [fields, List.append_assoc, value_append, fields_append]

end

end Printer

def toLine (v : Json) : Text := Printer.value ⟨true, false⟩ 0 v []

def toDocument (v : Json) : Text := Printer.value ⟨false, true⟩ 0 v []

end Json

/-! ## Values in messages -/

namespace Json

def kindName : Json → Text
  | .null => "NoneType"
  | .bool _ => "bool"
  | .number (.integer _) => "int"
  | .number (.real _) => "float"
  | .text _ => "str"
  | .array _ => "list"
  | .object _ => "dict"

mutual

def inner : Json → Text
  | .null => Shown.nothing
  | .bool b => Shown.truth b
  | .number n => n.toText
  | .text t => t.quoted
  | .array items => Shown.items (innerItems items)
  | .object fields => Shown.entries (innerFields fields)

def innerItems : List Json → List Text
  | [] => []
  | v :: vs => inner v :: innerItems vs

def innerFields : List (Text × Json) → List Text
  | [] => []
  | (k, v) :: fs => Shown.entry k (inner v) :: innerFields fs

end

def shown : Json → Text
  | .text t => t
  | v => inner v

end Json

end ThreatDesk
