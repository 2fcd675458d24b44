import ThreatDesk.Text.Blank
import ThreatDesk.Text.Quoted
import ThreatDesk.Number.Binary64
import ThreatDesk.Text.Basic

/-!
# Integers in text

A sign, then digits of any script, with single underscores between them and white space around.
More than 4300 digits are refused, and so is writing such a number. The zeros of the scripts that write
numbers in base ten are those of Unicode 14, category Nd; the other nine digits follow a zero.
-/

namespace ThreatDesk

/-! ## Digits -/

namespace Digit

def zeros : List Nat := [
  0x30, 0x660, 0x6F0, 0x7C0, 0x966, 0x9E6, 0xA66, 0xAE6, 0xB66, 0xBE6, 0xC66, 0xCE6, 0xD66,
  0xDE6, 0xE50, 0xED0, 0xF20, 0x1040, 0x1090, 0x17E0, 0x1810, 0x1946, 0x19D0, 0x1A80, 0x1A90,
  0x1B50, 0x1BB0, 0x1C40, 0x1C50, 0xA620, 0xA8D0, 0xA900, 0xA9D0, 0xA9F0, 0xAA50, 0xABF0,
  0xFF10, 0x104A0, 0x10D30, 0x11066, 0x110F0, 0x11136, 0x111D0, 0x112F0, 0x11450, 0x114D0,
  0x11650, 0x116C0, 0x11730, 0x118E0, 0x11950, 0x11C50, 0x11D50, 0x11DA0, 0x16A60, 0x16AC0,
  0x16B50, 0x1D7CE, 0x1D7D8, 0x1D7E2, 0x1D7EC, 0x1D7F6, 0x1E140, 0x1E2F0, 0x1E950, 0x1FBF0]

end Digit

def CodePoint.digit? (c : CodePoint) : Option Nat :=
  if c.val < 0x80 then (if c.isDigit then some (c.val - 0x30) else none)
  else (Digit.zeros.find? fun z => z ≤ c.val && c.val < z + 10).map (c.val - ·)

/-! ## Integers -/

namespace Integer

inductive Fault
  | malformed (text : Text)
  | tooLong (digits : Nat)
  | tooLongToWrite

def digitLimit : Nat := 4300

def Fault.message : Fault → Text
  | .malformed t => "invalid literal for int() with base 10: " ++ t.quoted.take 200
  | .tooLong n =>
    "Exceeds the limit (4300 digits) for integer string conversion: value has " ++ Text.ofNat n ++
      " digits; use sys.set_int_max_str_digits() to increase the limit"
  | .tooLongToWrite =>
    "Exceeds the limit (4300 digits) for integer string conversion; " ++
      "use sys.set_int_max_str_digits() to increase the limit"

/-- White space that may stand around an integer: all but the information separators. -/
def isMargin (c : CodePoint) : Bool := c.isBlank && !(0x1C ≤ c.val && c.val ≤ 0x1F)

/-- The digits at the start, last one first, and the rest. An underscore joins two digits;
`joined` says that one has just been read. -/
def digits (joined : Bool) (read : List Nat) : Text → Option (List Nat × Text)
  | [] => if joined then none else some (read, [])
  | c :: t =>
    if c = '_' then (if joined then none else digits true read t)
    else
      match c.digit? with
      | some d => digits false (d :: read) t
      | none => if joined then none else some (read, c :: t)

/-- The number that the digits write, last one first. -/
def value : List Nat → Nat
  | [] => 0
  | d :: ds => value ds * 10 + d

def magnitude (whole t : Text) : Except Fault Nat :=
  match t with
  | [] => .error (.malformed whole)
  | c :: _ =>
    if c = '_' then .error (.malformed whole)
    else
      match digits false [] t with
      | none => .error (.malformed whole)
      | some (ds, rest) =>
        if ds.length > digitLimit then .error (.tooLong ds.length)
        else if ds.isEmpty || !(rest.dropWhile isMargin).isEmpty then .error (.malformed whole)
        else .ok (value ds)

def ofText (t : Text) : Except Fault Int :=
  match t.dropWhile isMargin with
  | [] => .error (.malformed t)
  | c :: rest =>
    if c = '-' then (magnitude t rest).map fun n => -Int.ofNat n
    else if c = '+' then (magnitude t rest).map Int.ofNat
    else (magnitude t (c :: rest)).map Int.ofNat

def toText (n : Int) : Except Fault Text :=
  if n.natAbs < tenTo digitLimit then .ok (Text.ofInt n) else .error .tooLongToWrite

end Integer

end ThreatDesk
