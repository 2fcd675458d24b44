import ThreatDesk.Text.Quoted

/-!
# Dates and times

A day, a time of day, or both, and then perhaps with an offset from universal time. `toText` writes
them as the standard does, with a space in the middle; `inner` names their parts.
-/

namespace ThreatDesk

structure Day where
  year : Nat
  month : Nat
  day : Nat
deriving DecidableEq

structure TimeOfDay where
  hour : Nat
  minute : Nat
  second : Nat
  microsecond : Nat
deriving DecidableEq

/-- An offset is counted in minutes, to the east. -/
inductive Moment
  | date (d : Day)
  | time (t : TimeOfDay)
  | dateTime (d : Day) (t : TimeOfDay) (offset : Option Int)
deriving DecidableEq

namespace Day

def isLeap (year : Nat) : Bool := year % 4 = 0 && (year % 100 ≠ 0 || year % 400 = 0)

def daysIn (year month : Nat) : Nat :=
  if month = 2 then (if isLeap year then 29 else 28)
  else if month = 4 ∨ month = 6 ∨ month = 9 ∨ month = 11 then 30
  else 31

def isValid (d : Day) : Bool :=
  1 ≤ d.year && 1 ≤ d.month && d.month ≤ 12 && 1 ≤ d.day && d.day ≤ daysIn d.year d.month

def toText (d : Day) : Text :=
  Text.ofNatPadded 4 d.year ++ "-" ++ Text.ofNatPadded 2 d.month ++ "-" ++ Text.ofNatPadded 2 d.day

def parts (d : Day) : List Nat := [d.year, d.month, d.day]

end Day

namespace TimeOfDay

def short (hour minute : Nat) : Text :=
  Text.ofNatPadded 2 hour ++ ":" ++ Text.ofNatPadded 2 minute

def fractionText (microsecond : Nat) : Text :=
  if microsecond = 0 then [] else "." ++ Text.ofNatPadded 6 microsecond

def toText (t : TimeOfDay) : Text :=
  short t.hour t.minute ++ ":" ++ Text.ofNatPadded 2 t.second ++ fractionText t.microsecond

def parts (t : TimeOfDay) : List Nat :=
  [t.hour, t.minute] ++
    (if t.microsecond ≠ 0 then [t.second, t.microsecond]
     else if t.second ≠ 0 then [t.second]
     else [])

end TimeOfDay

namespace Moment

def offsetText (minutes : Int) : Text :=
  (if minutes < 0 then "-" else "+") ++
    TimeOfDay.short (minutes.natAbs / 60) (minutes.natAbs % 60)

def toText : Moment → Text
  | .date d => d.toText
  | .time t => t.toText
  | .dateTime d t offset =>
    d.toText ++ " " ++ t.toText ++ (match offset with
      | none => []
      | some minutes => offsetText minutes)

/-- An offset as a count of seconds that is not negative, behind a day to take off if need be. -/
def offsetName (minutes : Int) : Text :=
  if minutes = 0 then "datetime.timezone.utc"
  else
    let seconds : Text := "seconds=" ++ Text.ofNat ((minutes * 60) % 86400).toNat
    "datetime.timezone(datetime.timedelta(" ++
      (if minutes < 0 then "days=-1, " ++ seconds else seconds) ++ "))"

def kind : Moment → Text
  | .date _ => "date"
  | .time _ => "time"
  | .dateTime .. => "datetime"

def kindName (m : Moment) : Text := "datetime." ++ m.kind

def parts : Moment → List Text
  | .date d => d.parts.map Text.ofNat
  | .time t => t.parts.map Text.ofNat
  | .dateTime d t offset =>
    (d.parts ++ t.parts).map Text.ofNat ++ (match offset with
      | none => []
      | some minutes => ["tzinfo=" ++ offsetName minutes])

def inner (m : Moment) : Text := m.kindName ++ "(" ++ Text.intercalate ", " m.parts ++ ")"

end Moment

end ThreatDesk
