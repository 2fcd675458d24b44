import ThreatDesk.Number.Basic

/-!
# Calendar dates

Seconds since the start of 1970 as a date and time of day in universal time, in the proleptic
Gregorian calendar. Fractions are rounded to microseconds first, a half to the even one.
-/

namespace ThreatDesk

namespace Calendar

inductive Fault
  | notANumber
  | beyondTime
  | beyondYears
  | year (n : Int)
  | quotient

def Fault.message : Fault → Text
  | .notANumber => "Invalid value NaN (not a number)"
  | .beyondTime => "timestamp out of range for platform time_t"
  | .beyondYears => "[Errno 75] Value too large for defined data type"
  | .year n => "year " ++ Text.ofInt n ++ " is out of range"
  | .quotient => "integer division result too large for a float"

structure Date where
  year : Int
  month : Nat
  day : Nat
  hour : Nat
  minute : Nat
  second : Nat

/-- Year, month and day of a day counted from the first of January 1970. Years are counted from
March, so that the leap day comes last, in eras of 400 years. -/
def civil (days : Int) : Int × Nat × Nat :=
  let z := days + 719468
  let era := z / 146097
  let dayOfEra := (z % 146097).toNat
  let yearOfEra := (dayOfEra - dayOfEra / 1460 + dayOfEra / 36524 - dayOfEra / 146096) / 365
  let dayOfYear := dayOfEra - (365 * yearOfEra + yearOfEra / 4 - yearOfEra / 100)
  let march := (5 * dayOfYear + 2) / 153
  let day := dayOfYear - (153 * march + 2) / 5 + 1
  let month := if march < 10 then march + 3 else march - 9
  let year := (yearOfEra : Int) + era * 400 + (if month ≤ 2 then 1 else 0)
  (year, month, day)

def ofSeconds (seconds : Int) : Except Fault Date :=
  let (year, month, day) := civil (seconds / 86400)
  let rest := (seconds % 86400).toNat
  if year - 1900 < -(twoTo 31) ∨ (twoTo 31 : Int) ≤ year - 1900 then .error .beyondYears
  else
    let shown := Int.bmod year (twoTo 32)
    if shown < 1 ∨ 9999 < shown then .error (.year shown)
    else .ok ⟨year, month, day, rest / 3600, rest % 3600 / 60, rest % 60⟩

def wholeSeconds : Number → Except Fault Int
  | .integer n => .ok n
  | .real .nan => .error .notANumber
  | .real (.infinity _) => .error .beyondTime
  | .real (.finite s m e) =>
    let whole := ((Binary64.finite s m e).trunc?).getD 0
    let micros := (((Binary64.fraction s m e).scale 1000000).round?).getD 0
    .ok (if 1000000 ≤ micros then whole + 1 else if micros < 0 then whole - 1 else whole)

/-- The last second whose year is asked for. Seconds have 64 bits; for a double the bound is the double
nearest to it, which is a second later. -/
def lastSecond : Number → Int
  | .integer _ => twoTo 63 - 1
  | .real _ => twoTo 63

def ofNumber (n : Number) : Except Fault Date :=
  match wholeSeconds n with
  | .error fault => .error fault
  | .ok seconds =>
    if seconds < -(twoTo 63) ∨ lastSecond n < seconds then .error .beyondTime else ofSeconds seconds

def ofMilliseconds : Number → Except Fault Date
  | .integer n =>
    match Binary64.ofRatio (n < 0) n.natAbs 1000 with
    | .infinity _ => .error .quotient
    | x => ofNumber (.real x)
  | .real x => ofNumber (.real (x.divide 1000))

/-- The date and time as part of a file name; the year has no zeros in front. -/
def Date.fileStamp (d : Date) : Text :=
  Text.ofInt d.year ++ "-" ++ Text.ofNatPadded 2 d.month ++ "-" ++ Text.ofNatPadded 2 d.day ++ "T" ++
    Text.ofNatPadded 2 d.hour ++ "-" ++ Text.ofNatPadded 2 d.minute ++ "-" ++
    Text.ofNatPadded 2 d.second

def Date.isoStamp (d : Date) : Text :=
  Text.ofNatPadded 4 d.year.toNat ++ "-" ++ Text.ofNatPadded 2 d.month ++ "-" ++
    Text.ofNatPadded 2 d.day ++ "T" ++ Text.ofNatPadded 2 d.hour ++ ":" ++
    Text.ofNatPadded 2 d.minute ++ ":" ++ Text.ofNatPadded 2 d.second ++ "+00:00"

def milliseconds : Number → Except Number.Fault Int
  | .integer n => .ok (n * 1000)
  | .real x => (Number.real (x.scale 1000)).whole

end Calendar

end ThreatDesk
