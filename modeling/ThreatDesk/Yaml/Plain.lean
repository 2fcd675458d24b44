import ThreatDesk.Text.Basic

/-!
# What plain scalars mean

YAML 1.1 reads some plain scalars as something else than text: numbers, truth values, dates. A text that
would be read so must be quoted. The rules are those of its type repository as libyaml's bindings resolve
them: a float needs a dot, an integer may be of base 2, 8, 10, 16 or 60.
-/

namespace ThreatDesk

namespace Yaml

def isOneOf (words : List String) (t : Text) : Bool := words.any fun w => Text.ofString w = t

def isBool (t : Text) : Bool :=
  isOneOf ["yes", "Yes", "YES", "no", "No", "NO", "true", "True", "TRUE", "false", "False", "FALSE",
    "on", "On", "ON", "off", "Off", "OFF"] t

def isNull (t : Text) : Bool := isOneOf ["", "~", "null", "Null", "NULL"] t

def isSpecialKey (t : Text) : Bool := isOneOf ["<<", "="] t

/-! ## Numbers -/

def isDigitOr_ (c : CodePoint) : Bool := c.isDigit || c = '_'

def unsigned (t : Text) : Text :=
  match t with
  | [] => []
  | c :: rest => if c = '-' ∨ c = '+' then rest else t

def isDecimal : Text → Bool
  | [] => false
  | c :: t => c.isDigit && t.all isDigitOr_

def isNonZeroDecimal (t : Text) : Bool := isDecimal t && t.head? ≠ some ('0' : CodePoint)

def isSome (p : CodePoint → Bool) (t : Text) : Bool := !t.isEmpty && t.all p

def isSixtieth : Text → Bool
  | [c] => c.isDigit
  | [c, d] => 0x30 ≤ c.val && c.val ≤ 0x35 && d.isDigit
  | _ => false

def colon : CodePoint := ':'

def isSexagesimal (whole : Text → Bool) (t : Text) : Bool :=
  match t.splitOn colon with
  | first :: second :: rest => whole first && (second :: rest).all isSixtieth
  | _ => false

def isInteger (t : Text) : Bool :=
  let t := unsigned t
  let prefixed (start : Text) (digit : CodePoint → Bool) : Bool :=
    match Text.after? start t with
    | some rest => isSome digit rest
    | none => false
  prefixed "0b" (fun c => c = '0' || c = '1' || c = '_') ||
  prefixed "0" (fun c => (0x30 ≤ c.val && c.val ≤ 0x37) || c = '_') ||
  t = "0" || isNonZeroDecimal t ||
  prefixed "0x" (fun c => c.hexValue?.isSome || c = '_') ||
  isSexagesimal isNonZeroDecimal t

def isExponent : Text → Bool
  | [] => true
  | [_] => false
  | e :: s :: digits =>
    (e = 'e' || e = 'E') && (s = '-' || s = '+') && isSome CodePoint.isDigit digits

def point : CodePoint := '.'

def isFraction (t : Text) : Bool := isExponent (t.dropWhile isDigitOr_)

def isReal (t : Text) : Bool :=
  let u := unsigned t
  let whole := u.takeWhile (· ≠ point)
  match u.drop whole.length with
  | [] => false
  | _ :: places =>
    (isDecimal whole && isFraction places) ||
    (isSexagesimal isDecimal whole && places.all isDigitOr_) ||
    (whole.isEmpty && isOneOf ["inf", "Inf", "INF"] places) ||
    (whole.isEmpty && t.head? = some point &&
      (isOneOf ["nan", "NaN", "NAN"] places ||
        ((places.head?.map CodePoint.isDigit).getD false && isFraction places)))

/-! ## Times -/

/-- What follows digits, of which there are at least `least` and at most `most`. -/
def afterDigits (least most : Nat) (t : Text) : Option Text :=
  let n := ((t.take most).takeWhile CodePoint.isDigit).length
  if least ≤ n then some (t.drop n) else none

def isGap (c : CodePoint) : Bool := c = ' ' || c = '\t'

def isZone (t : Text) : Bool :=
  t.isEmpty ||
  match t.dropWhile isGap with
  | [] => false
  | c :: rest =>
    if c = 'Z' then rest.isEmpty
    else if c = '-' ∨ c = '+' then
      match afterDigits 1 2 rest with
      | none => false
      | some [] => true
      | some (c :: rest) => c = colon && afterDigits 2 2 rest = some []
    else false

def isClock (t : Text) : Bool :=
  let seconds := do
    let t ← afterDigits 1 2 t
    let t ← Text.after? ":" t
    let t ← afterDigits 2 2 t
    let t ← Text.after? ":" t
    afterDigits 2 2 t
  match seconds with
  | none => false
  | some rest =>
    match Text.after? "." rest with
    | none => isZone rest
    | some places => isZone (places.dropWhile CodePoint.isDigit)

/-- What separates a date from a time is a letter or some space. -/
def afterDate? : Text → Option Text
  | [] => none
  | c :: t =>
    if c = 'T' ∨ c = 't' then some t
    else if isGap c then some (t.dropWhile isGap)
    else none

def isTime (t : Text) : Bool :=
  let day (least : Nat) := do
    let t ← afterDigits 4 4 t
    let t ← Text.after? "-" t
    let t ← afterDigits least 2 t
    let t ← Text.after? "-" t
    afterDigits least 2 t
  day 2 = some [] ||
  match (day 1).bind afterDate? with
  | none => false
  | some rest => isClock rest

def isPlainText (t : Text) : Bool :=
  !(isBool t || isNull t || isSpecialKey t || isInteger t || isReal t || isTime t)

end Yaml

end ThreatDesk
