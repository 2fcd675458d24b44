import ThreatDesk.Toml.Basic
import ThreatDesk.Text.Integer

/-!
# Reading TOML

Every reader takes the text from where it stands and returns a value with the text behind it.
-/

namespace ThreatDesk

namespace Toml

namespace Reader

abbrev Result (α : Type) := Except Fault (α × Text)

def orMalformed {α : Type} : Option α → Except Fault α
  | some a => .ok a
  | none => .error .malformed

def isSpace (c : CodePoint) : Bool := c = ' ' || c = '\t'

def skipSpace (t : Text) : Text := t.dropWhile isSpace

def isControl (c : CodePoint) : Bool := (c.val < 0x20 && c.val ≠ 0x09) || c.val = 0x7F

def skipComment (t : Text) : Except Fault Text :=
  match t with
  | [] => .ok []
  | c :: rest =>
    if c = '#' then
      if (rest.takeWhile (· ≠ Text.newline)).any isControl then .error .malformed
      else .ok (rest.dropWhile (· ≠ Text.newline))
    else .ok t

def skipFiller (inside : Bool) : Text → Except Fault Text
  | [] => .ok []
  | c :: t =>
    if c = Text.newline then skipFiller false t
    else if inside then (if isControl c then .error .malformed else skipFiller true t)
    else if isSpace c then skipFiller false t
    else if c = '#' then skipFiller true t
    else .ok (c :: t)

/-! ## Strings -/

def hexNumber? (digits : Text) : Option Nat :=
  digits.foldl (fun n? c => do return (← n?) * 16 + (← c.hexValue?)) (some 0)

def hexCharacter? (digits : Nat) (t : Text) : Option (Text × Nat) :=
  let written := t.take digits
  if written.length = digits then
    match hexNumber? written with
    | some n =>
      if n < 0x110000 ∧ ¬ (0xD800 ≤ n ∧ n ≤ 0xDFFF) then some ([CodePoint.ofNat n], digits + 1)
      else none
    | none => none
  else none

def lineEnd? (t : Text) : Option Text :=
  match skipSpace t with
  | [] => some []
  | c :: rest =>
    if c = Text.newline then some (rest.dropWhile fun d => isSpace d || d = Text.newline) else none

def letters : List (Char × Nat) :=
  [('b', 0x08), ('t', 0x09), ('n', 0x0A), ('f', 0x0C), ('r', 0x0D), ('"', 0x22), ('\\', 0x5C)]

def escape? (multiline : Bool) : Text → Option (Text × Nat)
  | [] => none
  | c :: t =>
    if multiline && (isSpace c || c = Text.newline) then
      (lineEnd? (c :: t)).map fun rest => ([], t.length + 1 - rest.length)
    else if c = 'u' then hexCharacter? 4 t
    else if c = 'U' then hexCharacter? 8 t
    else (letters.find? fun (l, _) => c = l).map fun (_, n) => ([CodePoint.ofNat n], 1)

/-- A basic string up to its closing quotes. `skip` characters belong to the escape before. -/
def basic (multiline : Bool) (read : Text) : (skip : Nat) → Text → Result Text
  | _, [] => .error .malformed
  | skip + 1, _ :: t => basic multiline read skip t
  | 0, c :: t =>
    if c = '"' then
      if !multiline then .ok (read.reverse, t)
      else
        match Text.after? "\"\"" t with
        | some rest => .ok (read.reverse, rest)
        | none => basic multiline (c :: read) 0 t
    else if c = '\\' then
      match escape? multiline t with
      | none => .error .malformed
      | some (produced, length) => basic multiline (produced.reverse ++ read) length t
    else if isControl c && !(multiline && c = Text.newline) then .error .malformed
    else basic multiline (c :: read) 0 t

def literal (t : Text) : Result Text :=
  let written := t.takeWhile (· ≠ ('\'' : CodePoint))
  match t.drop written.length with
  | [] => .error .malformed
  | _ :: rest => if written.any isControl then .error .malformed else .ok (written, rest)

def longLiteral (read : Text) : Text → Result Text
  | [] => .error .malformed
  | c :: t =>
    match Text.after? "'''" (c :: t) with
    | some rest => .ok (read.reverse, rest)
    | none =>
      if isControl c && c ≠ Text.newline then .error .malformed else longLiteral (c :: read) t

/-- A string with up to two more quotes right behind it, which belong to it. -/
def moreQuotes (quote : CodePoint) (read t : Text) : Text × Text :=
  let more := (t.take 2).takeWhile (· = quote)
  (read ++ more, t.drop more.length)

def withoutNewline : Text → Text
  | [] => []
  | c :: t => if c = Text.newline then t else c :: t

def string (quote : CodePoint) (t : Text) : Result Text :=
  if quote = '"' then
    match Text.after? "\"\"" t with
    | some body => (basic true [] 0 (withoutNewline body)).map fun (s, rest) => moreQuotes quote s rest
    | none => basic false [] 0 t
  else
    match Text.after? "''" t with
    | some body => (longLiteral [] (withoutNewline body)).map fun (s, rest) => moreQuotes quote s rest
    | none => literal t

/-! ## Keys -/

def isBare (c : CodePoint) : Bool :=
  c.isDigit || (0x41 ≤ c.val && c.val ≤ 0x5A) || (0x61 ≤ c.val && c.val ≤ 0x7A) || c = '-' || c = '_'

def keyPart : Text → Result Text
  | [] => .error .malformed
  | c :: t =>
    if isBare c then .ok ((c :: t).takeWhile isBare, (c :: t).dropWhile isBare)
    else if c = '\'' then literal t
    else if c = '"' then basic false [] 0 t
    else .error .malformed

def key : (fuel : Nat) → Text → Except Fault (Key × Text)
  | 0, _ => .error .malformed
  | fuel + 1, t => do
    let (part, rest) ← keyPart t
    match skipSpace rest with
    | [] => return ([part], [])
    | c :: rest =>
      if c = '.' then
        let (parts, rest) ← key fuel (skipSpace rest)
        return (part :: parts, rest)
      else return ([part], c :: rest)

def keyAndSign (t : Text) : Except Fault (Key × Text) := do
  let (k, rest) ← key t.length t
  match rest with
  | [] => .error .malformed
  | c :: rest => if c = '=' then .ok (k, skipSpace rest) else .error .malformed

/-! ## Dates and times -/

def digitsBetween (count least most : Nat) (t : Text) : Option (Nat × Text) :=
  let written := t.take count
  if written.length = count ∧ written.all CodePoint.isDigit then
    let n := Integer.value (written.reverse.map (·.val - 0x30))
    if least ≤ n ∧ n ≤ most then some (n, t.drop count) else none
  else none

/-- The microseconds of a fraction of a second, if one begins here, and the text behind it; digits
beyond the sixth do not count. -/
def fraction (t : Text) : Nat × Text :=
  match Text.after? "." t with
  | none => (0, t)
  | some rest =>
    let digits := rest.takeWhile CodePoint.isDigit
    if digits.isEmpty then (0, t)
    else
      let micros := (digits ++ Text.replicate 6 "0").take 6
      (Integer.value (micros.reverse.map (·.val - 0x30)), rest.drop digits.length)

def timeOfDay? (t : Text) : Option (TimeOfDay × Text) := do
  let (hour, t) ← digitsBetween 2 0 23 t
  let t ← Text.after? ":" t
  let (minute, t) ← digitsBetween 2 0 59 t
  let t ← Text.after? ":" t
  let (second, t) ← digitsBetween 2 0 59 t
  let (micros, t) := fraction t
  return (⟨hour, minute, second, micros⟩, t)

def offset (t : Text) : Option Int × Text :=
  match t with
  | [] => (none, [])
  | c :: rest =>
    if c = 'Z' ∨ c = 'z' then (some 0, rest)
    else if c = '+' ∨ c = '-' then
      let found := do
        let (hours, t) ← digitsBetween 2 0 23 rest
        let t ← Text.after? ":" t
        let (minutes, t) ← digitsBetween 2 0 59 t
        let total := Int.ofNat (hours * 60 + minutes)
        return (some (if c = '-' then -total else total), t)
      found.getD (none, t)
    else (none, t)

def joinedTime? : Text → Option (TimeOfDay × Option Int × Text)
  | [] => none
  | c :: t =>
    if c = 'T' ∨ c = 't' ∨ c = ' ' then
      (timeOfDay? t).map fun (time, rest) => (time, offset rest)
    else none

/-- The date at the start, with a time behind it or without; the inner result fails for a day that
does not exist. -/
def date? (t : Text) : Option (Except Fault (Moment × Text)) := do
  let (year, rest) ← digitsBetween 4 0 9999 t
  let rest ← Text.after? "-" rest
  let (month, rest) ← digitsBetween 2 1 12 rest
  let rest ← Text.after? "-" rest
  let (day, rest) ← digitsBetween 2 1 31 rest
  let d : Day := ⟨year, month, day⟩
  if !d.isValid then return .error .malformed
  match joinedTime? rest with
  | some (time, offset, rest) => return .ok (.dateTime d time offset, rest)
  | none => return .ok (.date d, rest)

/-! ## Numbers -/

/-- Digits with single underscores between them, and the rest. -/
def digitRun (isDigit : CodePoint → Bool) : Text → Text × Text
  | [] => ([], [])
  | c :: t =>
    if isDigit c then
      let (digits, rest) := digitRun isDigit t
      (c :: digits, rest)
    else
      match t with
      | [] => ([], [c])
      | d :: _ =>
        if c = '_' ∧ isDigit d then digitRun isDigit t else ([], c :: t)

def digitRun? (isDigit : CodePoint → Bool) (t : Text) : Option (Text × Text) :=
  match t with
  | [] => none
  | c :: _ => if isDigit c then some (digitRun isDigit t) else none

def valueIn (base : Nat) (digits : Text) : Nat :=
  digits.foldl (fun n c => n * base + (c.hexValue?).getD 0) 0

def bases : List (String × (CodePoint → Bool) × Nat) :=
  [("0x", fun c => c.hexValue?.isSome, 16),
   ("0b", fun c => c = '0' || c = '1', 2),
   ("0o", fun c => 0x30 ≤ c.val && c.val ≤ 0x37, 8)]

def basedInteger? (t : Text) : Option (Toml × Text) :=
  bases.findSome? fun (mark, isDigit, base) => do
    let rest ← Text.after? mark t
    let (digits, rest) ← digitRun? isDigit rest
    return (.integer (valueIn base digits), rest)

def places (t : Text) : Text × Text × Bool :=
  match (Text.after? "." t).bind (digitRun? CodePoint.isDigit) with
  | some (digits, rest) => (digits, rest, true)
  | none => ([], t, false)

def power (t : Text) : Int × Text × Bool :=
  match t with
  | [] => (0, [], false)
  | e :: rest =>
    if e = 'e' ∨ e = 'E' then
      let (negative, unsigned) : Bool × Text :=
        match rest with
        | [] => (false, [])
        | s :: more => if s = '-' then (true, more) else if s = '+' then (false, more) else (false, rest)
      match digitRun? CodePoint.isDigit unsigned with
      | some (digits, rest) =>
        let n := Int.ofNat (valueIn 10 digits)
        (if negative then -n else n, rest, true)
      | none => (0, t, false)
    else (0, t, false)

def whole? : Text → Option (Text × Text)
  | [] => none
  | c :: t => if c = '0' then some ([c], t) else digitRun? CodePoint.isDigit (c :: t)

def decimal? (t : Text) : Option (Except Fault (Toml × Text)) := do
  let (negative, unsigned) : Bool × Text :=
    match t with
    | [] => (false, [])
    | s :: rest => if s = '-' then (true, rest) else if s = '+' then (false, rest) else (false, t)
  let (whole, rest) ← whole? unsigned
  let (places, rest, pointed) := places rest
  let (power, rest, raised) := power rest
  if pointed || raised then
    return .ok (.real
      (Binary64.ofDecimal negative (valueIn 10 (whole ++ places)) (power - places.length)), rest)
  if whole.length > Integer.digitLimit then return .error (.tooLong whole.length)
  let n := Int.ofNat (valueIn 10 whole)
  return .ok (.integer (if negative then -n else n), rest)

def words : List (String × Toml) :=
  [("inf", .real (.infinity false)), ("+inf", .real (.infinity false)),
   ("-inf", .real (.infinity true)), ("nan", .real .nan), ("+nan", .real .nan),
   ("-nan", .real .nan)]

def word? (words : List (String × Toml)) (t : Text) : Option (Toml × Text) :=
  words.findSome? fun (word, value) => (Text.after? word t).map fun rest => (value, rest)

def scalar (t : Text) : Except Fault (Toml × Text) :=
  match date? t with
  | some (.ok (m, rest)) => .ok (.moment m, rest)
  | some (.error fault) => .error fault
  | none =>
    match timeOfDay? t with
    | some (time, rest) => .ok (.moment (.time time), rest)
    | none =>
      match basedInteger? t with
      | some found => .ok found
      | none =>
        match decimal? t with
        | some found => found
        | none => orMalformed (word? words t)

/-! ## Values -/

def items (item : Text → Result Toml) (read : List Toml) : (fuel : Nat) → Text → Except Fault (Toml × Text)
  | 0, _ => .error .malformed
  | fuel + 1, t =>
    match Text.after? "]" t with
    | some rest => .ok (.array read.reverse, rest)
    | none => do
      let (value, rest) ← item t
      match ← skipFiller false rest with
      | [] => .error .malformed
      | c :: rest =>
        if c = ']' then .ok (.array (value :: read).reverse, rest)
        else if c = ',' then do
          let rest ← skipFiller false rest
          items item (value :: read) fuel rest
        else .error .malformed

def inlineEntries (item : Text → Result Toml) (entries : Entries) (closed : List Key) :
    (fuel : Nat) → Text → Except Fault (Toml × Text)
  | 0, _ => .error .malformed
  | fuel + 1, t => do
    let (k, rest) ← keyAndSign t
    let (value, rest) ← item rest
    if Draft.isClosed closed k then .error .malformed
    else
      match k.getLast? with
      | none => .error .malformed
      | some name => do
        let entries ← orMalformed (entries.changeAt false (Entries.add? name value) k.dropLast)
        match skipSpace rest with
        | [] => .error .malformed
        | c :: rest =>
          if c = '\x7d' then .ok (.table entries, rest)
          else if c = ',' then
            inlineEntries item entries (if Draft.isComposite value then closed ++ [k] else closed)
              fuel (skipSpace rest)
          else .error .malformed

def inlineTable (item : Text → Result Toml) (fuel : Nat) (t : Text) : Except Fault (Toml × Text) :=
  let t := skipSpace t
  match Text.after? "\x7d" t with
  | some rest => .ok (.table [], rest)
  | none => inlineEntries item [] [] fuel t

/-- A value with at most `fuel` entries in a row. Of the room for nesting an array takes two, and a
table three, since its entries stand between it and their values. -/
def value (fuel : Nat) : (room : Nat) → Text → Except Fault (Toml × Text)
  | _, [] => .error .malformed
  | room, c :: t =>
    if c = '"' ∨ c = '\'' then (string c t).map fun (s, rest) => (.text s, rest)
    else
      match word? [("true", .bool true), ("false", .bool false)] (c :: t) with
      | some found => .ok found
      | none =>
        if c = '[' then
          match room with
          | room + 2 => do
            let rest ← skipFiller false t
            items (value fuel room) [] fuel rest
          | _ => .error .nested
        else if c = '\x7b' then
          match room with
          | room + 3 => inlineTable (value fuel room) fuel t
          | _ => .error .nested
        else scalar (c :: t)

/-! ## Documents -/

def nestingLimit : Nat := 985

/-- A header whose opening brackets have been read: `marks` are the closing ones. -/
def header (marks : Text) (enter : Key → Option Draft) (t : Text) : Except Fault (Draft × Text) := do
  let t := skipSpace t
  let (k, rest) ← key t.length t
  let d ← orMalformed (enter k)
  let rest ← orMalformed (Text.after? marks rest)
  return (d, rest)

def statement (fuel : Nat) (d : Draft) (c : CodePoint) (t : Text) : Except Fault (Draft × Text) :=
  if isBare c ∨ c = '"' ∨ c = '\'' then do
    let (k, rest) ← keyAndSign (c :: t)
    let (v, rest) ← value fuel nestingLimit rest
    let d ← orMalformed (d.addValue k v)
    return (d, rest)
  else if c = '[' then
    match Text.after? "[" t with
    | some t => header "]]" d.settle.openArrayTable t
    | none => header "]" d.settle.openTable t
  else if c = '#' then .ok (d, c :: t)
  else .error .malformed

def statements (d : Draft) : (fuel : Nat) → Text → Except Fault Draft
  | 0, _ => .ok d
  | fuel + 1, t =>
    match skipSpace t with
    | [] => .ok d
    | c :: t =>
      if c = Text.newline then statements d fuel t
      else do
        let (d, rest) ← statement (fuel + 1) d c t
        match ← skipComment (skipSpace rest) with
        | [] => return d
        | c :: rest => if c = Text.newline then statements d fuel rest else .error .malformed

end Reader

def ofText (t : Text) : Except Fault Entries :=
  (Reader.statements Draft.empty (t.length + 1) t).map Draft.entries

end Toml

end ThreatDesk
