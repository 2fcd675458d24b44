import ThreatDesk.Yaml.Plain
import ThreatDesk.Text.Quoted

/-!
# Writing scalars

A text is written plain where that is safe, else in single quotes, and in double quotes where
something has to be escaped. Lines are folded at spaces beyond column 80; a line that goes on starts
at column 2. This is what libyaml's emitter does in block style with Unicode allowed, where a character
beyond the basic plane is escaped all the same.
-/

namespace ThreatDesk

namespace Yaml

def space : CodePoint := ' '

def isPrintable (c : CodePoint) : Bool :=
  c.val = 0x0A || (0x20 ≤ c.val && c.val ≤ 0x7E) || (0xA0 ≤ c.val && c.val ≤ 0xD7FF) ||
  (0xE000 ≤ c.val && c.val ≤ 0xFFFD && c.val ≠ 0xFEFF)

def isBreak (c : CodePoint) : Bool :=
  c.val = 0x0A || c.val = 0x0D || c.val = 0x85 || c.val = 0x2028 || c.val = 0x2029

/-- White space, or a NUL, which counts as the end. -/
def isEdge (c : CodePoint) : Bool := c = ' ' || c = '\t' || c.val = 0 || isBreak c

def startsEdge (t : Text) : Bool := (t.head?.map isEdge).getD true

/-! ## Styles -/

def mayStart (c : CodePoint) (rest : Text) : Bool :=
  !(Text.ofString "#,[]\x7b\x7d&*!|>'\"%@\x60").contains c &&
  !((c = '?' || c = ':' || c = '-') && startsEdge rest)

/-- Whether a text may go on plain behind `before`: a colon that ends a word and a number sign that
begins one would be read as something else. -/
def mayContinue (before : CodePoint) : Text → Bool
  | [] => true
  | c :: rest =>
    !(c = ':' && startsEdge rest) && !(c = '#' && isEdge before) && mayContinue c rest

def isMarker (t : Text) : Bool := t.startsWith "---" || t.startsWith "..."

def hasPair (first second : CodePoint → Bool) : Text → Bool
  | c :: d :: t => (first c && second d) || hasPair first second (d :: t)
  | _ => false

def isSpace (c : CodePoint) : Bool := c = space

def allowsPlain (t : Text) : Bool :=
  match t with
  | [] => true
  | c :: rest =>
    !isMarker t && mayStart c rest && mayContinue c rest && t.all isPrintable && !t.any isBreak &&
      !isSpace c && !((t.getLast?.map isSpace).getD false)

def allowsSingle (t : Text) : Bool :=
  t.all isPrintable && !hasPair isBreak isSpace t && !hasPair isSpace isBreak t

/-! ## Writing -/

/-- What has been written, in reverse, and the column reached. -/
structure Pen where
  column : Nat
  written : Text

def Pen.put (p : Pen) (c : CodePoint) : Pen := ⟨p.column + 1, c :: p.written⟩

def Pen.break (p : Pen) (c : CodePoint) : Pen := ⟨0, c :: p.written⟩

def Pen.margin (p : Pen) : Pen := (p.put space).put space

def width : Nat := 80

def Pen.isLong (p : Pen) : Bool := width < p.column

def Pen.fold (p : Pen) : Pen := (p.break Text.newline).margin

def startsSpace (t : Text) : Bool := (t.head?.map isSpace).getD false

/-- A plain text; `spaced` says whether a space has just been written. -/
def plain (p : Pen) (spaced : Bool) : Text → Pen
  | [] => p
  | c :: t =>
    if c = space then
      if !spaced && p.isLong && !startsSpace t then plain p.fold true t else plain (p.put c) true t
    else plain (p.put c) false t

/-- A text in single quotes, from behind the first character on. A line feed that begins a run of
breaks is written twice. -/
def single (p : Pen) (first spaced broken : Bool) : Text → Pen
  | [] => if broken then p.margin else p
  | c :: t =>
    if c = space then
      if !spaced && p.isLong && !first && !t.isEmpty && !startsSpace t then
        single p.fold false true broken t
      else single (p.put c) false true broken t
    else if isBreak c then
      let p := if !broken && c = Text.newline then p.break Text.newline else p
      single (p.break c) false spaced true t
    else
      let p := if broken then p.margin else p
      let p := if c = '\'' then p.put '\'' else p
      single (p.put c) false false false t

def upperHexDigit (n : Nat) : CodePoint :=
  if n < 10 then CodePoint.ofNat (0x30 + n) else CodePoint.ofNat (0x37 + n)

def upperHex : Nat → Nat → Text
  | 0, _ => []
  | width + 1, n => upperHex width (n / 16) ++ [upperHexDigit (n % 16)]

def escapeLetters : List (Nat × Char) :=
  [(0x00, '0'), (0x07, 'a'), (0x08, 'b'), (0x09, 't'), (0x0A, 'n'), (0x0B, 'v'), (0x0C, 'f'),
   (0x0D, 'r'), (0x1B, 'e'), (0x22, '"'), (0x5C, '\\'), (0x85, 'N'), (0xA0, '_'), (0x2028, 'L'),
   (0x2029, 'P')]

def escape (c : CodePoint) : Text :=
  '\\' ::
    match escapeLetters.find? fun (n, _) => n = c.val with
    | some (_, letter) => [(letter : CodePoint)]
    | none =>
      if c.val ≤ 0xFF then "x" ++ upperHex 2 c.val
      else if c.val ≤ 0xFFFF then "u" ++ upperHex 4 c.val
      else "U" ++ upperHex 8 c.val

def double (p : Pen) (first spaced : Bool) : Text → Pen
  | [] => p
  | c :: t =>
    if !isPrintable c || isBreak c || c = '"' || c = '\\' then
      double ((escape c).foldl Pen.put p) false false t
    else if c = space then
      if !spaced && p.isLong && !first && !t.isEmpty then
        let p := p.fold
        double (if startsSpace t then p.put '\\' else p) false true t
      else double (p.put c) false true t
    else double (p.put c) false false t

/-- The text behind an indicator that ends at `column`, with a space in front. -/
def scalar (column : Nat) (t : Text) : Text :=
  let p : Pen := ⟨column + 1, [space]⟩
  let done :=
    if allowsPlain t && isPlainText t then plain p false t
    else if allowsSingle t then (single (p.put '\'') true false false t).put '\''
    else (double (p.put '"') true false t).put '"'
  done.written.reverse

def sequence (items : List Text) : Text :=
  if items.isEmpty then " []" else items.flatMap fun t => "\n-" ++ scalar 1 t

end Yaml

end ThreatDesk
