import ThreatDesk.Json.Basic
import ThreatDesk.Text.Integer
import ThreatDesk.Encoding.Utf16

/-!
# Reading JSON

Every reader takes the text from where it stands and returns a value with the text behind it. A
fault carries the text from the place it is about, so that positions are counted only when a message
is made.
-/

namespace ThreatDesk

namespace Json

inductive Problem
  | value
  | propertyName
  | colon
  | comma
  | unterminated
  | control
  | escape
  | unicodeEscape
  | extraData
  | byteOrderMark
deriving DecidableEq

def Problem.message : Problem → Text
  | .value => "Expecting value"
  | .propertyName => "Expecting property name enclosed in double quotes"
  | .colon => "Expecting ':' delimiter"
  | .comma => "Expecting ',' delimiter"
  | .unterminated => "Unterminated string starting at"
  | .control => "Invalid control character at"
  | .escape => "Invalid \\escape"
  | .unicodeEscape => "Invalid \\uXXXX escape"
  | .extraData => "Extra data"
  | .byteOrderMark => "Unexpected UTF-8 BOM (decode using utf-8-sig)"

/-- A problem and where it is: line and column count from one, the offset from zero. -/
structure SyntaxFault where
  problem : Problem
  line : Nat
  column : Nat
  offset : Nat

def SyntaxFault.message (f : SyntaxFault) : Text :=
  f.problem.message ++ ": line " ++ Text.ofNat f.line ++ " column " ++ Text.ofNat f.column ++
    " (char " ++ Text.ofNat f.offset ++ ")"

def SyntaxFault.at (problem : Problem) (document : Text) (offset : Nat) : SyntaxFault :=
  let before := document.take offset
  { problem, offset
    line := before.count Text.newline + 1
    column := (before.reverse.takeWhile (· ≠ Text.newline)).length + 1 }

inductive Fault
  | malformed (fault : SyntaxFault)
  | number (fault : Integer.Fault)
  | nested (inObject : Bool)
  | undecodable (fault : Encoding.DecodeFault)

namespace Reader

/-- A problem with the text from where it occurs, or a fault without a place. -/
inductive Stop
  | problem (p : Problem) (rest : Text)
  | number (fault : Integer.Fault)
  | nested (inObject : Bool)

abbrev Result (α : Type) := Except Stop (α × Text)

def isSpace (c : CodePoint) : Bool := c = ' ' || c = '\t' || c = '\n' || c = '\r'

def skipSpace (t : Text) : Text := t.dropWhile isSpace

/-! ## Strings -/

def hex4? (a b c d : CodePoint) : Option Nat := do
  let a ← a.hexValue?
  let b ← b.hexValue?
  let c ← c.hexValue?
  let d ← d.hexValue?
  return ((a * 16 + b) * 16 + c) * 16 + d

def simpleEscape? (c : CodePoint) : Option CodePoint :=
  if c = '"' ∨ c = '\\' ∨ c = '/' then some c
  else if c = 'b' then some (CodePoint.ofNat 8)
  else if c = 'f' then some (CodePoint.ofNat 12)
  else if c = 'n' then some '\n'
  else if c = 'r' then some '\r'
  else if c = 't' then some '\t'
  else none

/-- What follows a high surrogate of an escape: the low one of a second escape and no less than one
more character, another escape of four digits, no escape at all, or a broken one at that place. -/
def lowSurrogate (t : Text) : Except Text (Option Nat) :=
  match t with
  | b :: u :: d0 :: d1 :: d2 :: d3 :: _ :: _ =>
    if b = '\\' ∧ u = 'u' then
      match hex4? d0 d1 d2 d3 with
      | none => .error (t.drop 1)
      | some n => .ok (if Utf16.isLow n then some n else none)
    else .ok none
  | _ => .ok none

/-- The code point of an escape whose backslash has been read, and how many characters it takes.
A fault carries what stands at its place; `start` is the string from its opening quote. -/
def escape (start : Text) : Text → Except Stop (CodePoint × Nat)
  | [] => .error (.problem .unterminated start)
  | c :: t =>
    if c = 'u' then
      match t with
      | d0 :: d1 :: d2 :: d3 :: e :: rest =>
        match hex4? d0 d1 d2 d3 with
        | none => .error (.problem .unicodeEscape (c :: t))
        | some high =>
          if Utf16.isHigh high then
            match lowSurrogate (e :: rest) with
            | .error place => .error (.problem .unicodeEscape place)
            | .ok (some low) => .ok (CodePoint.ofNat (Utf16.join high low), 11)
            | .ok none => .ok (CodePoint.ofNat high, 5)
          else .ok (CodePoint.ofNat high, 5)
      | _ => .error (.problem .unicodeEscape (c :: t))
    else
      match simpleEscape? c with
      | some d => .ok (d, 1)
      | none => .error (.problem .escape ('\\' :: c :: t))

/-- The string up to its closing quote. `skip` characters belong to the escape before; `start` is
the string from its opening quote. -/
def string (start read : Text) : (skip : Nat) → Text → Result Text
  | _, [] => .error (.problem .unterminated start)
  | skip + 1, _ :: t => string start read skip t
  | 0, c :: t =>
    if c = '"' then .ok (read.reverse, t)
    else if c = '\\' then
      match escape start t with
      | .error stop => .error stop
      | .ok (d, length) => string start (d :: read) length t
    else if c.val < 0x20 then .error (.problem .control (c :: t))
    else string start (c :: read) 0 t

/-! ## Numbers -/

def digitsValue (digits : Text) : Nat := Integer.value (digits.reverse.map (·.val - 0x30))

def fraction? : Text → Option (Text × Text)
  | point :: d :: t =>
    if point = '.' ∧ d.isDigit then
      some (d :: t.takeWhile CodePoint.isDigit, t.dropWhile CodePoint.isDigit)
    else none
  | _ => none

def exponent? : Text → Option (Int × Text)
  | [] => none
  | e :: t =>
    if e = 'e' ∨ e = 'E' then
      let (negative, t) : Bool × Text :=
        match t with
        | [] => (false, t)
        | s :: rest => if s = '-' then (true, rest) else if s = '+' then (false, rest) else (false, t)
      let digits := t.takeWhile CodePoint.isDigit
      if digits.isEmpty then none
      else
        let n := Int.ofNat (digitsValue digits)
        some (if negative then -n else n, t.dropWhile CodePoint.isDigit)
    else none

def whole? : Text → Option (Text × Text)
  | [] => none
  | c :: t =>
    if c = '0' then some ([c], t)
    else if c.isDigit then some (c :: t.takeWhile CodePoint.isDigit, t.dropWhile CodePoint.isDigit)
    else none

/-- A number; a fault that finds none stands at `start`. -/
def number (start t : Text) : Result Json :=
  let (negative, unsigned) : Bool × Text :=
    match t with
    | [] => (false, t)
    | c :: rest => if c = '-' then (true, rest) else (false, t)
  match whole? unsigned with
  | none => .error (.problem .value start)
  | some (whole, rest) =>
    let (places, rest, pointed) :=
      match fraction? rest with
      | some (places, rest) => (places, rest, true)
      | none => ([], rest, false)
    let (power, rest, raised) :=
      match exponent? rest with
      | some (power, rest) => (power, rest, true)
      | none => (0, rest, false)
    if pointed || raised then
      .ok (.number (.real
        (Binary64.ofDecimal negative (digitsValue (whole ++ places)) (power - places.length))), rest)
    else if whole.length > Integer.digitLimit then .error (.number (.tooLong whole.length))
    else
      let n := Int.ofNat (digitsValue whole)
      .ok (.number (.integer (if negative then -n else n)), rest)

def words : List (Text × Json) :=
  [("null", .null), ("true", .bool true), ("false", .bool false), ("NaN", .number (.real .nan)),
   ("Infinity", .number (.real (.infinity false))),
   ("-Infinity", .number (.real (.infinity true)))]

def word? (t : Text) : Option (Json × Text) :=
  words.findSome? fun (word, value) => (Text.after? word t).map fun rest => (value, rest)

/-! ## Values -/

def items (item : Text → Result Json) (read : List Json) : (fuel : Nat) → Text → Result Json
  | 0, t => .error (.problem .value t)
  | fuel + 1, t =>
    match item t with
    | .error stop => .error stop
    | .ok (value, rest) =>
      match skipSpace rest with
      | [] => .error (.problem .comma [])
      | c :: rest =>
        if c = ']' then .ok (.array (value :: read).reverse, rest)
        else if c = ',' then items item (value :: read) fuel (skipSpace rest)
        else .error (.problem .comma (c :: rest))

def fieldName : Text → Result Text
  | [] => .error (.problem .propertyName [])
  | c :: t =>
    if c = '"' then
      match string (c :: t) [] 0 t with
      | .error stop => .error stop
      | .ok (name, rest) =>
        match skipSpace rest with
        | [] => .error (.problem .colon [])
        | d :: rest =>
          if d = ':' then .ok (name, skipSpace rest) else .error (.problem .colon (d :: rest))
    else .error (.problem .propertyName (c :: t))

def fields (item : Text → Result Json) (read : Fields) : (fuel : Nat) → Text → Result Json
  | 0, t => .error (.problem .value t)
  | fuel + 1, t =>
    match fieldName t with
    | .error stop => .error stop
    | .ok (name, rest) =>
      match item rest with
      | .error stop => .error stop
      | .ok (value, rest) =>
        match skipSpace rest with
        | [] => .error (.problem .comma [])
        | c :: rest =>
          if c = '}' then .ok (.object (Fields.ofPairs ((name, value) :: read).reverse), rest)
          else if c = ',' then fields item ((name, value) :: read) fuel (skipSpace rest)
          else .error (.problem .comma (c :: rest))

def array (item : Text → Result Json) (fuel : Nat) (t : Text) : Result Json :=
  match skipSpace t with
  | [] => .error (.problem .value [])
  | c :: rest => if c = ']' then .ok (.array [], rest) else items item [] fuel (c :: rest)

def object (item : Text → Result Json) (fuel : Nat) (t : Text) : Result Json :=
  match skipSpace t with
  | [] => .error (.problem .propertyName [])
  | c :: rest => if c = '}' then .ok (.object [], rest) else fields item [] fuel (c :: rest)

/-- A value nested at most `depth` deep, with at most `fuel` entries in a row. -/
def value (fuel : Nat) : (depth : Nat) → Text → Result Json
  | _, [] => .error (.problem .value [])
  | depth, c :: t =>
    if c = '"' then (string (c :: t) [] 0 t).map fun (s, rest) => (.text s, rest)
    else if c = '[' then
      match depth with
      | 0 => .error (.nested false)
      | depth + 1 => array (value fuel depth) fuel t
    else if c = '{' then
      match depth with
      | 0 => .error (.nested true)
      | depth + 1 => object (value fuel depth) fuel t
    else
      match word? (c :: t) with
      | some found => .ok found
      | none => number (c :: t) (c :: t)

end Reader

/-- How many arrays and objects may be open at once. -/
def nestingLimit : Nat := 990

def Reader.Stop.fault (document : Text) : Stop → Fault
  | .problem p rest => .malformed (SyntaxFault.at p document (document.length - rest.length))
  | .number fault => .number fault
  | .nested inObject => .nested inObject

def ofUnmarked (document : Text) : Except Fault Json :=
  match Reader.value document.length nestingLimit (Reader.skipSpace document) with
  | .error stop => .error (stop.fault document)
  | .ok (value, rest) =>
    match Reader.skipSpace rest with
    | [] => .ok value
    | rest => .error ((Reader.Stop.problem .extraData rest).fault document)

def ofText (document : Text) : Except Fault Json :=
  if (document.head?.map CodePoint.val) = some 0xFEFF then
    .error (.malformed (SyntaxFault.at .byteOrderMark document 0))
  else ofUnmarked document

def ofBytes (bytes : Bytes) : Except Fault Json :=
  match Encoding.readDocument bytes with
  | .ok document => ofUnmarked document
  | .error fault => .error (.undecodable fault)

def Fault.message : Fault → Text
  | .malformed fault => fault.message
  | .number fault => fault.message
  | .nested inObject =>
    "maximum recursion depth exceeded while decoding a JSON " ++
      (if inObject then "object" else "array") ++ " from a unicode string"
  | .undecodable fault => fault.message

end Json

end ThreatDesk
