import ThreatDesk.Text.Printable

/-!
# Quoted text

How a text is shown inside a message: between quotes, with what cannot be shown escaped. Values that are
no texts are put together from what is shown of their parts.
-/

namespace ThreatDesk

namespace Text

def hexDigit (n : Nat) : CodePoint :=
  if n < 10 then CodePoint.ofNat (0x30 + n) else CodePoint.ofNat (0x57 + n)

/-- The last `width` hexadecimal digits of `n`, in small letters. -/
def hex : Nat → Nat → Text
  | 0, _ => []
  | width + 1, n => hex width (n / 16) ++ [hexDigit (n % 16)]

def ofNat (n : Nat) : Text := (Nat.toDigits 10 n).map CodePoint.ofChar

def ofInt : Int → Text
  | .ofNat n => ofNat n
  | .negSucc n => "-" ++ ofNat (n + 1)

def ofNatPadded (width n : Nat) : Text :=
  let digits := ofNat n
  List.replicate (width - digits.length) ('0' : CodePoint) ++ digits

end Text

namespace Quoted

/-- Double quotes stand only around a text that has single ones and no double ones. -/
def mark (t : Text) : CodePoint :=
  if t.contains ('\'' : CodePoint) && !t.contains ('"' : CodePoint) then '"' else '\''

def ofCodePoint (mark c : CodePoint) : Text :=
  if c = mark ∨ c = '\\' then ['\\', c]
  else if c = '\n' then "\\n"
  else if c = '\r' then "\\r"
  else if c = '\t' then "\\t"
  else if c.isPrintable then [c]
  else if c.val < 0x100 then "\\x" ++ Text.hex 2 c.val
  else if c.val < 0x10000 then "\\u" ++ Text.hex 4 c.val
  else "\\U" ++ Text.hex 8 c.val

end Quoted

def Text.quoted (t : Text) : Text :=
  let mark := Quoted.mark t
  mark :: t.flatMap (Quoted.ofCodePoint mark) ++ [mark]

/-! ## Values in messages -/

namespace Shown

def nothing : Text := "None"

def truth (b : Bool) : Text := if b then "True" else "False"

def items (shown : List Text) : Text := "[" ++ Text.intercalate ", " shown ++ "]"

def entry (name shown : Text) : Text := name.quoted ++ ": " ++ shown

def entries (shown : List Text) : Text := "\x7b" ++ Text.intercalate ", " shown ++ "\x7d"

end Shown

end ThreatDesk
