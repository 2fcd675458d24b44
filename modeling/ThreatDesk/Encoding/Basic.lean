import ThreatDesk.Text.Quoted

/-!
# Reading bytes as text

A scheme reads one code point at the start of the bytes or names a flaw there. What is done about a
flaw is up to the reader: `strict` refuses it, `lossy` puts U+FFFD in its place, `tolerant` lets lone
surrogates through.
-/

namespace ThreatDesk

abbrev Bytes := List UInt8

namespace Encoding

/-- What stands at the start of some bytes: a code point or a flaw, and how many bytes it takes. -/
inductive Piece
  | code (c : CodePoint) (length : Nat)
  | flaw (reason : String) (length : Nat)

structure Scheme where
  name : String
  next : Bytes → Piece
  surrogate? : Bytes → Option (CodePoint × Nat)

structure DecodeFault where
  scheme : String
  start : Nat
  length : Nat
  first : UInt8
  reason : String

def DecodeFault.message (f : DecodeFault) : Text :=
  let head : Text := "'" ++ f.scheme ++ "' codec can't decode "
  if f.length = 1 then
    head ++ "byte 0x" ++ Text.hex 2 f.first.toNat ++ " in position " ++ Text.ofNat f.start ++ ": " ++
      f.reason
  else
    head ++ "bytes in position " ++ Text.ofNat f.start ++ "-" ++ Text.ofNat (f.start + f.length - 1) ++
      ": " ++ f.reason

/-- What a reader does about a flaw: the code point to go on with and the bytes it stands for. -/
abbrev Mend := Bytes → Nat → Option (CodePoint × Nat)

/-- The text of the bytes, appended to `read` in reverse. `skip` bytes belong to the piece before. -/
def decodeFrom (s : Scheme) (mend : Mend) (read : Text) :
    (skip pos : Nat) → Bytes → Except DecodeFault Text
  | _, _, [] => .ok read.reverse
  | skip + 1, pos, _ :: bs => decodeFrom s mend read skip (pos + 1) bs
  | 0, pos, b :: bs =>
    match s.next (b :: bs) with
    | .code c length => decodeFrom s mend (c :: read) (length - 1) (pos + 1) bs
    | .flaw reason length =>
      match mend (b :: bs) length with
      | some (c, length) => decodeFrom s mend (c :: read) (length - 1) (pos + 1) bs
      | none => .error ⟨s.name, pos, length, b, reason⟩

def Scheme.strict (s : Scheme) (bs : Bytes) : Except DecodeFault Text :=
  decodeFrom s (fun _ _ => none) [] 0 0 bs

def Scheme.tolerant (s : Scheme) (bs : Bytes) : Except DecodeFault Text :=
  decodeFrom s (fun rest _ => s.surrogate? rest) [] 0 0 bs

def Scheme.lossy (s : Scheme) (bs : Bytes) : Text :=
  match decodeFrom s (fun _ length => some (CodePoint.replacement, length)) [] 0 0 bs with
  | .ok t => t
  | .error _ => []

/-! ## Writing -/

structure EncodeFault where
  start : Nat
  length : Nat
  first : CodePoint

def EncodeFault.message (f : EncodeFault) : Text :=
  if f.length = 1 then
    "'utf-8' codec can't encode character '\\u" ++ Text.hex 4 f.first.val ++ "' in position " ++
      Text.ofNat f.start ++ ": surrogates not allowed"
  else
    "'utf-8' codec can't encode characters in position " ++ Text.ofNat f.start ++ "-" ++
      Text.ofNat (f.start + f.length - 1) ++ ": surrogates not allowed"

/-- The first surrogate from position `pos` on that is no mark, and those right behind it; a mark is
one that stands for something else. -/
def unmarkedRun? (isMark : CodePoint → Bool) (pos : Nat) : Text → Option EncodeFault
  | [] => none
  | c :: t =>
    if c.isSurrogate && !isMark c then
      some ⟨pos, (t.takeWhile CodePoint.isSurrogate).length + 1, c⟩
    else unmarkedRun? isMark (pos + 1) t

def surrogateRun? (pos : Nat) (t : Text) : Option EncodeFault := unmarkedRun? (fun _ => false) pos t

end Encoding

end ThreatDesk
