import ThreatDesk.Encoding.Basic

/-!
# UTF-8

A flaw covers the longest beginning of a valid sequence, so that reading goes on behind it.
-/

namespace ThreatDesk

namespace Utf8

open Encoding (Piece Scheme)

def isTail (b : UInt8) : Bool := 0x80 ≤ b && b ≤ 0xBF

def tailBits (b : UInt8) : Nat := b.toNat % 64

def invalidStart : Piece := .flaw "invalid start byte" 1
def invalidTail (length : Nat) : Piece := .flaw "invalid continuation byte" length
def endOfData (length : Nat) : Piece := .flaw "unexpected end of data" length

/-- Whether `b` may stand second after lead byte `a`: no overlong form, no surrogate, none beyond
the last code point. -/
def isSecond (a b : UInt8) : Bool :=
  isTail b && !(a = 0xE0 && b < 0xA0) && !(a = 0xED && 0xA0 ≤ b) && !(a = 0xF0 && b < 0x90) &&
    !(a = 0xF4 && 0x90 ≤ b)

def two (a : UInt8) : Bytes → Piece
  | b :: _ =>
    if isTail b then .code (CodePoint.ofNat ((a.toNat % 32) * 64 + tailBits b)) 2 else invalidTail 1
  | [] => endOfData 1

def three (a : UInt8) : Bytes → Piece
  | b :: c :: _ =>
    if !isSecond a b then invalidTail 1
    else if !isTail c then invalidTail 2
    else .code (CodePoint.ofNat (((a.toNat % 16) * 64 + tailBits b) * 64 + tailBits c)) 3
  | [b] => if isSecond a b then endOfData 2 else invalidTail 1
  | [] => endOfData 1

def four (a : UInt8) : Bytes → Piece
  | b :: c :: d :: _ =>
    if !isSecond a b then invalidTail 1
    else if !isTail c then invalidTail 2
    else if !isTail d then invalidTail 3
    else
      .code
        (CodePoint.ofNat ((((a.toNat % 8) * 64 + tailBits b) * 64 + tailBits c) * 64 + tailBits d)) 4
  | [b, c] => if !isSecond a b then invalidTail 1 else if isTail c then endOfData 3 else invalidTail 2
  | [b] => if isSecond a b then endOfData 2 else invalidTail 1
  | [] => endOfData 1

def next : Bytes → Piece
  | [] => endOfData 1
  | a :: bs =>
    if a < 0x80 then .code (CodePoint.ofNat a.toNat) 1
    else if a < 0xC2 then invalidStart
    else if a < 0xE0 then two a bs
    else if a < 0xF0 then three a bs
    else if a < 0xF5 then four a bs
    else invalidStart

def surrogate? : Bytes → Option (CodePoint × Nat)
  | a :: b :: c :: _ =>
    if a = 0xED && 0xA0 ≤ b && b ≤ 0xBF && isTail c then
      some (CodePoint.ofNat ((13 * 64 + tailBits b) * 64 + tailBits c), 3)
    else none
  | _ => none

def scheme : Scheme := ⟨"utf-8", next, surrogate?⟩

/-- The bytes of one code point; a surrogate takes three like its neighbours. -/
def encodeCodePoint (c : CodePoint) : Bytes :=
  let n := c.val
  let tail (unit : Nat) : UInt8 := UInt8.ofNat (0x80 + n / unit % 64)
  if n < 0x80 then [UInt8.ofNat n]
  else if n < 0x800 then [UInt8.ofNat (0xC0 + n / 64), tail 1]
  else if n < 0x10000 then [UInt8.ofNat (0xE0 + n / 4096), tail 64, tail 1]
  else [UInt8.ofNat (0xF0 + n / 262144), tail 4096, tail 64, tail 1]

def encode (t : Text) : Except Encoding.EncodeFault Bytes :=
  match Encoding.surrogateRun? 0 t with
  | some fault => .error fault
  | none => .ok (t.flatMap encodeCodePoint)

def size (t : Text) : Nat := (t.flatMap encodeCodePoint).length

end Utf8

end ThreatDesk
