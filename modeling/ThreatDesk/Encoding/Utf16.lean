import ThreatDesk.Encoding.Basic
import ThreatDesk.Encoding.Utf8

/-!
# UTF-16 and UTF-32

Both byte orders, and how the encoding of a document is told: a byte order mark decides; without one, the
zero bytes among the first four do, because a document starts with two ASCII characters.
-/

namespace ThreatDesk

open Encoding (Piece Scheme)

inductive ByteOrder
  | little
  | big

namespace Utf16

def unit (order : ByteOrder) (a b : UInt8) : Nat :=
  match order with
  | .little => a.toNat + 256 * b.toNat
  | .big => 256 * a.toNat + b.toNat

def isHigh (u : Nat) : Bool := 0xD800 ≤ u && u ≤ 0xDBFF
def isLow (u : Nat) : Bool := 0xDC00 ≤ u && u ≤ 0xDFFF

def join (high low : Nat) : Nat := 0x10000 + (high - 0xD800) * 0x400 + (low - 0xDC00)

def next (order : ByteOrder) : Bytes → Piece
  | a :: b :: rest =>
    let u := unit order a b
    if isLow u then .flaw "illegal encoding" 2
    else if isHigh u then
      match rest with
      | c :: d :: _ =>
        let v := unit order c d
        if isLow v then .code (CodePoint.ofNat (join u v)) 4 else .flaw "illegal UTF-16 surrogate" 2
      | [_] => .flaw "unexpected end of data" 3
      | [] => .flaw "unexpected end of data" 2
    else .code (CodePoint.ofNat u) 2
  | _ => .flaw "truncated data" 1

def surrogate? (order : ByteOrder) : Bytes → Option (CodePoint × Nat)
  | a :: b :: _ =>
    let u := unit order a b
    if isHigh u || isLow u then some (CodePoint.ofNat u, 2) else none
  | _ => none

def scheme (order : ByteOrder) : Scheme where
  name := match order with | .little => "utf-16-le" | .big => "utf-16-be"
  next := next order
  surrogate? := surrogate? order

end Utf16

namespace Utf32

def unit (order : ByteOrder) (a b c d : UInt8) : Nat :=
  match order with
  | .little => Utf16.unit .little a b + 65536 * Utf16.unit .little c d
  | .big => 65536 * Utf16.unit .big a b + Utf16.unit .big c d

def isSurrogate (u : Nat) : Bool := 0xD800 ≤ u && u ≤ 0xDFFF

def next (order : ByteOrder) : Bytes → Piece
  | a :: b :: c :: d :: _ =>
    let u := unit order a b c d
    if isSurrogate u then .flaw "code point in surrogate code point range(0xd800, 0xe000)" 4
    else if u < 0x110000 then .code (CodePoint.ofNat u) 4
    else .flaw "code point not in range(0x110000)" 4
  | bs => .flaw "truncated data" bs.length

def surrogate? (order : ByteOrder) : Bytes → Option (CodePoint × Nat)
  | a :: b :: c :: d :: _ =>
    let u := unit order a b c d
    if isSurrogate u then some (CodePoint.ofNat u, 4) else none
  | _ => none

def scheme (order : ByteOrder) : Scheme where
  name := match order with | .little => "utf-32-le" | .big => "utf-32-be"
  next := next order
  surrogate? := surrogate? order

end Utf32

/-! ## Guessing the encoding of a document -/

namespace Encoding

structure Guess where
  scheme : Scheme
  mark : Nat
  /-- Whether positions in a fault count the bytes of the mark. -/
  markCounts : Bool := true

def guess : Bytes → Guess
  | 0x00 :: 0x00 :: 0xFE :: 0xFF :: _ => ⟨Utf32.scheme .big, 4, true⟩
  | 0xFF :: 0xFE :: 0x00 :: 0x00 :: _ => ⟨Utf32.scheme .little, 4, true⟩
  | 0xFE :: 0xFF :: _ => ⟨Utf16.scheme .big, 2, true⟩
  | 0xFF :: 0xFE :: _ => ⟨Utf16.scheme .little, 2, true⟩
  | 0xEF :: 0xBB :: 0xBF :: _ => ⟨Utf8.scheme, 3, false⟩
  | a :: b :: c :: d :: _ =>
    if a = 0 then ⟨if b ≠ 0 then Utf16.scheme .big else Utf32.scheme .big, 0, true⟩
    else if b = 0 then ⟨if c ≠ 0 || d ≠ 0 then Utf16.scheme .little else Utf32.scheme .little, 0, true⟩
    else ⟨Utf8.scheme, 0, true⟩
  | [a, b] =>
    if a = 0 then ⟨Utf16.scheme .big, 0, true⟩
    else if b = 0 then ⟨Utf16.scheme .little, 0, true⟩
    else ⟨Utf8.scheme, 0, true⟩
  | _ => ⟨Utf8.scheme, 0, true⟩

/-- The text of a document. Lone surrogates are let through. -/
def readDocument (bs : Bytes) : Except DecodeFault Text :=
  let g := guess bs
  match g.scheme.tolerant (bs.drop g.mark) with
  | .ok t => .ok t
  | .error f => .error (if g.markCounts then { f with start := f.start + g.mark } else f)

end Encoding

end ThreatDesk
