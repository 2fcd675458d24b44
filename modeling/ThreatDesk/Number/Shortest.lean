import ThreatDesk.Number.Binary64
import ThreatDesk.Text.Quoted

/-!
# The shortest decimal of a double

Among the decimals that round to a double, the one with the fewest digits, and of those the nearest.
`Binary64.toText` writes it.
-/

namespace ThreatDesk

namespace Shortest

/-- The reals that round to a double, as multiples of one unit: `low`, the double itself and `high`,
and whether the two ends belong to it. -/
structure Interval where
  low : Nat
  value : Nat
  high : Nat
  closed : Bool

/-- The interval of `mantissa * 2 ^ e` in quarters of its last bit. Below a power of two the
neighbour is half as far away. -/
def interval (mantissa : Nat) (e : Int) : Interval where
  low := if mantissa = twoTo 52 ∧ Binary64.leastExponent < e then 4 * mantissa - 1 else 4 * mantissa - 2
  value := 4 * mantissa
  high := 4 * mantissa + 2
  closed := mantissa % 2 = 0

def quotient (n : Nat) (e p : Int) : Nat × Nat :=
  (n * twoTo e.toNat * tenTo (-p).toNat, twoTo (-e).toNat * tenTo p.toNat)

def reads (i : Interval) (e : Int) (digits : Nat) (p : Int) : Bool :=
  let (low, den) := quotient i.low e p
  let (high, _) := quotient i.high e p
  if i.closed then low ≤ digits * den && digits * den ≤ high
  else low < digits * den && digits * den < high

/-- The multiple of `10 ^ p` nearest to the value that lies in the interval. -/
def onGrid? (i : Interval) (e p : Int) : Option Nat :=
  let (num, den) := quotient i.value e p
  let below := num / den
  let nearest := Binary64.roundDiv num den
  if reads i e nearest p then some nearest
  else if reads i e below p then some below
  else if reads i e (below + 1) p then some (below + 1)
  else none

def magnitude (n : Nat) (e : Int) : Int :=
  let guess := Int.fdiv (((Nat.log2 n : Int) + e) * 30103) 100000
  let atLeast (p : Int) : Bool := let (num, den) := quotient n e p; den ≤ num
  if atLeast (guess + 1) then guess + 1 else if atLeast guess then guess else guess - 1

def decimal (mantissa : Nat) (exponent : Int) : Nat × Int :=
  let i := interval mantissa exponent
  let e := exponent - 2
  let top := magnitude i.value e
  let grids : List Int := (List.range 17).map fun (n : Nat) => top - n
  match grids.findSome? fun p => (onGrid? i e p).map fun digits => (digits, p) with
  | some found => found
  | none => (i.value, e)

def stripZeros : Nat → Nat → Int → Nat × Int
  | 0, digits, p => (digits, p)
  | fuel + 1, digits, p =>
    if digits % 10 = 0 && digits ≠ 0 then stripZeros fuel (digits / 10) (p + 1) else (digits, p)

end Shortest

namespace Binary64

/-- A magnitude is written with a point when its leading digit stands within these powers of ten,
and with an exponent of two digits or more otherwise. -/
def leastPositional : Int := -4
def greatestPositional : Int := 15

def exponentText (p : Int) : Text :=
  (if p < 0 then "e-" else "e+") ++ Text.ofNatPadded 2 p.natAbs

def decimalText (digits : Nat) (p : Int) : Text :=
  let ds := Text.ofNat digits
  let top := p + ds.length - 1
  if leastPositional ≤ top ∧ top ≤ greatestPositional then
    if 0 ≤ p then ds ++ Text.replicate p.toNat "0" ++ ".0"
    else if 0 ≤ top then ds.take (top + 1).toNat ++ "." ++ ds.drop (top + 1).toNat
    else "0." ++ Text.replicate (-top - 1).toNat "0" ++ ds
  else
    match ds with
    | [] => []
    | d :: [] => d :: exponentText top
    | d :: rest => d :: "." ++ rest ++ exponentText top

def toText : Binary64 → Text
  | .nan => "nan"
  | .infinity s => if s then "-inf" else "inf"
  | .finite s m e =>
    let magnitude : Text :=
      if m = 0 then "0.0"
      else
        let (digits, p) := Shortest.decimal m e
        let (digits, p) := Shortest.stripZeros 20 digits p
        decimalText digits p
    if s then "-" ++ magnitude else magnitude

end Binary64

end ThreatDesk
