import ThreatDesk.Number.Shortest
import ThreatDesk.Text.Integer

/-!
# Numbers

An integer of any size or a double.
-/

namespace ThreatDesk

inductive Number
  | integer (n : Int)
  | real (x : Binary64)
deriving DecidableEq

namespace Number

instance : OfNat Number n := ⟨.integer (.ofNat n)⟩

def toText : Number → Text
  | .integer n => Text.ofInt n
  | .real x => x.toText

def written : Number → Except Integer.Fault Text
  | .integer n => Integer.toText n
  | .real x => .ok x.toText

inductive Fault
  | infinite
  | notANumber

def Fault.message : Fault → Text
  | .infinite => "cannot convert float infinity to integer"
  | .notANumber => "cannot convert float NaN to integer"

def whole : Number → Except Fault Int
  | .integer n => .ok n
  | .real .nan => .error .notANumber
  | .real (.infinity _) => .error .infinite
  | .real x => .ok ((x.trunc?).getD 0)

def isZero : Number → Bool
  | .integer n => n = 0
  | .real x => x.isZero

def lt : Number → Number → Bool
  | .integer m, .integer n => m < n
  | .integer m, .real x =>
    match x with
    | .nan => false
    | .infinity s => !s
    | .finite s k e =>
      let (num, den) := Binary64.ratio k e
      m * den < (if s then -Int.ofNat num else Int.ofNat num)
  | .real x, .integer n =>
    match x with
    | .nan => false
    | .infinity s => s
    | .finite s k e =>
      let (num, den) := Binary64.ratio k e
      (if s then -Int.ofNat num else Int.ofNat num) < n * den
  | .real x, .real y => x.lt y

/-- Whether two numbers are of one value, exactly; NaN is of its own. -/
def same : Number → Number → Bool
  | .real .nan, .real .nan => true
  | .real .nan, _ | _, .real .nan => false
  | m, n => !m.lt n && !n.lt m

theorem same_self (n : Number) : n.same n = true := by
  cases n with
  | integer n => simp [same, lt]
  | real x => cases x <;> simp [same, lt, Binary64.lt]

end Number

end ThreatDesk
