/-!
# Double-precision values

Every operation computes the exact rational result and rounds it once, to the nearest double and
on a tie to the even one. Main statements: rounding a quotient is off by at most a half
(`two_mul_sub_le_roundDiv`), and a rounded finite mantissa fits 53 bits by construction.
-/

namespace ThreatDesk

/-! ## Powers of two and ten -/

def twoTo (n : Nat) : Nat := Nat.pow 2 n

def tenTo (n : Nat) : Nat := Nat.pow 10 n

theorem twoTo_pos (n : Nat) : 0 < twoTo n := Nat.pow_pos (by decide)

theorem tenTo_pos (n : Nat) : 0 < tenTo n := Nat.pow_pos (by decide)

theorem twoTo_add (m n : Nat) : twoTo (m + n) = twoTo m * twoTo n := Nat.pow_add ..

theorem tenTo_add (m n : Nat) : tenTo (m + n) = tenTo m * tenTo n := Nat.pow_add ..

theorem tenTo_le {m n : Nat} (h : m ≤ n) : tenTo m ≤ tenTo n := Nat.pow_le_pow_right (by decide) h

/-! ## Doubles -/

/-- A double: a finite one is `mantissa * 2 ^ exponent`, and zero has a sign as well. -/
inductive Binary64
  | nan
  | infinity (negative : Bool)
  | finite (negative : Bool) (mantissa : Nat) (exponent : Int)
deriving DecidableEq

namespace Binary64

/-- The nearest natural number to `num / den`, on a tie the even one. -/
def roundDiv (num den : Nat) : Nat :=
  let q := num / den
  let r := num % den
  if 2 * r < den then q
  else if den < 2 * r then q + 1
  else q + q % 2

theorem two_mul_sub_le_roundDiv {num den : Nat} (h : 0 < den) :
    2 * (roundDiv num den * den) ≤ 2 * num + den ∧ 2 * num ≤ 2 * (roundDiv num den * den) + den := by
  have hd := Nat.div_add_mod num den
  have hm := Nat.mod_lt num h
  have hc : num / den * den = den * (num / den) := Nat.mul_comm _ _
  unfold roundDiv
  dsimp only
  split
  · omega
  · split
    · rw [Nat.add_mul]; omega
    · rcases Nat.mod_two_eq_zero_or_one (num / den) with h0 | h0 <;> rw [h0]
      · rw [Nat.add_zero]; omega
      · rw [Nat.add_mul]; omega

def scaled (num den : Nat) (e : Int) : Nat × Nat :=
  if 0 ≤ e then (num, den * twoTo e.toNat) else (num * twoTo (-e).toNat, den)

def leastExponent : Int := -1074
def greatestExponent : Int := 971

/-- The exponent at which `num / den` has a mantissa of 53 bits, or the least exponent. -/
def exponentFor (num den : Nat) : Int :=
  let low : Int := (Nat.log2 num : Int) - Nat.log2 den - 53
  let (n, d) := scaled num den low
  let e := if n < d * twoTo 53 then low else low + 1
  max e leastExponent

/-- A mantissa of up to 54 bits with its exponent, put in range. -/
def pack (negative : Bool) (mantissa : Nat) (e : Int) : Binary64 :=
  let (m, e) := if mantissa = twoTo 53 then (twoTo 52, e + 1) else (mantissa, e)
  if greatestExponent < e then .infinity negative else .finite negative m e

def zero (negative : Bool) : Binary64 := .finite negative 0 leastExponent

def ofRatio (negative : Bool) (num den : Nat) : Binary64 :=
  if num = 0 then zero negative
  else
    let e := exponentFor num den
    let (n, d) := scaled num den e
    pack negative (roundDiv n d) e

def ofDecimal (negative : Bool) (digits : Nat) (e : Int) : Binary64 :=
  if digits = 0 then zero negative
  else if 310 < e then .infinity negative
  else if e < -400 - (Nat.log2 digits : Int) then zero negative
  else if 0 ≤ e then ofRatio negative (digits * tenTo e.toNat) 1
  else ofRatio negative digits (tenTo (-e).toNat)

def ofInt (n : Int) : Binary64 := ofRatio (n < 0) n.natAbs 1

def ratio (mantissa : Nat) (e : Int) : Nat × Nat :=
  if 0 ≤ e then (mantissa * twoTo e.toNat, 1) else (mantissa, twoTo (-e).toNat)

def scale (x : Binary64) (n : Nat) : Binary64 :=
  match x with
  | .nan => .nan
  | .infinity s => if n = 0 then .nan else .infinity s
  | .finite s m e => let (num, den) := ratio m e; ofRatio s (num * n) den

def divide (x : Binary64) (n : Nat) : Binary64 :=
  match x with
  | .nan => .nan
  | .infinity s => .infinity s
  | .finite s m e => let (num, den) := ratio m e; ofRatio s num (den * n)

def trunc? : Binary64 → Option Int
  | .finite s m e =>
    let (num, den) := ratio m e
    some (if s then -Int.ofNat (num / den) else Int.ofNat (num / den))
  | _ => none

def fraction (negative : Bool) (mantissa : Nat) (e : Int) : Binary64 :=
  let (num, den) := ratio mantissa e
  ofRatio negative (num % den) den

def round? : Binary64 → Option Int
  | .finite s m e =>
    let (num, den) := ratio m e
    some (if s then -Int.ofNat (roundDiv num den) else Int.ofNat (roundDiv num den))
  | _ => none

def isZero : Binary64 → Bool
  | .finite _ m _ => m = 0
  | _ => false

/-- Whether `x` is below `y`, exactly; nothing is below NaN, and NaN is below nothing. -/
def lt (x y : Binary64) : Bool :=
  match x, y with
  | .nan, _ | _, .nan => false
  | .infinity s, .infinity t => s && !t
  | .infinity s, .finite .. => s
  | .finite .., .infinity t => !t
  | .finite s m e, .finite t n f =>
    let (a, b) := ratio m e
    let (c, d) := ratio n f
    let left : Int := if s then -Int.ofNat (a * d) else Int.ofNat (a * d)
    let right : Int := if t then -Int.ofNat (c * b) else Int.ofNat (c * b)
    left < right

end Binary64

end ThreatDesk
