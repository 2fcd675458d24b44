import ThreatDesk.Json.Atom
import ThreatDesk.Proofs.Number.Rounding

/-!
# What numbers are worth

A number is worth a rational, one of the infinities, or nothing. Numbers are the same if they are worth
the same, whether they are integers or doubles (`Number.same_iff`), and so it is with atoms
(`Atom.same_iff`). So being the same is an equivalence.
-/

namespace ThreatDesk

/-- What a number is worth. -/
inductive Worth
  | nothing
  | infinite (negative : Bool)
  | exact (q : ℚ)

theorem div_eq_div_iff_not_lt {a c : Int} {b d : Nat} (hb : 0 < b) (hd : 0 < d) :
    (a : ℚ) / b = c / d ↔ ¬ a * d < c * b ∧ ¬ c * b < a * d := by
  have hb' : (b : ℚ) ≠ 0 := by positivity
  have hd' : (d : ℚ) ≠ 0 := by positivity
  have hcast : (a : ℚ) * d = c * b ↔ a * d = c * b := by norm_cast
  rw [div_eq_div_iff hb' hd', hcast]
  omega

namespace Binary64

variable {s t : Bool} {m n : Nat} {e f : Int}

def numerator (s : Bool) (m : Nat) (e : Int) : Int :=
  if s then -Int.ofNat (ratio m e).1 else Int.ofNat (ratio m e).1

def denominator (m : Nat) (e : Int) : Nat := (ratio m e).2

theorem denominator_pos : 0 < denominator m e := by
  unfold denominator ratio
  split
  · exact Nat.one_pos
  · exact twoTo_pos _

def worth : Binary64 → Worth
  | .nan => .nothing
  | .infinity s => .infinite s
  | .finite s m e => .exact (numerator s m e / denominator m e)

theorem lt_finite :
    (finite s m e).lt (.finite t n f) =
      decide (numerator s m e * denominator n f < numerator t n f * denominator m e) := by
  unfold lt numerator denominator
  cases s <;> cases t <;> simp

end Binary64

namespace Number

open Binary64 (numerator denominator denominator_pos)

variable {m n : Number}

def worth : Number → Worth
  | .integer n => .exact n
  | .real x => x.worth

theorem same_eq (hm : m ≠ .real .nan) (hn : n ≠ .real .nan) :
    m.same n = (!m.lt n && !n.lt m) := by
  unfold same
  split
  · exact absurd rfl hm
  · exact absurd rfl hm
  · exact absurd rfl hn
  · rfl

theorem same_comm (m n : Number) : m.same n = n.same m := by
  by_cases hm : m = .real .nan
  · subst hm
    cases n with
    | integer n => rfl
    | real y => cases y <;> rfl
  · by_cases hn : n = .real .nan
    · subst hn
      cases m with
      | integer m => rfl
      | real x => cases x <;> rfl
    · rw [same_eq hm hn, same_eq hn hm, Bool.and_comm]

theorem same_integer_finite (n : Int) (s : Bool) (m : Nat) (e : Int) :
    (integer n).same (.real (.finite s m e)) = true ↔
      (integer n).worth = (real (.finite s m e)).worth := by
  have hlt : (integer n).lt (.real (.finite s m e)) =
      decide (n * denominator m e < numerator s m e) := rfl
  have hgt : (real (.finite s m e)).lt (.integer n) =
      decide (numerator s m e < n * denominator m e) := rfl
  have h := div_eq_div_iff_not_lt (a := n) (c := numerator s m e) Nat.one_pos
    (denominator_pos (m := m) (e := e))
  rw [same_eq (by simp) (by simp), hlt, hgt]
  simpa [worth, Binary64.worth] using h.symm

theorem same_iff (m n : Number) : m.same n = true ↔ m.worth = n.worth := by
  cases m with
  | integer m =>
    cases n with
    | integer n =>
      have h : (m : ℚ) = n ↔ m = n := Int.cast_inj
      rw [same_eq (by simp) (by simp)]
      simp only [lt, worth, Worth.exact.injEq, h, Bool.and_eq_true, Bool.not_eq_true',
        decide_eq_false_iff_not]
      omega
    | real y =>
      cases y with
      | nan => simp [same, worth, Binary64.worth]
      | infinity s => cases s <;> simp [same, lt, worth, Binary64.worth]
      | finite s k e => exact same_integer_finite m s k e
  | real x =>
    cases n with
    | integer n =>
      rw [same_comm, @eq_comm _ (worth _)]
      cases x with
      | nan => simp [same, worth, Binary64.worth]
      | infinity s => cases s <;> simp [same, lt, worth, Binary64.worth]
      | finite s k e => exact same_integer_finite n s k e
    | real y =>
      cases x with
      | nan => cases y <;> simp [same, worth, Binary64.worth]
      | infinity s =>
        cases y with
        | nan => simp [same, worth, Binary64.worth]
        | infinity t => cases s <;> cases t <;> simp [same, lt, Binary64.lt, worth, Binary64.worth]
        | finite t k f => cases s <;> simp [same, lt, Binary64.lt, worth, Binary64.worth]
      | finite s k e =>
        cases y with
        | nan => simp [same, worth, Binary64.worth]
        | infinity t => cases t <;> simp [same, lt, Binary64.lt, worth, Binary64.worth]
        | finite t l f =>
          have h := div_eq_div_iff_not_lt (a := numerator s k e) (c := numerator t l f)
            (denominator_pos (m := k) (e := e)) (denominator_pos (m := l) (e := f))
          rw [same_eq (by simp) (by simp)]
          simp only [lt, Binary64.lt_finite]
          simpa [worth, Binary64.worth] using h.symm

end Number

namespace Json.Atom

def worth (a : Atom) : Worth ⊕ Atom :=
  match a.number? with
  | some n => .inl n.worth
  | none => .inr a

variable {a b c : Atom}

theorem same_iff : a.same b = true ↔ a.worth = b.worth := by
  unfold same worth
  cases ha : a.number? with
  | some m =>
    cases hb : b.number? with
    | some n => simpa using m.same_iff n
    | none =>
      have hne : a ≠ b := by
        rintro rfl
        cases ha.symm.trans hb
      simpa using hne
  | none =>
    cases hb : b.number? with
    | some n =>
      have hne : a ≠ b := by
        rintro rfl
        cases ha.symm.trans hb
      simpa using hne
    | none => simp

theorem same_symm (h : a.same b = true) : b.same a = true := same_iff.2 (same_iff.1 h).symm

theorem same_trans (h : a.same b = true) (k : b.same c = true) : a.same c = true :=
  same_iff.2 ((same_iff.1 h).trans (same_iff.1 k))

end Json.Atom

end ThreatDesk
