import ThreatDesk.Json.Printer

/-!
# Atoms

JSON values without parts. They can be looked up: two atoms are the same if they are of one value,
where true counts as one and false as zero.
-/

namespace ThreatDesk

namespace Json

inductive Atom
  | null
  | bool (b : Bool)
  | number (n : Number)
  | text (t : Text)
deriving DecidableEq

def atom? : Json → Option Atom
  | .null => some .null
  | .bool b => some (.bool b)
  | .number n => some (.number n)
  | .text t => some (.text t)
  | .array _ | .object _ => none

namespace Atom

def toJson : Atom → Json
  | .null => .null
  | .bool b => .bool b
  | .number n => .number n
  | .text t => .text t

theorem atom?_toJson (a : Atom) : a.toJson.atom? = some a := by cases a <;> rfl

theorem toJson_of_atom? {v : Json} {a : Atom} (h : v.atom? = some a) : a.toJson = v := by
  cases v <;> simp only [atom?, Option.some.injEq, reduceCtorEq] at h <;> subst h <;> rfl

def text? : Atom → Option Text
  | .text t => some t
  | _ => none

def number? : Atom → Option Number
  | .bool b => some (if b then 1 else 0)
  | .number n => some n
  | .null | .text _ => none

def same (a b : Atom) : Bool :=
  match a.number?, b.number? with
  | some m, some n => m.same n
  | _, _ => a = b

theorem same_self (a : Atom) : a.same a = true := by
  unfold same
  split
  · next m n hm hn => rw [hm] at hn; cases hn; exact m.same_self
  · simp

theorem same_text {s t : Text} : same (.text s) (.text t) = true ↔ s = t := by
  simp [same, number?]

def fieldName : Atom → Text
  | .text t => t
  | a => a.toJson.toLine

end Atom

end Json

end ThreatDesk
