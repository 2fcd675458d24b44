/-!
# Text

A text is a list of code points. Surrogates count as code points, because a JSON escape can name
one alone. Main statement: a literal loses nothing (`toString_ofString`).
-/

namespace ThreatDesk

/-- A Unicode code point, surrogates included. -/
structure CodePoint where
  val : Nat
  isLt : val < 0x110000
deriving DecidableEq

namespace CodePoint

theorem toNat_lt (c : Char) : c.toNat < 0x110000 := by
  have h := c.valid
  unfold UInt32.isValidChar Nat.isValidChar at h
  unfold Char.toNat
  omega

def ofChar (c : Char) : CodePoint := ⟨c.toNat, toNat_lt c⟩

instance : Coe Char CodePoint := ⟨ofChar⟩

def replacement : CodePoint := ⟨0xFFFD, by decide⟩

/-- The code point of number `n`, or the replacement character where there is none. -/
def ofNat (n : Nat) : CodePoint := if h : n < 0x110000 then ⟨n, h⟩ else replacement

def isSurrogate (c : CodePoint) : Bool := 0xD800 ≤ c.val && c.val ≤ 0xDFFF

def toChar (c : CodePoint) : Char := if c.isSurrogate then '\uFFFD' else Char.ofNat c.val

def isDigit (c : CodePoint) : Bool := 0x30 ≤ c.val && c.val ≤ 0x39

def hexValue? (c : CodePoint) : Option Nat :=
  if c.isDigit then some (c.val - 0x30)
  else if 0x61 ≤ c.val ∧ c.val ≤ 0x66 then some (c.val - 0x57)
  else if 0x41 ≤ c.val ∧ c.val ≤ 0x46 then some (c.val - 0x37)
  else none

theorem ext {c d : CodePoint} (h : c.val = d.val) : c = d := by
  cases c; cases d; simpa using h

theorem ofNat_val (c : CodePoint) : ofNat c.val = c := by
  simp [ofNat, c.isLt]

theorem toChar_ofChar (c : Char) : (ofChar c).toChar = c := by
  have h := c.valid
  unfold UInt32.isValidChar Nat.isValidChar at h
  have hs : ¬ (ofChar c).isSurrogate = true := by
    have hv : (ofChar c).val = c.val.toNat := rfl
    simp only [isSurrogate, hv, Bool.and_eq_true, decide_eq_true_eq]
    omega
  rw [toChar, if_neg hs]
  exact Char.ofNat_toNat c

end CodePoint

abbrev Text := List CodePoint

namespace Text

def ofString (s : String) : Text := s.toList.map CodePoint.ofChar

instance : Coe String Text := ⟨ofString⟩

def toString (t : Text) : String := String.ofList (t.map CodePoint.toChar)

theorem toString_ofString (s : String) : toString (ofString s) = s := by
  have : CodePoint.toChar ∘ CodePoint.ofChar = id := by
    funext c
    simp [CodePoint.toChar_ofChar]
  simp [toString, ofString, List.map_map, this]

/-! ## Searching -/

/-- The rest of `t` after `start`, if `t` begins with it. -/
def after? (start : Text) (t : Text) : Option Text :=
  match start, t with
  | [], t => some t
  | _ :: _, [] => none
  | a :: start, b :: t => if a = b then after? start t else none

def startsWith (t start : Text) : Bool := (after? start t).isSome

def endsWith (t stop : Text) : Bool := startsWith t.reverse stop.reverse

def occurs (needle : Text) : Text → Bool
  | [] => needle.isEmpty
  | c :: t => startsWith (c :: t) needle || occurs needle t

/-- The text before the last `c` and the text after it. -/
def splitAtLast? (c : CodePoint) : Text → Option (Text × Text)
  | [] => none
  | d :: t =>
    match splitAtLast? c t with
    | some (before, rest) => some (d :: before, rest)
    | none => if d = c then some ([], t) else none

theorem after?_eq_some {start t rest : Text} : after? start t = some rest ↔ t = start ++ rest := by
  fun_induction after? start t with
  | case1 t => simp [eq_comm]
  | case2 => simp
  | case3 a start t ih => simp [ih]
  | case4 a start b t h => simp [Ne.symm h]

theorem startsWith_iff {t start : Text} : startsWith t start = true ↔ start <+: t := by
  simp only [startsWith, Option.isSome_iff_exists, after?_eq_some]
  exact ⟨fun ⟨r, h⟩ => ⟨r, h.symm⟩, fun ⟨r, h⟩ => ⟨r, h.symm⟩⟩

/-! ## Order -/

def le : Text → Text → Bool
  | [], _ => true
  | _ :: _, [] => false
  | a :: s, b :: t => a.val < b.val || (a.val = b.val && le s t)

def leAll : List Text → List Text → Bool
  | [], _ => true
  | _ :: _, [] => false
  | s :: ss, t :: ts => if s = t then leAll ss ts else le s t

/-! ## Lines and pieces -/

def newline : CodePoint := '\n'

def intercalate (between : Text) (texts : List Text) : Text := List.intercalate between texts

def replicate (n : Nat) (text : Text) : Text := (List.replicate n text).flatten

/-- Carriage returns, alone or before a line feed, read as line feeds. -/
def normaliseNewlines : Text → Text
  | [] => []
  | c :: t =>
    if c = '\r' then
      match t with
      | [] => [newline]
      | d :: t => if d = '\n' then newline :: normaliseNewlines t
                  else newline :: normaliseNewlines (d :: t)
    else c :: normaliseNewlines t

end Text

end ThreatDesk
