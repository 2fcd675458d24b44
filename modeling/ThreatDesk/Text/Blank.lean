import ThreatDesk.Text.Basic

/-!
# White space and words

Main statement: the words of a text are non-empty and hold no white space (`forall_mem_words`).
-/

namespace ThreatDesk

/-- White space: the separators of Unicode and the controls that divide lines, fields and records. -/
def CodePoint.isBlank (c : CodePoint) : Bool :=
  (0x09 ≤ c.val && c.val ≤ 0x0D) || (0x1C ≤ c.val && c.val ≤ 0x20) || c.val = 0x85 ||
  c.val = 0xA0 || c.val = 0x1680 || (0x2000 ≤ c.val && c.val ≤ 0x200A) ||
  c.val = 0x2028 || c.val = 0x2029 || c.val = 0x202F || c.val = 0x205F || c.val = 0x3000

namespace Text

def trimStart (t : Text) : Text := t.dropWhile CodePoint.isBlank

def trimEnd (t : Text) : Text := (t.reverse.dropWhile CodePoint.isBlank).reverse

def trim (t : Text) : Text := trimEnd (trimStart t)

/-- The words of `t` when `word`, in reverse, has been read of the current one. -/
def wordsFrom (word : Text) : Text → List Text
  | [] => if word.isEmpty then [] else [word.reverse]
  | c :: t =>
    if c.isBlank then
      if word.isEmpty then wordsFrom [] t else word.reverse :: wordsFrom [] t
    else wordsFrom (c :: word) t

def words (t : Text) : List Text := wordsFrom [] t

/-- What follows the first `n` words and the white space behind them. -/
def dropWords : Nat → Text → Text
  | 0, t => trimStart t
  | n + 1, t => dropWords n ((trimStart t).dropWhile fun c => !c.isBlank)

def IsWord (t : Text) : Prop := t ≠ [] ∧ ∀ c ∈ t, c.isBlank = false

theorem forall_mem_wordsFrom {word t : Text} (h : ∀ c ∈ word, c.isBlank = false) :
    ∀ w ∈ wordsFrom word t, IsWord w := by
  fun_induction wordsFrom word t with
  | case1 word he => simp
  | case2 word he => simpa [IsWord, List.isEmpty_iff] using ⟨by simpa using he, h⟩
  | case3 word c t hc he ih => exact ih (by simp)
  | case4 word c t hc he ih =>
    intro w hw
    rcases List.mem_cons.1 hw with rfl | hw
    · simpa [IsWord] using ⟨by simpa using he, h⟩
    · exact ih (by simp) w hw
  | case5 word c t hc ih =>
    refine ih fun d hd => ?_
    rcases List.mem_cons.1 hd with rfl | hd
    · simpa using hc
    · exact h d hd

theorem forall_mem_words (t : Text) : ∀ w ∈ words t, IsWord w :=
  forall_mem_wordsFrom (by simp)

end Text

end ThreatDesk
