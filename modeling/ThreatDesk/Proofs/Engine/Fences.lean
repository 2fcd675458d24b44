import Mathlib.Data.List.TakeWhile
import ThreatDesk.Engine.Markdown
import ThreatDesk.Proofs.Text.Padding

/-!
# Code fences around a reply

A text between fences loses the closing one whatever stands before it, and the opening one if the info
string behind it consists of letters (`withoutOpening_lettered`); otherwise the opening line stays
(`withoutOpening_unlettered`). Main statement: `unfence_fenced`.
-/

namespace ThreatDesk

namespace Markdown

open Text (IsSpace IsTrimmed newline)

variable {info body front back t : Text}

def fenced (info body : Text) : Text := fence ++ info ++ newline :: body ++ newline :: fence

theorem fenced_eq (info body : Text) :
    fenced info body = fence ++ (info ++ newline :: body ++ [newline]) ++ fence := by
  simp [fenced]

theorem isTrimmed_fenced (info body : Text) : IsTrimmed (fenced info body) := by
  have hfence : IsTrimmed fence := by decide
  rw [fenced_eq]
  exact hfence.between (by decide) hfence (by decide) _

theorem fenced_ne_nil (info body : Text) : fenced info body ≠ [] := by
  rw [fenced_eq, List.append_assoc]
  exact List.append_ne_nil_of_left_ne_nil (by decide) _

theorem startsWith_fenced (info body : Text) : (fenced info body).startsWith fence = true := by
  rw [fenced_eq, List.append_assoc]
  exact Text.startsWith_iff.2 (List.prefix_append _ _)

/-! ## The two fences -/

theorem after?_fence (rest : Text) : Text.after? fence (fence ++ rest) = some rest :=
  Text.after?_eq_some.2 rfl

theorem withoutOpening_lettered (h : ∀ c ∈ info, isAsciiLetter c = true) (rest : Text) :
    withoutOpening (fence ++ info ++ newline :: rest) = rest := by
  have hdrop : (info ++ newline :: rest).dropWhile isAsciiLetter = newline :: rest := by
    rw [List.dropWhile_append_of_pos h, List.dropWhile_cons_of_neg (by decide)]
  rw [withoutOpening, List.append_assoc, after?_fence]
  simp only [hdrop, if_true]

theorem withoutOpening_unlettered (hline : newline ∉ info)
    (h : ∃ c ∈ info, isAsciiLetter c = false) (rest : Text) :
    withoutOpening (fence ++ info ++ newline :: rest) = fence ++ info ++ newline :: rest := by
  obtain ⟨c, hc, hletter⟩ := h
  have hne : info.dropWhile isAsciiLetter ≠ [] := by
    intro hnil
    exact absurd (List.dropWhile_eq_nil_iff.1 hnil c hc) (by simp [hletter])
  obtain ⟨d, more, hdrop⟩ := List.exists_cons_of_ne_nil hne
  have hd : d ≠ newline := by
    rintro rfl
    exact hline ((List.dropWhile_sublist _).subset (hdrop ▸ List.mem_cons_self))
  have hwhole : (info ++ newline :: rest).dropWhile isAsciiLetter = d :: (more ++ newline :: rest) := by
    rw [List.dropWhile_append, hdrop]
    rfl
  rw [withoutOpening, List.append_assoc, after?_fence]
  simp only [hwhole, if_neg hd]

theorem withoutClosing_fence (t : Text) : withoutClosing (t ++ newline :: fence) = t := by
  have hreverse : (t ++ newline :: fence).reverse = fence ++ newline :: t.reverse := by
    rw [List.reverse_append, List.reverse_cons, List.append_assoc]
    rfl
  rw [withoutClosing, hreverse, after?_fence]
  simp only [if_true, List.reverse_reverse]

/-! ## Whole replies -/

/-- Of a fenced text with white space around it the body is left, and before it the opening line, if that
is none. A text that begins with no fence is only trimmed. -/
theorem unfence_fenced (hline : newline ∉ info) (hfront : IsSpace front) (hback : IsSpace back) :
    unfence (front ++ fenced info body ++ back) =
        (if ∀ c ∈ info, isAsciiLetter c = true then body
          else fence ++ info ++ newline :: body).trim ∧
      ∀ t : Text, t.trim.startsWith fence = false → unfence t = t.trim := by
  constructor
  · have htrim : (front ++ fenced info body ++ back).trim = fenced info body :=
      Text.trim_padded hfront hback (isTrimmed_fenced info body) (fenced_ne_nil info body)
    have hopening : withoutOpening (fenced info body) =
        (if ∀ c ∈ info, isAsciiLetter c = true then body
          else fence ++ info ++ newline :: body) ++ newline :: fence := by
      rw [fenced, List.append_assoc (fence ++ info), List.cons_append]
      split
      · next hletters => exact withoutOpening_lettered hletters _
      · next hletters =>
        have hsome : ∃ c ∈ info, isAsciiLetter c = false := by simpa using hletters
        rw [withoutOpening_unlettered hline hsome, List.append_assoc (fence ++ info),
          List.cons_append]
    rw [unfence, htrim, if_pos (startsWith_fenced info body), hopening, withoutClosing_fence]
  · intro t ht
    exact if_neg (by rw [ht]; decide)

theorem unfence_fenced_nested :
    unfence ("\n" ++ fenced "md" " a\n\x60\x60\x60\nb " ++ "\t") = "a\n\x60\x60\x60\nb" :=
  (unfence_fenced (by decide) (by decide) (by decide)).1.trans (by decide)

/-- An info string of more than letters leaves half of the fence around the body. -/
theorem unfence_keeps_opening :
    newline ∉ (("c++" : String) : Text) ∧ ('\x60' : CodePoint) ∉ (("c++" : String) : Text) ∧
      unfence (fenced "c++" "x = 1") = "\x60\x60\x60c++\nx = 1" ∧
      unfence (fenced "c++" "x = 1") ≠ (("x = 1" : String) : Text).trim := by
  decide

end Markdown

end ThreatDesk
