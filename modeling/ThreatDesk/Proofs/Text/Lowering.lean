import ThreatDesk.Text.LowerCase

/-!
# Lower case, letter by letter

A text is not put into lower case letter by letter: what a capital sigma becomes depends on the letters
around it. It becomes no ASCII letter in any case, so that a text which is ASCII afterwards held none, and
can be gone on with in small letters (`lower_append_of_isSmall`).
-/

namespace ThreatDesk

namespace LowerCase

variable {before t : Text} {c : CodePoint}

/-- An ASCII character that has no small form but itself. -/
def IsSmall (c : CodePoint) : Prop := c.val < 0x80 ∧ ¬ (0x41 ≤ c.val ∧ c.val ≤ 0x5A)

theorem ofCodePoint_of_isSmall (h : IsSmall c) : ofCodePoint c = [c] := by
  obtain ⟨hascii, hcapital⟩ := h
  simp [ofCodePoint, hascii, hcapital]

theorem ofSigma_not_ascii (before after : Text) : ∀ c ∈ ofSigma before after, ¬ c.val < 0x80 := by
  intro c hc
  unfold ofSigma at hc
  split at hc
  all_goals
    obtain rfl := List.mem_singleton.1 hc
    decide

theorem not_sigma_of_ascii (h : ∀ c ∈ ofTextAfter before t, c.val < 0x80) :
    ∀ c ∈ t, c.val ≠ capitalSigma := by
  induction t generalizing before with
  | nil => simp
  | cons d t ih =>
    rw [ofTextAfter, List.forall_mem_append] at h
    obtain ⟨hd, ht⟩ := h
    rw [List.forall_mem_cons]
    constructor
    · intro hsigma
      rw [if_pos hsigma] at hd
      have hmem : ∃ c, c ∈ ofSigma before t := by
        unfold ofSigma
        split <;> exact ⟨_, List.mem_singleton_self _⟩
      obtain ⟨c, hc⟩ := hmem
      exact ofSigma_not_ascii before t c hc (hd c hc)
    · exact ih ht

theorem ofTextAfter_of_not_sigma (h : ∀ c ∈ t, c.val ≠ capitalSigma) (before : Text) :
    ofTextAfter before t = t.flatMap ofCodePoint := by
  induction t generalizing before with
  | nil => rfl
  | cons d t ih =>
    obtain ⟨hd, ht⟩ := List.forall_mem_cons.1 h
    rw [ofTextAfter, if_neg hd, ih ht, List.flatMap_cons]

theorem IsSmall.not_sigma (h : IsSmall c) : c.val ≠ capitalSigma := by
  unfold IsSmall at h
  unfold capitalSigma
  omega

theorem flatMap_of_isSmall (h : ∀ c ∈ t, IsSmall c) : t.flatMap ofCodePoint = t := by
  induction t with
  | nil => rfl
  | cons d t ih =>
    obtain ⟨hd, ht⟩ := List.forall_mem_cons.1 h
    rw [List.flatMap_cons, ofCodePoint_of_isSmall hd, ih ht, List.singleton_append]

end LowerCase

open LowerCase (IsSmall)

theorem Text.lower_append_of_isSmall {t s : Text} (h : ∀ c ∈ t.lower ++ s, IsSmall c) :
    (t ++ s).lower = t.lower ++ s := by
  obtain ⟨ht, hs⟩ := List.forall_mem_append.1 h
  have hfront := LowerCase.not_sigma_of_ascii fun c hc => (ht c hc).1
  have hwhole : ∀ c ∈ t ++ s, c.val ≠ LowerCase.capitalSigma :=
    List.forall_mem_append.2 ⟨hfront, fun c hc => (hs c hc).not_sigma⟩
  rw [lower, lower, LowerCase.ofTextAfter_of_not_sigma hwhole, LowerCase.ofTextAfter_of_not_sigma hfront,
    List.flatMap_append, LowerCase.flatMap_of_isSmall hs]

end ThreatDesk
