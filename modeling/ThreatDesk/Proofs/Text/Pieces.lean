import ThreatDesk.Text.Blank

/-!
# Texts and their pieces

A text is cut at a character, at the last one alone (`eq_of_splitAtLast?`), or at white space
(`words_append_blank`), and put together with something in every gap (`mem_intercalate`).
-/

namespace ThreatDesk

namespace Text

/-! ## Pieces -/

theorem not_mem_of_mem_splitOn {c : CodePoint} {t piece : Text} (h : piece ∈ t.splitOn c) :
    c ∉ piece := by
  induction t generalizing piece with
  | nil =>
    rw [List.splitOn_nil, List.mem_singleton] at h
    rw [h]
    exact List.not_mem_nil
  | cons d t ih =>
    rw [List.splitOn_cons_eq_if_modifyHead] at h
    split at h
    · rcases List.mem_cons.1 h with rfl | h
      · exact List.not_mem_nil
      · exact ih h
    · next hd =>
      cases hs : t.splitOn c with
      | nil => exact absurd hs (List.splitOn_ne_nil c t)
      | cons p ps =>
        rw [hs, List.modifyHead_cons, List.mem_cons] at h
        rcases h with rfl | h
        · rw [List.mem_cons, not_or]
          refine ⟨?_, ih (by rw [hs]; exact List.mem_cons_self)⟩
          rintro rfl
          exact hd (beq_self_eq_true _)
        · exact ih (by rw [hs]; exact List.mem_cons_of_mem p h)

theorem sublist_intercalate (between : Text) {t : Text} {texts : List Text} (h : t ∈ texts) :
    t.Sublist (intercalate between texts) := by
  induction texts with
  | nil => exact nomatch h
  | cons s texts ih =>
    cases texts with
    | nil => simp [List.mem_singleton.1 h, intercalate]
    | cons u texts =>
      rw [intercalate, List.intercalate_cons_cons]
      rcases List.mem_cons.1 h with rfl | h
      · exact (List.sublist_append_left _ _).trans (List.sublist_append_left _ _)
      · exact (ih h).trans (List.sublist_append_right _ _)

theorem mem_intercalate {between : Text} {texts : List Text} {c : CodePoint}
    (h : c ∈ intercalate between texts) : c ∈ between ∨ ∃ t ∈ texts, c ∈ t := by
  induction texts with
  | nil => cases h
  | cons s texts ih =>
    cases texts with
    | nil =>
      rw [intercalate, List.intercalate_singleton] at h
      exact .inr ⟨s, List.mem_singleton_self s, h⟩
    | cons u texts =>
      rw [intercalate, List.intercalate_cons_cons, List.mem_append, List.mem_append] at h
      rcases h with (h | h) | h
      · exact .inr ⟨s, List.mem_cons_self, h⟩
      · exact .inl h
      · obtain hb | ⟨t, ht, hc⟩ := ih h
        · exact .inl hb
        · exact .inr ⟨t, List.mem_cons_of_mem _ ht, hc⟩

theorem intercalate_append_singleton (between : Text) {texts : List Text} (h : texts ≠ []) (t : Text) :
    intercalate between (texts ++ [t]) = intercalate between texts ++ between ++ t := by
  induction texts with
  | nil => exact absurd rfl h
  | cons s texts ih =>
    cases texts with
    | nil => simp [intercalate]
    | cons u texts =>
      have hrec := ih (List.cons_ne_nil u texts)
      simp only [intercalate, List.cons_append, List.intercalate_cons_cons] at hrec ⊢
      simp only [hrec, List.append_assoc]

theorem subset_of_mem_splitOn {c : CodePoint} {t piece : Text} (h : piece ∈ t.splitOn c) :
    piece ⊆ t := by
  have hs := (sublist_intercalate [c] h).subset
  rwa [intercalate, List.intercalate_splitOn] at hs

/-! ## The last piece -/

theorem splitAtLast?_of_not_mem {c : CodePoint} {t : Text} (h : c ∉ t) :
    splitAtLast? c t = none := by
  induction t with
  | nil => rfl
  | cons d t ih =>
    rw [List.mem_cons, not_or] at h
    rw [splitAtLast?, ih h.2]
    exact if_neg (Ne.symm h.1)

theorem splitAtLast?_append {c : CodePoint} (s : Text) {t : Text} (h : c ∉ t) :
    splitAtLast? c (s ++ c :: t) = some (s, t) := by
  induction s with
  | nil =>
    rw [List.nil_append, splitAtLast?, splitAtLast?_of_not_mem h]
    exact if_pos rfl
  | cons d s ih => rw [List.cons_append, splitAtLast?, ih]

theorem not_mem_of_splitAtLast? {c : CodePoint} {t : Text} (h : splitAtLast? c t = none) : c ∉ t := by
  induction t with
  | nil => exact List.not_mem_nil
  | cons d t ih =>
    rw [splitAtLast?] at h
    cases ht : splitAtLast? c t with
    | some r =>
      rw [ht] at h
      exact nomatch h
    | none =>
      rw [ht] at h
      rw [List.mem_cons, not_or]
      refine ⟨?_, ih ht⟩
      rintro rfl
      simp at h

theorem eq_of_splitAtLast? {c : CodePoint} {t before rest : Text}
    (h : splitAtLast? c t = some (before, rest)) : t = before ++ c :: rest ∧ c ∉ rest := by
  induction t generalizing before with
  | nil => exact nomatch h
  | cons d t ih =>
    rw [splitAtLast?] at h
    cases ht : splitAtLast? c t with
    | some r =>
      obtain ⟨init, last⟩ := r
      rw [ht] at h
      obtain ⟨rfl, rfl⟩ := Prod.mk.inj (Option.some.inj h)
      obtain ⟨rfl, hrest⟩ := ih ht
      exact ⟨rfl, hrest⟩
    | none =>
      simp only [ht] at h
      split at h
      · next hd =>
        obtain ⟨rfl, rfl⟩ := Prod.mk.inj (Option.some.inj h)
        exact ⟨hd ▸ rfl, not_mem_of_splitAtLast? ht⟩
      · exact nomatch h

/-! ## Words -/

theorem wordsFrom_append {w : Text} (h : ∀ c ∈ w, c.isBlank = false) (word rest : Text) :
    wordsFrom word (w ++ rest) = wordsFrom (w.reverse ++ word) rest := by
  induction w generalizing word with
  | nil => rfl
  | cons c w ih =>
    obtain ⟨hc, hw⟩ := List.forall_mem_cons.1 h
    rw [List.cons_append, wordsFrom, if_neg (by simp [hc]), ih hw, List.reverse_cons,
      List.append_assoc, List.singleton_append]

theorem words_of_isWord {w : Text} (h : IsWord w) : w.words = [w] := by
  rw [words, ← List.append_nil w, wordsFrom_append h.2, List.append_nil, List.append_nil, wordsFrom,
    if_neg (by simpa using h.1), List.reverse_reverse]

/-- A word is divided from the rest of a line by what is blank. -/
theorem words_append_blank {w : Text} (hw : IsWord w) {c : CodePoint} (hc : c.isBlank = true)
    (rest : Text) : (w ++ c :: rest).words = w :: rest.words := by
  rw [words, wordsFrom_append hw.2, List.append_nil, wordsFrom, if_pos hc,
    if_neg (by simpa using hw.1), List.reverse_reverse]
  rfl

theorem IsWord.append {v w : Text} (hv : IsWord v) (hw : IsWord w) : IsWord (v ++ w) :=
  ⟨List.append_ne_nil_of_left_ne_nil hv.1 w, List.forall_mem_append.2 ⟨hv.2, hw.2⟩⟩

end Text

end ThreatDesk
