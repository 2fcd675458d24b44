import ThreatDesk.Proofs.Text.Pieces
import ThreatDesk.Shell.Verb

/-!
# White space around texts

White space in front of a text and behind it makes no difference to its words, and trimming takes it away
(`trim_padded`). So what stands behind the first words of a line is what was put there, with the white
space inside it, and without one pair of quotes (`argument_of_enclosed`, `argument_of_bare`).
-/

namespace ThreatDesk

namespace Text

def IsSpace (t : Text) : Prop := ∀ c ∈ t, c.isBlank = true

instance (t : Text) : Decidable (IsSpace t) := inferInstanceAs (Decidable (∀ c ∈ t, _))

def IsGap (t : Text) : Prop := t ≠ [] ∧ IsSpace t

instance (t : Text) : Decidable (IsGap t) := inferInstanceAs (Decidable (_ ∧ _))

def IsTrimmed (t : Text) : Prop :=
  (∀ c ∈ t.head?, c.isBlank = false) ∧ ∀ c ∈ t.getLast?, c.isBlank = false

instance (t : Text) : Decidable (IsTrimmed t) := inferInstanceAs (Decidable (_ ∧ _))

def IsEnclosed (t : Text) : Prop :=
  ∃ (q : CodePoint) (inner : Text), (q = '"' ∨ q = '\'') ∧ t = q :: inner ++ [q]

variable {gap front back s t w rest : Text} {n : Nat}

theorem IsSpace.append (h : IsSpace s) (k : IsSpace t) : IsSpace (s ++ t) :=
  List.forall_mem_append.2 ⟨h, k⟩

theorem IsGap.head (h : IsGap gap) (rest : Text) :
    ∀ c ∈ (gap ++ rest).head?, c.isBlank = true := by
  obtain ⟨b, gap, rfl⟩ := List.exists_cons_of_ne_nil h.1
  rintro c ⟨rfl⟩
  exact h.2 b List.mem_cons_self

theorem IsEnclosed.head? (h : IsEnclosed t) : t.head? = some '"' ∨ t.head? = some '\'' := by
  obtain ⟨q, inner, rfl | rfl, rfl⟩ := h
  · exact .inl rfl
  · exact .inr rfl

/-! ## Trimming -/

theorem IsWord.isTrimmed (h : IsWord w) : IsTrimmed w :=
  ⟨fun _ hc => h.2 _ (List.mem_of_head? hc), fun _ hc => h.2 _ (List.mem_of_getLast? hc)⟩

theorem IsTrimmed.between (hs : IsTrimmed s) (hsne : s ≠ []) (ht : IsTrimmed t) (htne : t ≠ [])
    (inner : Text) : IsTrimmed (s ++ inner ++ t) := by
  obtain ⟨b, s, rfl⟩ := List.exists_cons_of_ne_nil hsne
  obtain ⟨init, c, rfl⟩ := List.eq_nil_or_concat t |>.resolve_left htne
  rw [List.concat_eq_append] at ht ⊢
  refine ⟨hs.1, ?_⟩
  have hlast := ht.2
  rw [List.getLast?_concat] at hlast
  rwa [← List.append_assoc, List.getLast?_concat]

theorem trimStart_padded (h : IsSpace gap) (t : Text) : trimStart (gap ++ t) = trimStart t :=
  List.dropWhile_append_of_pos h

theorem trimStart_eq (h : ∀ c ∈ t.head?, c.isBlank = false) : trimStart t = t := by
  cases t with
  | nil => rfl
  | cons c t => exact List.dropWhile_cons_of_neg (by simp [h c rfl])

theorem trimEnd_padded (h : IsSpace gap) (t : Text) : trimEnd (t ++ gap) = trimEnd t := by
  rw [trimEnd, List.reverse_append, List.dropWhile_append_of_pos fun c hc => h c (List.mem_reverse.1 hc)]
  rfl

theorem trimEnd_eq (h : ∀ c ∈ t.getLast?, c.isBlank = false) : trimEnd t = t := by
  have hr : trimStart t.reverse = t.reverse := trimStart_eq (by rwa [List.head?_reverse])
  exact (congrArg List.reverse hr).trans (List.reverse_reverse t)

theorem trim_padded (hfront : IsSpace front) (hback : IsSpace back) (ht : IsTrimmed t) (hne : t ≠ []) :
    trim (front ++ t ++ back) = t := by
  have hhead : ∀ c ∈ (t ++ back).head?, c.isBlank = false := by
    obtain ⟨b, t, rfl⟩ := List.exists_cons_of_ne_nil hne
    exact ht.1
  rw [trim, List.append_assoc, trimStart_padded hfront, trimStart_eq hhead, trimEnd_padded hback,
    trimEnd_eq ht.2]

theorem IsTrimmed.trim (ht : IsTrimmed t) (hne : t ≠ []) : t.trim = t := by
  have hnone : IsSpace [] := fun _ hc => absurd hc List.not_mem_nil
  have h := trim_padded hnone hnone ht hne
  rwa [List.nil_append, List.append_nil] at h

/-! ## Words -/

theorem words_padded (h : IsSpace gap) (t : Text) : (gap ++ t).words = t.words := by
  induction gap with
  | nil => rfl
  | cons c gap ih =>
    obtain ⟨hc, hgap⟩ := List.forall_mem_cons.1 h
    rw [List.cons_append, words, wordsFrom, if_pos hc]
    exact ih hgap

theorem words_word (hw : IsWord w) (h : ∀ c ∈ rest.head?, c.isBlank = true) :
    (w ++ rest).words = w :: rest.words := by
  cases rest with
  | nil => rw [List.append_nil, words_of_isWord hw]; rfl
  | cons c rest =>
    have hc : IsSpace [c] := List.forall_mem_singleton.2 (h c rfl)
    rw [words_append_blank hw (h c rfl), ← List.singleton_append (l := rest), words_padded hc]

theorem dropWords_padded (h : IsSpace gap) (n : Nat) (t : Text) :
    dropWords n (gap ++ t) = dropWords n t := by
  cases n with
  | zero => exact trimStart_padded h t
  | succ n => rw [dropWords, dropWords, trimStart_padded h]

theorem dropWords_word (hw : IsWord w) (h : ∀ c ∈ rest.head?, c.isBlank = true) (n : Nat) :
    dropWords (n + 1) (w ++ rest) = dropWords n rest := by
  have hstart : trimStart (w ++ rest) = w ++ rest := by
    refine trimStart_eq ?_
    obtain ⟨b, w, rfl⟩ := List.exists_cons_of_ne_nil hw.1
    rintro c ⟨rfl⟩
    exact hw.2 b List.mem_cons_self
  have hword : ∀ c ∈ w, (!c.isBlank) = true := fun c hc => by rw [hw.2 c hc]; rfl
  rw [dropWords, hstart, List.dropWhile_append_of_pos hword]
  cases rest with
  | nil => rfl
  | cons c rest => rw [List.dropWhile_cons_of_neg (by simp [h c rfl])]

/-! ## What is said behind the words -/

theorem argument_of_enclosed {raw c : Text} {q : CodePoint} (hq : q = '"' ∨ q = '\'')
    (h : dropWords n raw.trim = q :: c ++ [q]) : raw.argument n = c := by
  obtain ⟨d, more, hmore⟩ : ∃ d more, c ++ [q] = d :: more :=
    List.exists_cons_of_ne_nil (List.append_ne_nil_of_right_ne_nil c (List.cons_ne_nil q []))
  have hlast : (d :: more).getLast? = some q := by rw [← hmore, List.getLast?_concat]
  rw [argument, h, List.cons_append, hmore]
  simp only
  rw [if_pos ⟨hq, hlast⟩, ← hmore, List.dropLast_concat]

theorem argument_of_bare {raw c : Text} (hc : ¬ IsEnclosed c) (h : dropWords n raw.trim = c) :
    raw.argument n = c := by
  rw [argument, h]
  split
  · next q d more =>
    refine if_neg fun ⟨hq, hlast⟩ => hc ?_
    obtain ⟨inner, hinner⟩ := List.getLast?_eq_some_iff.1 hlast
    exact ⟨q, inner, hq, by rw [List.cons_append, ← hinner]⟩
  · rfl

end Text

end ThreatDesk
