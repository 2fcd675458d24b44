import Mathlib.Data.List.Chain
import ThreatDesk.Engine.Prompt

/-!
# The shape of a conversation

Whatever has been said before, a conversation that goes on with some text is made of messages as the
service takes them (`wellShaped_ofDialogue`): joining a turn keeps the roles apart, and the last message
is the user's, because the text that the conversation goes on with is joined last.
-/

namespace ThreatDesk

namespace Message

/-- Messages that the service takes and that end with the prompt: there is one at least, the user has
the first and the last word, roles alternate and nothing is empty. -/
structure WellShaped (prompt : Text) (messages : List Message) : Prop where
  alternates : Alternates messages
  first : ∃ m, messages.head? = some m ∧ m.role = .user
  last : ∃ m, messages.getLast? = some m ∧ m.role = .user ∧ prompt <:+ m.content
  filled : ∀ m ∈ messages, m.content ≠ []

theorem alternates_iff {messages : List Message} :
    Alternates messages ↔ messages.IsChain fun m n => m.role ≠ n.role := by
  induction messages with
  | nil => exact iff_of_true trivial .nil
  | cons m messages ih =>
    cases messages with
    | nil => exact iff_of_true trivial (.singleton m)
    | cons n messages => rw [Alternates, ih, List.isChain_cons_cons]

theorem alternates_reverse {messages : List Message} (h : Alternates messages) :
    Alternates messages.reverse := by
  rw [alternates_iff, List.isChain_reverse]
  exact (alternates_iff.1 h).imp fun _ _ => Ne.symm

theorem Alternates.suffix {messages rest : List Message} (h : Alternates messages)
    (hrest : rest <:+ messages) : Alternates rest :=
  alternates_iff.2 ((alternates_iff.1 h).suffix hrest)

structure Joined (messages : List Message) : Prop where
  alternates : Alternates messages
  filled : ∀ m ∈ messages, m.content ≠ []

theorem Joined.join {read : List Message} (h : Joined read) (turn : Turn) :
    Joined (join read turn) := by
  unfold Message.join
  split
  · exact h
  · next hturn =>
    have htext : turn.text ≠ [] := by simpa using hturn
    cases read with
    | nil => exact ⟨trivial, List.forall_mem_singleton.2 htext⟩
    | cons last before =>
      obtain ⟨hlast, hbefore⟩ := List.forall_mem_cons.1 h.filled
      simp only
      split
      · refine ⟨?_, List.forall_mem_cons.2 ⟨?_, hbefore⟩⟩
        · cases before with
          | nil => trivial
          | cons m before => exact h.alternates
        · exact List.append_ne_nil_of_right_ne_nil _ htext
      · next hrole =>
        exact ⟨⟨Ne.symm hrole, h.alternates⟩, List.forall_mem_cons.2 ⟨htext, h.filled⟩⟩

theorem joined_foldl {read : List Message} (h : Joined read) (turns : List Turn) :
    Joined (turns.foldl join read) := by
  induction turns generalizing read with
  | nil => exact h
  | cons turn turns ih => exact ih (h.join turn)

theorem join_last (read : List Message) {turn : Turn} (h : turn.text ≠ []) :
    ∃ m before, join read turn = m :: before ∧ m.role = turn.role ∧ turn.text <:+ m.content := by
  unfold join
  rw [if_neg (by simpa using h)]
  cases read with
  | nil => exact ⟨_, _, rfl, rfl, List.suffix_refl _⟩
  | cons last before =>
    simp only
    split
    · next hrole => exact ⟨_, _, rfl, hrole, List.suffix_append _ _⟩
    · exact ⟨_, _, rfl, rfl, List.suffix_refl _⟩

theorem joined_ofDialogue (history : List Turn) (prompt : Text) :
    Joined (ofDialogue history prompt) := by
  have hnone : Joined [] := ⟨trivial, List.forall_mem_nil _⟩
  have hjoined := joined_foldl hnone (history ++ [⟨.user, prompt⟩])
  have hsuffix : ofDialogue history prompt <:+ grouped (history ++ [⟨.user, prompt⟩]) :=
    List.dropWhile_suffix _
  refine ⟨(alternates_reverse hjoined.alternates).suffix hsuffix, ?_⟩
  intro m hm
  exact hjoined.filled m (List.mem_reverse.1 (hsuffix.subset hm))

theorem user_of_head? {history : List Turn} {prompt : Text} {m : Message}
    (h : (ofDialogue history prompt).head? = some m) : m.role = .user := by
  have hhead := List.head?_dropWhile_not (fun m : Message => m.role ≠ .user)
    (grouped (history ++ [⟨.user, prompt⟩]))
  rw [← ofDialogue, h] at hhead
  simpa using hhead

theorem last_ofDialogue (history : List Turn) {prompt : Text} (h : prompt ≠ []) :
    ∃ m, (ofDialogue history prompt).getLast? = some m ∧ m.role = .user ∧ prompt <:+ m.content := by
  have hturn : (⟨.user, prompt⟩ : Turn).text ≠ [] := h
  obtain ⟨m, before, hlast, hrole, hcontent⟩ := join_last (history.foldl join []) hturn
  have hgrouped : grouped (history ++ [⟨.user, prompt⟩]) = before.reverse ++ [m] := by
    rw [grouped, List.foldl_append, List.foldl_cons, List.foldl_nil, hlast, List.reverse_cons]
  refine ⟨m, ?_, hrole, hcontent⟩
  -- The user's last message ends what is dropped at the front.
  rw [ofDialogue, hgrouped, List.dropWhile_append]
  split
  · rw [List.dropWhile_cons_of_neg (by simp [hrole])]
    rfl
  · exact List.getLast?_concat

/-- Whatever has been said, and be it empty or the model's alone: a conversation that goes on with some
text is well-shaped. -/
theorem wellShaped_ofDialogue (history : List Turn) {prompt : Text} (h : prompt ≠ []) :
    WellShaped prompt (ofDialogue history prompt) := by
  obtain ⟨halternates, hfilled⟩ := joined_ofDialogue history prompt
  obtain ⟨m, hm, hlast⟩ := last_ofDialogue history h
  obtain ⟨first, hfirst⟩ : ∃ first, (ofDialogue history prompt).head? = some first := by
    cases hd : ofDialogue history prompt with
    | nil =>
      rw [hd] at hm
      cases hm
    | cons first rest => exact ⟨first, rfl⟩
  exact ⟨halternates, ⟨first, hfirst, user_of_head? hfirst⟩, ⟨m, hm, hlast⟩, hfilled⟩

end Message

end ThreatDesk
