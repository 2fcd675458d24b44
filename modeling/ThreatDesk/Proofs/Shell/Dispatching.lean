import ThreatDesk.Proofs.Shell.Complaints
import ThreatDesk.Proofs.Shell.Completing
import ThreatDesk.Proofs.Text.Lowering

/-!
# Completions that are dispatched

What is suggested for a first word is cut off a verb at the length of the word in lower case, and put
behind the word as it was typed. The two fit, since the lower case of a word that a verb goes on from is
that of its letters. Main statement: `completed_verb_is_dispatched`.
-/

namespace ThreatDesk

open LowerCase (IsSmall)

namespace Completion

variable {texts : List Text} {text typed best t u : Text}

def GoesOn (typed text : Text) : Prop := typed <+: text ∧ typed.length < text.length

/-- The first of the shortest among those of the texts that the property holds of. -/
def IsBest (p : Text → Prop) (texts : List Text) (best : Text) : Prop :=
  p best ∧ ∃ before after, texts = before ++ best :: after ∧
    (∀ v ∈ before, p v → best.length < v.length) ∧ ∀ v ∈ after, p v → best.length ≤ v.length

theorem shortest_eq_none (h : shortest texts = none) : texts = [] := by
  cases texts with
  | nil => rfl
  | cons t texts =>
    rw [shortest] at h
    split at h
    · cases h
    · split at h <;> cases h

theorem shortest_eq_some (h : shortest texts = some t) :
    ∃ before after, texts = before ++ t :: after ∧ (∀ v ∈ before, t.length < v.length) ∧
      ∀ v ∈ after, t.length ≤ v.length := by
  induction texts generalizing t with
  | nil => cases h
  | cons u texts ih =>
    rw [shortest] at h
    split at h
    · next hnone =>
      obtain rfl := Option.some.inj h
      rw [shortest_eq_none hnone]
      exact ⟨[], [], rfl, by simp, by simp⟩
    · next w hw =>
      obtain ⟨before, after, htexts, hbefore, hafter⟩ := ih hw
      split at h
      · next hlt =>
        obtain rfl := Option.some.inj h
        refine ⟨u :: before, after, by rw [htexts, List.cons_append], ?_, hafter⟩
        exact List.forall_mem_cons.2 ⟨hlt, hbefore⟩
      · next hle =>
        obtain rfl := Option.some.inj h
        -- The first text is not longer than the best of the others.
        refine ⟨[], texts, rfl, by simp, ?_⟩
        intro v hv
        rw [htexts, List.mem_append, List.mem_cons] at hv
        rcases hv with hv | rfl | hv
        · have := hbefore v hv
          omega
        · omega
        · have := hafter v hv
          omega

theorem isBest_of_shortest {p : Text → Bool} (h : shortest (texts.filter p) = some best) :
    IsBest (fun v => p v = true) texts best := by
  obtain ⟨before, after, hfilter, hbefore, hafter⟩ := shortest_eq_some h
  obtain ⟨front, back, rfl, rfl, hback⟩ := List.filter_eq_append_iff.1 hfilter
  obtain ⟨middle, rest, rfl, hmiddle, hbest, rfl⟩ := List.filter_eq_cons_iff.1 hback
  refine ⟨hbest, front ++ middle, rest, (List.append_assoc ..).symm, ?_, ?_⟩
  · intro v hv hp
    rcases List.mem_append.1 hv with hv | hv
    · exact hbefore v (List.mem_filter.2 ⟨hv, hp⟩)
    · exact absurd hp (hmiddle v hv)
  · intro v hv hp
    exact hafter v (List.mem_filter.2 ⟨hv, hp⟩)

theorem ofVerb_cases (verbs : List Text) (text : Text) :
    (ofVerb verbs text = [] ∧ (text = [] ∨ ∀ v ∈ verbs, ¬ GoesOn text.lower v)) ∨
      (ofVerb verbs text ≠ [] ∧ text ≠ [] ∧ ∃ best,
        IsBest (GoesOn text.lower) verbs best ∧ text.lower ++ ofVerb verbs text = best) := by
  have hp : ∀ v : Text, (v.startsWith text.lower && decide (text.lower.length < v.length)) = true ↔
      GoesOn text.lower v := by
    intro v
    rw [Bool.and_eq_true, Text.startsWith_iff, decide_eq_true_eq, GoesOn]
  by_cases hnil : text = []
  · subst hnil
    exact .inl ⟨rfl, .inl rfl⟩
  · rw [ofVerb, if_neg (by simpa using hnil)]
    simp only
    split
    · next best hbest =>
      have hfirst := isBest_of_shortest hbest
      simp only [hp] at hfirst
      obtain ⟨s, rfl⟩ := hfirst.1.1
      rw [List.drop_left]
      refine .inr ⟨?_, hnil, _, hfirst, rfl⟩
      rintro rfl
      have := hfirst.1.2
      simp at this
    · next hnone =>
      have hempty := List.filter_eq_nil_iff.1 (shortest_eq_none hnone)
      refine .inl ⟨rfl, .inr fun v hv hgoes => ?_⟩
      exact hempty v hv ((hp v).2 hgoes)

end Completion

theorem Verb.isSmall_name (verb : Verb) : ∀ c ∈ verb.name, IsSmall c := by
  unfold IsSmall
  cases verb <;> decide

namespace Shell

open Completion (GoesOn IsBest ofVerb)

theorem verb?_of_lower {word : Text} {verb : Verb} (hw : word.words = [word])
    (h : word.lower = verb.name) : verb? word = some verb := by
  rw [verb?, hw]
  show Verb.ofText? word.lower = some verb
  rw [h, Verb.ofText?_name]

/-- A first word in whatever letters is completed to a verb if one goes on from it in lower case, to the
first of the shortest, and what is then entered is that verb: the line is dispatched to it without
arguments, and is never answered with the complaint that it is none. -/
theorem completed_verb_is_dispatched {text : Text} (h : ∀ c ∈ text, c.isBlank = false) :
    (ofVerb Verb.names text = [] ↔
      text = [] ∨ ∀ v ∈ Verb.names, ¬ GoesOn text.lower v) ∧
    (ofVerb Verb.names text ≠ [] →
      let line := text ++ ofVerb Verb.names text
      ∃ verb : Verb, line.words = [line] ∧ line.lower = verb.name ∧
        IsBest (GoesOn text.lower) Verb.names verb.name ∧
        (∀ d now, begin d now line = perform (echo d now line) verb [] line) ∧
        ∀ {σ : Type} (engine : Engine σ) (state : σ) (d : Desk) (now : Int),
          ∀ l ∈ (executeAt engine state d now line).answer.said, l.kind = .error →
            l.text ≠ "Unknown command: " ++ verb.name) := by
  rcases Completion.ofVerb_cases Verb.names text with
    ⟨hnil, hnone⟩ | ⟨hsome, htext, best, hbest, hwhole⟩
  · exact ⟨iff_of_true hnil hnone, fun hne => absurd hnil hne⟩
  · obtain ⟨hgoes, before, after, hnames, hbefore, hafter⟩ := hbest
    have hmem : best ∈ Verb.names := by
      rw [hnames]
      simp
    constructor
    · refine iff_of_false hsome ?_
      rintro (hnil | hno)
      · exact htext hnil
      · exact hno best hmem hgoes
    · intro _ line
      obtain ⟨verb, -, rfl⟩ := List.mem_map.1 hmem
      have hsmall : ∀ c ∈ text.lower ++ ofVerb Verb.names text, IsSmall c := by
        rw [hwhole]
        exact verb.isSmall_name
      have hlower : line.lower = verb.name := by
        rw [Text.lower_append_of_isSmall hsmall, hwhole]
      have hword : Text.IsWord line := by
        refine ⟨by simp [line, htext], List.forall_mem_append.2 ⟨h, ?_⟩⟩
        intro c hc
        refine verb.isWord_name.2 c ?_
        rw [← hwhole]
        exact List.mem_append_right _ hc
      have hwords := Text.words_of_isWord hword
      have hverb := verb?_of_lower hwords hlower
      refine ⟨verb, hwords, hlower, ⟨hgoes, before, after, hnames, hbefore, hafter⟩, ?_, ?_⟩
      · intro d now
        rw [begin_of_verb? hverb, hwords]
        rfl
      · intro σ engine state d now
        exact knows_executeAt hverb engine state d now

theorem completed_verb_is_dispatched_kelvin :
    let text : Text := "M\u212A"
    let line := text ++ ofVerb Verb.names text
    ((∀ c ∈ text, c.isBlank = false) ∧ ofVerb Verb.names text = "dir") ∧
    (ofVerb Verb.names text = [] ↔
      text = [] ∨ ∀ v ∈ Verb.names, ¬ GoesOn text.lower v) ∧
    ∃ verb : Verb, line.words = [line] ∧ line.lower = verb.name ∧
      IsBest (GoesOn text.lower) Verb.names verb.name ∧
      (∀ d now, begin d now line = perform (echo d now line) verb [] line) ∧
      ∀ {σ : Type} (engine : Engine σ) (state : σ) (d : Desk) (now : Int),
        ∀ l ∈ (executeAt engine state d now line).answer.said, l.kind = .error →
          l.text ≠ "Unknown command: " ++ verb.name := by
  intro text line
  have htext : ∀ c ∈ text, c.isBlank = false := by decide +kernel
  have hdir : ofVerb Verb.names text = "dir" := by decide +kernel
  have hne : ofVerb Verb.names text ≠ [] := by
    rw [hdir]
    decide
  obtain ⟨hiff, hsome⟩ := completed_verb_is_dispatched htext
  exact ⟨⟨htext, hdir⟩, hiff, hsome hne⟩

end Shell

end ThreatDesk
