import ThreatDesk.Proofs.Shell.Completing
import ThreatDesk.Proofs.Text.Padding
import ThreatDesk.Proofs.Tree.Writing

/-!
# What is written is read

The content of a write is what stands behind the first two words of the line (`Writes.argument`), and
reading the same path afterwards says it again. Main statement: `written_is_read`.
-/

namespace ThreatDesk

open Text (IsSpace IsGap IsTrimmed IsEnclosed IsWord)

namespace Verb

/-- The lines of a verb, in any case, a word and a text behind it, with white space around them. -/
inductive Spells (verb : Verb) (word text : Text) : Text → Prop
  | line {front v gap between back : Text} (hv : IsWord v) (hverb : v.lower = verb.name)
    (hfront : IsSpace front) (hgap : IsGap gap) (hbetween : IsGap between) (hback : IsSpace back) :
    Spells verb word text (front ++ v ++ gap ++ word ++ between ++ text ++ back)

variable {verb : Verb} {word text raw : Text}

theorem Spells.words (h : Spells verb word text raw) (hword : IsWord word) :
    ∃ v args, raw.words = v :: word :: args ∧ v.lower = verb.name := by
  obtain ⟨hv, hverb, hfront, hgap, hbetween, hback⟩ := h
  simp only [List.append_assoc]
  rw [Text.words_padded hfront, Text.words_word hv (hgap.head _), Text.words_padded hgap.2,
    Text.words_word hword (hbetween.head _)]
  exact ⟨_, _, rfl, hverb⟩

theorem Spells.dropWords (h : Spells verb word text raw) (hword : IsWord word)
    (ht : IsTrimmed text) : Text.dropWords 2 raw.trim = text := by
  obtain @⟨front, v, gap, between, back, hv, hverb, hfront, hgap, hbetween, hback⟩ := h
  have hrest (rest : Text) (hrest : ∀ c ∈ rest.head?, c.isBlank = true) :
      Text.dropWords 2 (v ++ gap ++ word ++ rest) = Text.trimStart rest := by
    rw [List.append_assoc, List.append_assoc, Text.dropWords_word hv (hgap.head _),
      Text.dropWords_padded hgap.2, Text.dropWords_word hword hrest]
    rfl
  by_cases hne : text = []
  · -- All that stands behind the word is trimmed away.
    subst hne
    have htrim := Text.trim_padded hfront (hbetween.2.append hback)
      (hv.isTrimmed.between hv.1 hword.isTrimmed hword.1 gap) (by simp [hv.1])
    have hraw : front ++ v ++ gap ++ word ++ between ++ [] ++ back =
        front ++ (v ++ gap ++ word) ++ (between ++ back) := by simp
    rw [hraw, htrim, ← List.append_nil (v ++ gap ++ word), hrest [] nofun]
    rfl
  · have htrim := Text.trim_padded hfront hback
      (hv.isTrimmed.between hv.1 ht hne (gap ++ word ++ between)) (by simp [hv.1])
    have hraw : front ++ v ++ gap ++ word ++ between ++ text ++ back =
        front ++ (v ++ (gap ++ word ++ between) ++ text) ++ back := by simp
    have hline : v ++ (gap ++ word ++ between) ++ text = v ++ gap ++ word ++ (between ++ text) := by
      simp
    rw [hraw, htrim, hline, hrest _ (hbetween.head _), Text.trimStart_padded hbetween.2,
      Text.trimStart_eq ht.1]

end Verb

namespace Answer

def Reports (a : Answer) (start : Text) : Prop :=
  ∃ l ∈ a.said, l.kind ≠ .input ∧ l.text.startsWith start = true

end Answer

namespace Shell

/-- The lines that write a content: it stands between double quotes, or as it is where it has no white
space at either end and no quotes around it. -/
inductive Writes (word content : Text) : Text → Prop
  | quoted : Writes word content (Verb.write.line (word ++ " \"" ++ content ++ "\""))
  | bare {raw : Text} (ht : IsTrimmed content) (hc : ¬ IsEnclosed content)
    (h : Verb.write.Spells word content raw) : Writes word content raw

variable {word content raw : Text}

theorem isTrimmed_quoted (content : Text) :
    IsTrimmed (('"' : CodePoint) :: content ++ [('"' : CodePoint)]) := by
  refine ⟨fun _ hc => Option.some.inj hc ▸ rfl, fun c hc => ?_⟩
  rw [List.getLast?_concat] at hc
  exact Option.some.inj hc ▸ rfl

theorem spells_quoted (word content : Text) :
    Verb.write.Spells word (('"' : CodePoint) :: content ++ [('"' : CodePoint)])
      (Verb.write.line (word ++ " \"" ++ content ++ "\"")) := by
  have hspace : IsGap " " := ⟨by decide, List.forall_mem_singleton.2 rfl⟩
  have hnil : IsSpace [] := List.forall_mem_nil _
  have hline : Verb.write.Spells word (('"' : CodePoint) :: content ++ [('"' : CodePoint)]) _ :=
    .line Verb.write.isWord_name Verb.write.lower_name hnil hspace hspace hnil
  have hraw : Verb.write.line (word ++ " \"" ++ content ++ "\"") =
      [] ++ Verb.write.name ++ Text.ofString " " ++ word ++ Text.ofString " " ++
        (('"' : CodePoint) :: content ++ [('"' : CodePoint)]) ++ [] := by
    simp [Verb.line, Text.ofString]
  rwa [hraw]

theorem Writes.words (h : Writes word content raw) (hword : IsWord word) :
    ∃ v args, raw.words = v :: word :: args ∧ v.lower = Verb.write.name := by
  cases h with
  | quoted => exact (spells_quoted word content).words hword
  | bare _ _ h => exact h.words hword

theorem Writes.argument (h : Writes word content raw) (hword : IsWord word) :
    raw.argument 2 = content := by
  cases h with
  | quoted =>
    exact Text.argument_of_enclosed (.inl rfl)
      ((spells_quoted word content).dropWords hword (isTrimmed_quoted content))
  | bare ht hc h => exact Text.argument_of_bare hc (h.dropWords hword ht)

theorem begin_of_writes (h : Writes word content raw) (hword : IsWord word) (d : Desk) (now : Int) :
    ∃ args, begin d now raw = (write (echo d now raw) raw (word :: args), none) := by
  obtain ⟨v, args, hwords, hverb⟩ := h.words hword
  refine ⟨args, ?_⟩
  exact begin_of_verb hwords hverb d now

theorem not_reports_error {a : Answer} (ha : ∀ l ∈ a.said, l.kind = .input) {start text : Text}
    (h : text.startsWith start = false) : ¬ (a.error text).Reports start := by
  rintro ⟨l, hl, hkind, hstart⟩
  rcases List.mem_append.1 hl with hl | hl
  · exact hkind (ha l hl)
  · obtain rfl := List.mem_singleton.1 hl
    exact absurd (h.symm.trans hstart) (by simp)

theorem write_of_reports {a : Answer} (ha : ∀ l ∈ a.said, l.kind = .input) {args : List Text}
    (h : (write a raw (word :: args)).Reports "Wrote:") :
    a.session.tree.writeOutcome (resolved a word) = .written ∧
      write a raw (word :: args) =
        (a.withTree (a.session.tree.write (resolved a word) (raw.argument 2)).1).success
          ("Wrote: " ++ resolved a word) := by
  have houtcome := a.session.tree.write_outcome (resolved a word) (raw.argument 2)
  rw [write] at h ⊢
  split at h
  · next tree hw =>
    rw [hw] at houtcome
    rw [hw]
    exact ⟨houtcome.symm, rfl⟩
  · exact absurd h (not_reports_error ha rfl)
  · exact absurd h (not_reports_error ha rfl)
  · obtain ⟨l, hl, hkind, -⟩ := h
    exact absurd (ha l hl) hkind

theorem begin_cat {d : Desk} (hword : IsWord word) {f : File}
    (hf : d.session.tree.file? (Path.resolve d.session.cwd word) = some f) (now : Int) :
    ∃ a : Answer, begin d now (Verb.cat.line word) = (a.output f.text, none) := by
  have hfile : (echo d now (Verb.cat.line word)).session.tree.file?
      (resolved (echo d now (Verb.cat.line word)) word) = some f := hf
  rw [begin_line d now .cat hword, perform, read, hfile]
  exact ⟨_, rfl⟩

theorem stored_of_reports {σ : Type} (engine : Engine σ) (state : σ) (d : Desk) (now : Int)
    (hword : IsWord word) (h : Writes word content raw)
    (hreport : (executeAt engine state d now raw).answer.Reports "Wrote:") :
    let s := (executeAt engine state d now raw).answer.session
    s.cwd = d.session.cwd ∧
      ∃ f, s.tree.file? (Path.resolve d.session.cwd word) = some f ∧ f.content = some content := by
  intro s
  obtain ⟨args, hbegin⟩ := begin_of_writes h hword d now
  have hdone : (executeAt engine state d now raw).answer =
      write (echo d now raw) raw (word :: args) := by
    rw [executeAt, hbegin]
  have hecho : ∀ l ∈ (echo d now raw).said, l.kind = .input := List.forall_mem_singleton.2 rfl
  rw [hdone] at hreport
  obtain ⟨hwritten, hwrite⟩ := write_of_reports hecho hreport
  have hfile := Tree.file?_write (raw.argument 2) hwritten
  rw [h.argument hword] at hwrite hfile
  have hs : s = _ := congrArg Answer.session (hdone.trans hwrite)
  rw [hs]
  exact ⟨rfl, hfile⟩

/-- Whatever is under way: where a line that writes a content at a path reports it, the file there has that
content, and reading the path next says it last, letter by letter. -/
theorem written_is_read {σ : Type} (engine : Engine σ) (state : σ) (d : Desk) (now : Int)
    (hword : IsWord word) (h : Writes word content raw)
    (hreport : (executeAt engine state d now raw).answer.Reports "Wrote:") :
    let e := (executeAt engine state d now raw).answer.desk
    (∃ f, e.session.tree.file? (Path.resolve d.session.cwd word) = some f ∧ f.content = some content) ∧
      ∀ (state : σ) (later : Int),
        ((executeAt engine state e later (Verb.cat.line word)).answer.said.getLast?.map
          fun l => (l.kind, l.text)) = some (.output, content) := by
  intro e
  obtain ⟨hcwd, f, hf, hcontent⟩ := stored_of_reports engine state d now hword h hreport
  refine ⟨⟨f, hf, hcontent⟩, fun state later => ?_⟩
  rw [← hcwd] at hf
  obtain ⟨a, hread⟩ := begin_cat (d := e) hword hf later
  have hlast : (a.output f.text).said.getLast?.map (fun l => (l.kind, l.text)) =
      some (.output, f.text) := by
    rw [Answer.output, Answer.say, List.getLast?_concat]
    rfl
  rw [executeAt, hread, hlast, File.text, hcontent, Option.getD_some]

theorem written_is_read_spelt :
    let engine : Engine Unit := ⟨fun state _ _ => ⟨state, [], .error .missingCredential⟩⟩
    let d := Desk.bare (Session.withoutHistory Baseline.initialTree "1.0")
    let last (a : Answer) := a.said.getLast?.map fun l => (l.kind, l.text)
    let word : Text := "readme.txt"
    let quoted : Text := " it's\n\"so\" "
    let bare : Text := "two  'words'"
    let plain : Text := Verb.write.line (word ++ " \"" ++ quoted ++ "\"")
    let spelt : Text := Text.ofString "\t " ++ Text.ofString "WriTE" ++ Text.ofString " " ++ word ++
      Text.ofString "\n " ++ bare ++ Text.ofString "  "
    let first := (executeAt engine () d 0 plain).answer
    let second := (executeAt engine () first.desk 1 spelt).answer
    (IsWord word ∧ Writes word quoted plain ∧ first.Reports "Wrote:" ∧ Writes word bare spelt ∧
      second.Reports "Wrote:") ∧
    last (executeAt engine () first.desk 1 (Verb.cat.line word)).answer = some (.output, quoted) ∧
    last (executeAt engine () second.desk 2 (Verb.cat.line word)).answer = some (.output, bare) := by
  intro engine d last word quoted bare plain spelt first second
  have hword : IsWord word := ⟨by decide, by decide⟩
  have hquoted : Writes word quoted plain := .quoted
  have hspells : Verb.write.Spells word bare spelt :=
    .line ⟨by decide, by decide⟩ (by decide) (by decide) (by decide) (by decide) (by decide)
  have henclosed : ¬ IsEnclosed bare := fun h => absurd h.head? (by decide)
  have hbare : Writes word bare spelt := .bare (by decide) henclosed hspells
  have hfirst : first.Reports "Wrote:" := by unfold Answer.Reports; decide +kernel
  have hsecond : second.Reports "Wrote:" := by unfold Answer.Reports; decide +kernel
  refine ⟨⟨hword, hquoted, hfirst, hbare, hsecond⟩, ?_, ?_⟩
  · exact (written_is_read engine () d 0 hword hquoted hfirst).2 () 1
  · exact (written_is_read engine () first.desk 1 hword hbare hsecond).2 () 2

end Shell

end ThreatDesk
