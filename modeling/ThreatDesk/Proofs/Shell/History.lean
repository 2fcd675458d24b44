import ThreatDesk.Proofs.Shell.AllOrNothing
import ThreatDesk.Proofs.Shell.Keeping

/-!
# What becomes of the history

Whatever is said goes to three places at once: the command, the listeners and the history. Only clearing
and loading replace the history under a command that is still to be heard (`told_begin`), and no
reply of the engine does (`speaks_continued`).
-/

namespace ThreatDesk

namespace Shell

open Engine (Failure)
open Answer (Says Speaks)

/-! ## Operations -/

theorem speaks_start (a : Answer) (op : Operation) : a.Speaks (start a op).1 := by
  obtain ⟨state, -, h⟩ := start_cases a op
  exact h.speaks.after rfl rfl rfl rfl

theorem speaks_finish (a : Answer) (outcome : ShellState) : a.Speaks (finish a outcome) :=
  .silent rfl rfl rfl rfl

theorem speaks_abort (a : Answer) (label : Text) (failure : Failure) :
    a.Speaks (abort a label failure) := by
  cases failure with
  | missingCredential | collaborator | malformed | unusable =>
    exact (Speaks.say a .error _).trans (speaks_finish _ .error)
  | fault fault => exact (speaks_finish a .error).trans (Speaks.say _ .error _)

theorem speaks_resume (a : Answer) (s : Stage) (reply : Except Failure s.request.Answer) :
    a.Speaks (resume a s reply).1 := by
  have hr := resume_cases a s reply
  generalize resume a s reply = r at hr
  cases hr with
  | failed hf hb => exact hb.speaks.trans (speaks_abort ..)
  | stored he hs hf hb =>
    exact Speaks.after (hb.speaks.trans (speaks_finish _ .complete)) rfl rfl rfl rfl
  | advanced hf hs hb => exact hb.speaks.after rfl rfl rfl rfl
  | @toolFailed e reply fault hf =>
    have hexchanged : a.Speaks (exchanged a e reply) := .silent rfl rfl rfl rfl
    exact hexchanged.trans (speaks_abort (exchanged a e reply) (Stage.chat e).label (.fault fault))
  | again hf => exact .silent rfl rfl rfl rfl
  | answered hf hb =>
    exact Speaks.after (hb.speaks.trans (speaks_finish _ .complete)) rfl rfl rfl rfl

theorem speaks_continued (a : Answer) (s : Stage) (signal : Signal s) :
    a.Speaks (continued a s signal).1 := by
  cases signal with
  | replied reply => exact speaks_resume a s reply
  | cancelled => exact speaks_finish a .error

/-! ## Lines -/

theorem speaks_begin {d : Desk} {raw : Text} (hc : verb? raw ≠ some .clear) (hl : ¬ Loads d raw)
    (now : Int) : (echo d now raw).Speaks (begin d now raw).1 := by
  cases hv : verb? raw with
  | none => exact (says_begin hv d now).speaks
  | some v =>
    rw [begin_of_verb? hv]
    by_cases hload : v = .load
    · subst hload
      show Speaks _ (load (echo d now raw) raw.words.tail)
      cases hb : d.session.isBusy with
      | true =>
        rw [load, if_pos (show (echo d now raw).session.isBusy = true from hb)]
        exact Speaks.say ..
      | false =>
        have hends := load_cases (a := echo d now raw) hb raw.words.tail
        generalize load (echo d now raw) raw.words.tail = b at hends
        cases hends with
        | refused hn text => exact Speaks.say ..
        | loaded h =>
          exact absurd ⟨hb, isLoad_of_verb? hv, _, _, _, h.named, h.read, h.completed⟩ hl
    · have hclear : v ≠ .clear := fun h => hc (h ▸ hv)
      have hadded := added_perform hclear hload (echo d now raw) raw.words.tail raw
      generalize perform (echo d now raw) v raw.words.tail raw = r at hadded
      cases hadded with
      | edited h => exact h.speaks
      | begun op hb => exact speaks_start ..

/-- The history that is there after a line has been taken in that has said so much: none if it clears
the history, that of the snapshot without the echo if it loads one, and else what was there before. -/
inductive HistoryAfter (d : Desk) (raw : Text) (said : List Line) : List Line → Prop
  | cleared (h : verb? raw = some .clear) : HistoryAfter d raw said []
  | loaded (hb : d.session.isBusy = false) (hl : isLoad raw = true) {name : Text}
    {snapshot : Snapshot} {tree : Tree} (h : Loadable d raw.words.tail name snapshot tree) :
    HistoryAfter d raw said (snapshot.lines ++ said.tail)
  | kept (hc : verb? raw ≠ some .clear) (hl : ¬ Loads d raw) :
    HistoryAfter d raw said (d.session.lines ++ said)

/-- What a command has said, on whatever desk it began: its echo first, all of it to the listeners, and
the history is what it should be. -/
structure Told (d : Desk) (now : Int) (raw : Text) (a : Answer) : Prop where
  echoed : ∃ rest, a.said = d.session.nextLine now .input raw :: rest
  heard : a.session.told = d.session.told ++ a.said
  history : HistoryAfter d raw a.said a.session.lines

theorem told_echo {d : Desk} {raw : Text} (hc : verb? raw ≠ some .clear) (hl : ¬ Loads d raw)
    (now : Int) : Told d now raw (echo d now raw) :=
  ⟨⟨[], rfl⟩, rfl, .kept hc hl⟩

/-- What is said later on is added to the history, whatever the line has made of it; a line that clears
it is done at once. -/
theorem Told.then_speaks {d : Desk} {now : Int} {raw : Text} {a b : Answer} (h : Told d now raw a)
    (hc : verb? raw ≠ some .clear) (hb : a.Speaks b) : Told d now raw b := by
  obtain ⟨ls, hls⟩ := hb
  obtain ⟨⟨rest, hrest⟩, hheard, hhistory⟩ := h
  have hsaid : b.said = d.session.nextLine now .input raw :: (rest ++ ls) := by
    rw [hls.said, hrest]
    rfl
  refine ⟨⟨rest ++ ls, hsaid⟩, ?_, ?_⟩
  · rw [hls.told, hheard, hls.said, List.append_assoc]
  · have hlines := hls.lines
    generalize a.session.lines = lines at hhistory hlines
    cases hhistory with
    | cleared h => exact absurd h hc
    | @loaded hb hl name snapshot tree h =>
      have htail : b.session.lines = snapshot.lines ++ b.said.tail := by
        rw [hlines, hsaid, hrest, List.append_assoc]
        rfl
      rw [htail]
      exact .loaded hb hl h
    | kept hc hl =>
      have hall : b.session.lines = d.session.lines ++ b.said := by
        rw [hlines, hls.said, List.append_assoc]
      rw [hall]
      exact .kept hc hl

theorem told_begin (d : Desk) (now : Int) (raw : Text) : Told d now raw (begin d now raw).1 := by
  by_cases hc : verb? raw = some .clear
  · rw [begin_of_verb? hc]
    exact ⟨⟨[], rfl⟩, rfl, .cleared hc⟩
  · by_cases hl : Loads d raw
    · obtain ⟨hb, hload, name, snapshot, tree, h⟩ := hl
      have hends := load_cases (a := echo d now raw) hb raw.words.tail
      rw [begin_of_isLoad hload]
      show Told d now raw (load (echo d now raw) raw.words.tail)
      generalize load (echo d now raw) raw.words.tail = b at hends
      cases hends with
      | refused hn text => exact absurd ⟨h.named, h.read, h.completed⟩ (hn name snapshot tree)
      | @loaded _ found _ k =>
        -- The history of the snapshot comes first, and then what is reported of it.
        refine Told.then_speaks ⟨⟨[], rfl⟩, rfl, ?_⟩ hc (Says.sayAll _ _ _).speaks
        show HistoryAfter d raw [d.session.nextLine now .input raw] found.lines
        rw [← List.append_nil found.lines]
        exact .loaded hb hload ⟨k.named, k.read, k.completed⟩
    · exact (told_echo hc hl now).then_speaks hc (speaks_begin hc hl now)

/-! ## Lines that are seen through -/

variable {σ : Type}

theorem speaks_drive {engine : Engine σ} (hq : engine.Quiet) (state : σ) (a : Answer)
    (asides : List Answer) (s : Stage) : a.Speaks (drive engine state a asides s).answer := by
  obtain ⟨b, asides', hb, hd⟩ := drive_eq hq state a asides s
  have hr := speaks_resume b s (engine.attend state a.desk.host s.request).reply
  rw [hd]
  split
  · next c hc =>
    rw [hc] at hr
    exact hb.speaks.trans hr
  · next c t hc =>
    have hlt : t.rank < s.rank := rank_resume (congrArg Prod.snd hc)
    rw [hc] at hr
    exact (hb.speaks.trans hr).trans (speaks_drive hq _ c asides' t)
termination_by s.rank

theorem told_executeAt {engine : Engine σ} (hq : engine.Quiet) (state : σ) (d : Desk) (now : Int)
    (raw : Text) : Told d now raw (executeAt engine state d now raw).answer := by
  have htold := told_begin d now raw
  unfold executeAt
  split
  · next a ha =>
    rw [ha] at htold
    exact htold
  · next a s ha =>
    have hc : verb? raw ≠ some .clear := by
      intro hc
      rw [begin_of_verb? hc] at ha
      exact nomatch (Prod.mk.inj ha).2
    rw [ha] at htold
    exact htold.then_speaks hc (speaks_drive hq state a [] s)

end Shell

end ThreatDesk
