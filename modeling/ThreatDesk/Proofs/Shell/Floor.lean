import Mathlib.Logic.Relation
import ThreatDesk.Proofs.Shell.Stages
import ThreatDesk.Shell.Run

/-!
# Commands side by side

Any number of commands work on one desk. A line is taken in and carried as far as it goes without the
engine; what waits for the engine is pending, and goes on when something comes back. Nothing else
happens in between. The invariant: the shell is busy while one operation is pending, and idle else
(`Floor.Exclusive`).
-/

namespace ThreatDesk

namespace Shell

open Engine (Failure)
open Answer (Says)

/-- A command that waits for the engine: its time, what it has said and where it stands. -/
structure Pending where
  now : Int
  said : List Line
  stage : Stage

def Pending.answer (p : Pending) (d : Desk) : Answer := ⟨d, p.now, p.said⟩

/-- What comes back to a stage: a reply of the engine, or the command is given up from outside. -/
inductive Signal (s : Stage)
  | replied (reply : Except Failure s.request.Answer)
  | cancelled

/-- Go on with what has come back. A command that is given up ends its operation and says nothing. -/
def continued (a : Answer) (s : Stage) : Signal s → Answer × Option Stage
  | .replied reply => resume a s reply
  | .cancelled => (finish a .error, none)

def ReturnsNormally (a : Answer) (s : Stage) : Signal s → Prop
  | .replied reply => failure? a s reply = none
  | .cancelled => False

structure Floor where
  desk : Desk
  pending : List Pending

namespace Floor

def settle (before after : List Pending) : Answer × Option Stage → Floor
  | (a, none) => ⟨a.desk, before ++ after⟩
  | (a, some s) => ⟨a.desk, before ++ ⟨a.now, a.said, s⟩ :: after⟩

/-- What can happen, where `hosts` tells what the host can turn into by itself. -/
inductive Step (hosts : Host → Prop) : Floor → Floor → Prop
  | host (f : Floor) {h : Host} (hh : hosts h) :
    Step hosts f { f with desk := { f.desk with host := h } }
  /-- The clock tells no time. -/
  | refused (f : Floor) :
    Step hosts f { f with desk := { f.desk with session := f.desk.session.skipLine } }
  | line (f : Floor) (now : Int) (raw : Text) :
    Step hosts f (settle f.pending [] (begin f.desk now raw))
  | progress {d : Desk} {before after : List Pending} {p : Pending} (text : Text) :
    Step hosts ⟨d, before ++ p :: after⟩
      (settle before after ((p.answer d).system text, some p.stage))
  | signal {d : Desk} {before after : List Pending} {p : Pending} (signal : Signal p.stage) :
    Step hosts ⟨d, before ++ p :: after⟩
      (settle before after (continued (p.answer d) p.stage signal))

abbrev Reaches (hosts : Host → Prop) : Floor → Floor → Prop := Relation.ReflTransGen (Step hosts)

/-! ## Exclusion -/

/-- The shell is busy with the one operation that is pending, or nothing is. -/
inductive Exclusive : Floor → Prop
  | idle {d : Desk} (h : d.session.isBusy = false) : Exclusive ⟨d, []⟩
  | busy {d : Desk} (p : Pending) (h : d.session.isBusy = true) : Exclusive ⟨d, [p]⟩

theorem isBusy_of_edit {a b : Answer} (h : Edit a b) : b.session.isBusy = a.session.isBusy := by
  cases h with
  | said h => exact h.isBusy
  | moved cwd hc h => exact h.isBusy
  | opened path f hf h => exact h.isBusy
  | made name hn h => exact h.isBusy
  | wrote path content h => exact h.isBusy
  | keyed key h => exact h.isBusy
  | exported e he version hv h => exact h.isBusy

theorem isBusy_of_effect {a b : Answer} (h : Effect a b) :
    b.session.isBusy = a.session.isBusy := by
  cases h with
  | edited h => exact isBusy_of_edit h
  | cleared h => exact h.isBusy
  | loaded name snapshot d report hb hs hr h =>
    rw [h.isBusy, hb]
    obtain ⟨tree, added, -, rfl⟩ := restore_eq_ok hr
    rfl

theorem isBusy_start (a : Answer) (op : Operation) : (start a op).1.session.isBusy = true := by
  obtain ⟨state, hs, h⟩ := start_cases a op
  rw [h.isBusy]
  exact hs

theorem isBusy_begin {d : Desk} (hd : d.session.isBusy = true) (now : Int) (raw : Text) :
    (begin d now raw).1.session.isBusy = true := by
  have hb := begin_cases d now raw
  have he : (echo d now raw).session.isBusy = true := hd
  generalize begin d now raw = r at hb
  cases hb with
  | done h => exact (isBusy_of_effect h).trans he
  | begun op hidle =>
    rw [he] at hidle
    exact Bool.noConfusion hidle

theorem exclusive_line {f : Floor} (hf : Exclusive f) (now : Int) (raw : Text) :
    Exclusive (settle f.pending [] (begin f.desk now raw)) := by
  have hb := begin_cases f.desk now raw
  have he : (echo f.desk now raw).session.isBusy = f.desk.session.isBusy := rfl
  generalize begin f.desk now raw = r at hb
  cases hb with
  | done h =>
    have hsame := (isBusy_of_effect h).trans he
    cases hf with
    | idle hd => exact .idle (hsame.trans hd)
    | busy p hd => exact .busy p (hsame.trans hd)
  | begun op hidle =>
    cases hf with
    | idle hd => exact .busy _ (isBusy_start ..)
    | busy p hd =>
      rw [he, hd] at hidle
      exact Bool.noConfusion hidle

theorem exclusive_pending {d : Desk} {before after : List Pending} {p : Pending}
    (h : Exclusive ⟨d, before ++ p :: after⟩) :
    before = [] ∧ after = [] ∧ d.session.isBusy = true := by
  generalize hl : before ++ p :: after = pending at h
  cases h with
  | idle hd => exact absurd hl (by simp)
  | busy q hd =>
    rw [List.append_eq_singleton_iff] at hl
    rcases hl with ⟨hb, hp⟩ | ⟨-, hp⟩
    · exact ⟨hb, (List.cons.inj hp).2, hd⟩
    · exact absurd hp (by simp)

theorem exclusive_continued {d : Desk} (hd : d.session.isBusy = true) (p : Pending)
    (signal : Signal p.stage) :
    Exclusive (settle [] [] (continued (p.answer d) p.stage signal)) := by
  cases signal with
  | cancelled => exact .idle rfl
  | replied reply =>
    have hr := resume_cases (p.answer d) p.stage reply
    show Exclusive (settle [] [] (resume (p.answer d) p.stage reply))
    generalize resume (p.answer d) p.stage reply = r at hr
    obtain ⟨b, t⟩ := r
    cases t with
    | none =>
      refine .idle ?_
      show b.session.state.isBusy = false
      rw [hr.ended.1]
      rfl
    | some t => exact .busy _ (hr.advances hd).1

theorem Step.exclusive {hosts : Host → Prop} {f g : Floor} (h : Step hosts f g)
    (hf : Exclusive f) : Exclusive g := by
  cases h with
  | host f hh =>
    cases hf with
    | idle hd => exact .idle hd
    | busy p hd => exact .busy p hd
  | refused f =>
    cases hf with
    | idle hd => exact .idle hd
    | busy p hd => exact .busy p hd
  | line f now raw => exact exclusive_line hf now raw
  | progress text =>
    obtain ⟨rfl, rfl, hd⟩ := exclusive_pending hf
    exact .busy _ hd
  | signal signal =>
    obtain ⟨rfl, rfl, hd⟩ := exclusive_pending hf
    exact exclusive_continued hd _ signal

theorem Reaches.exclusive {hosts : Host → Prop} {f g : Floor} (h : Reaches hosts f g)
    (hf : Exclusive f) : Exclusive g := by
  induction h with
  | refl => exact hf
  | tail _ hs ih => exact hs.exclusive ih

end Floor

/-! ## Lines that are turned away -/

def operation? (raw : Text) : Option Operation :=
  match raw.words with
  | [] => none
  | word :: args =>
    match Verb.ofText? word.lower, args with
    | some .analyze, _ => some .analyze
    | some .research, _ => some .research
    | some .scan, _ => some .scan
    | some .browse, url :: _ => some (.browse url)
    | some .ask, _ :: _ => some (.ask (raw.argument 1))
    | _, _ => none

def isLoad (raw : Text) : Bool :=
  match raw.words with
  | [] => false
  | word :: _ => Verb.ofText? word.lower = some .load

theorem begin_of_words {raw word : Text} {args : List Text} (h : raw.words = word :: args)
    (d : Desk) (now : Int) :
    begin d now raw =
      match Verb.ofText? word.lower with
      | none => ((echo d now raw).error ("Unknown command: " ++ word.lower), none)
      | some verb => perform (echo d now raw) verb args raw := by
  unfold begin
  simp only [h]
  rfl

theorem begin_of_verb {raw word : Text} {args : List Text} {verb : Verb} (h : raw.words = word :: args)
    (hverb : word.lower = verb.name) (d : Desk) (now : Int) :
    begin d now raw = perform (echo d now raw) verb args raw := by
  rw [begin_of_words h, hverb, Verb.ofText?_name]

theorem begin_of_operation? {raw : Text} {op : Operation} (h : operation? raw = some op)
    (d : Desk) (now : Int) : begin d now raw = startUnlessBusy (echo d now raw) op := by
  unfold operation? at h
  split at h
  · exact absurd h (by simp)
  · next word args hw =>
    rw [begin_of_words hw]
    split at h
    case h_6 => exact absurd h (by simp)
    all_goals
      next hv =>
      obtain rfl := Option.some.inj h
      rw [hv]
      rfl

theorem begin_of_isLoad {raw : Text} (h : isLoad raw = true) (d : Desk) (now : Int) :
    begin d now raw = (load (echo d now raw) raw.words.tail, none) := by
  unfold isLoad at h
  split at h
  · exact Bool.noConfusion h
  · next word args hw =>
    rw [begin_of_words hw, of_decide_eq_true h, hw]
    rfl

/-- While an operation is under way, a line that asks for another one or for a snapshot is echoed and
turned away. -/
theorem begin_of_busy {d : Desk} (hd : d.session.isBusy = true) (now : Int) {raw : Text}
    (h : (operation? raw).isSome = true ∨ isLoad raw = true) :
    begin d now raw = ((echo d now raw).error "BUSY.", none) := by
  have he : (echo d now raw).session.isBusy = true := hd
  rcases h with h | h
  · obtain ⟨op, hop⟩ := Option.isSome_iff_exists.1 h
    rw [begin_of_operation? hop, startUnlessBusy, if_pos he]
  · rw [begin_of_isLoad h, load, if_pos he]

/-! ## One operation at a time -/

theorem continued_ended {a b : Answer} {s : Stage} {signal : Signal s}
    (h : continued a s signal = (b, none)) :
    b.session.state = .idle ∧
      (b.session.lastOutcome = some .complete ↔ ReturnsNormally a s signal) ∧
      (b.session.lastOutcome = some .error ↔ ¬ ReturnsNormally a s signal) := by
  have hne : some ShellState.error ≠ some ShellState.complete := by decide
  cases signal with
  | cancelled =>
    obtain ⟨rfl, -⟩ := Prod.mk.inj h
    exact ⟨rfl, iff_of_false hne id, iff_of_true rfl id⟩
  | replied reply =>
    have hr := resume_cases a s reply
    rw [show resume a s reply = (b, none) from h] at hr
    obtain ⟨hs, ho⟩ := hr.ended
    refine ⟨hs, ?_⟩
    rw [ho, ReturnsNormally]
    cases failure? a s reply with
    | none => exact ⟨iff_of_true rfl rfl, iff_of_false (by decide) (by simp)⟩
    | some failure => exact ⟨iff_of_false hne (by simp), iff_of_true rfl (by simp)⟩

/-- From a desk where nothing is under way on, whatever comes in whatever order: at most one operation
is pending, and the shell is busy just then; a line that asks for another one or for a snapshot
changes nothing but the lines, by its echo and one complaint, and waits for nothing; and an operation
leaves the shell idle when it ends, complete if nothing was raised and else as an error. -/
theorem one_operation_at_a_time {hosts : Host → Prop} {d : Desk}
    (hd : d.session.isBusy = false) {f : Floor} (hf : Floor.Reaches hosts ⟨d, []⟩ f) :
    f.pending.length ≤ 1 ∧
    (f.desk.session.isBusy = true ↔ f.pending ≠ []) ∧
    (f.desk.session.isBusy = true → ∀ now raw,
      (operation? raw).isSome = true ∨ isLoad raw = true →
      begin f.desk now raw =
        (⟨{ f.desk with session := (f.desk.session.say now .input raw).say now .error "BUSY." }, now,
          [f.desk.session.nextLine now .input raw,
            (f.desk.session.say now .input raw).nextLine now .error "BUSY."]⟩, none)) ∧
    (∀ p ∈ f.pending, ∀ signal b, continued (p.answer f.desk) p.stage signal = (b, none) →
      b.session.state = .idle ∧
      (b.session.lastOutcome = some .complete ↔
        ReturnsNormally (p.answer f.desk) p.stage signal) ∧
      (b.session.lastOutcome = some .error ↔
        ¬ ReturnsNormally (p.answer f.desk) p.stage signal)) := by
  have he : Floor.Exclusive f := hf.exclusive (.idle hd)
  refine ⟨?_, ?_, ?_, ?_⟩
  · cases he with
    | idle h => exact Nat.zero_le 1
    | busy p h => exact Nat.le_refl 1
  · cases he with
    | idle h => exact iff_of_false (by rw [h]; decide) (by simp)
    | busy p h => exact iff_of_true h (by simp)
  · intro hb now raw h
    exact begin_of_busy hb now h
  · intro p hp signal b h
    exact continued_ended h

theorem one_operation_at_a_time_scan :
    let d := Desk.bare (Session.withoutHistory ⟨[]⟩ "1.0.0")
    let f := Floor.settle [] [] (begin d 0 "scan")
    d.session.isBusy = false ∧ Floor.Reaches (fun _ => False) ⟨d, []⟩ f ∧ f.pending.length ≤ 1 ∧
      f.desk.session.isBusy = true ∧ (begin f.desk 1 "analyze").2 = none := by
  intro d f
  have hf : Floor.Reaches (fun _ => False) ⟨d, []⟩ f := .single (.line ⟨d, []⟩ 0 "scan")
  have h := one_operation_at_a_time rfl hf
  have hb : f.desk.session.isBusy = true := by decide
  refine ⟨rfl, hf, h.1, hb, ?_⟩
  rw [h.2.2.1 hb 1 "analyze" (Or.inl (by decide))]

end Shell

end ThreatDesk
