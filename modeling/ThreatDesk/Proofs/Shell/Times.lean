import ThreatDesk.Proofs.Shell.Runs
import ThreatDesk.Proofs.Snapshot.ReadBack

/-!
# The times of the history

A line is said at a time in milliseconds, and all others come from a snapshot that has been read. So
every double among the times of a history is in its one form, over every run (`Reaches.timed`), and the
history can be read back from where it is written.
-/

namespace ThreatDesk

/-- A desk where every double among the times of the history is in its one form. -/
def Desk.Timed (d : Desk) : Prop := ∀ l ∈ d.session.lines, l.timestamp.IsCanonical

namespace Shell

open Engine (Failure)
open Answer (Says)

variable {a b : Answer}

theorem timed_of_speaks (h : a.Speaks b) (ha : a.desk.Timed) : b.desk.Timed := by
  obtain ⟨ls, hls⟩ := h
  intro l hl
  have hl : l ∈ b.session.lines := hl
  rw [hls.lines] at hl
  rcases List.mem_append.1 hl with hl | hl
  · exact ha l hl
  · rw [hls.times l hl]
    trivial

theorem timed_of_saying (h : a.Says b) (ha : a.desk.Timed) : b.desk.Timed := timed_of_speaks h.speaks ha

theorem timed_of_effect (h : Effect a b) (ha : a.desk.Timed) : b.desk.Timed := by
  cases h with
  | edited h => exact timed_of_speaks h.speaks ha
  | cleared h => exact timed_of_saying h (List.forall_mem_nil _)
  | loaded name snapshot d report hb hs hr h =>
    -- The only lines that are not said but read.
    refine timed_of_saying h ?_
    obtain ⟨bytes, hbytes⟩ := readSnapshot_eq_ok hs
    obtain ⟨tree, added, -, rfl⟩ := restore_eq_ok hr
    exact Snapshot.canonical_ofBytes hbytes

theorem timed_begin {d : Desk} (hd : d.Timed) (now : Int) (raw : Text) :
    (begin d now raw).1.desk.Timed := by
  have hb := begin_cases d now raw
  have he : (echo d now raw).desk.Timed := timed_of_saying (Says.say (d.silent now) .input raw) hd
  generalize begin d now raw = r at hb
  cases hb with
  | done h => exact timed_of_effect h he
  | begun op hidle =>
    obtain ⟨state, -, h⟩ := start_cases (echo d now raw) op
    exact timed_of_saying h he

theorem timed_finish (ha : a.desk.Timed) (outcome : ShellState) :
    (finish a outcome).desk.Timed := ha

theorem timed_abort (ha : a.desk.Timed) (label : Text) (failure : Failure) :
    (abort a label failure).desk.Timed := by
  cases failure with
  | missingCredential | collaborator | malformed | unusable =>
    exact timed_finish (timed_of_saying (Says.say a .error _) ha) .error
  | fault fault =>
    exact timed_of_saying (Says.say (finish a .error) .error _) (timed_finish ha .error)

theorem timed_resume (ha : a.desk.Timed) (s : Stage) (reply : Except Failure s.request.Answer) :
    (resume a s reply).1.desk.Timed := by
  have hr := resume_cases a s reply
  generalize resume a s reply = r at hr
  cases hr with
  | failed hf hb => exact timed_abort (timed_of_saying hb ha) _ _
  | stored he hs hf hb => exact timed_finish (timed_of_saying hb ha) .complete
  | advanced hf hs hb => exact timed_of_saying hb ha
  | toolFailed hf => exact timed_abort (a := exchanged a _ _) ha _ _
  | again hf => exact ha
  | answered hf hb => exact timed_finish (timed_of_saying hb ha) .complete

namespace Floor

variable {hosts : Host → Prop} {f g : Floor}

theorem Step.timed (h : Step hosts f g) (hf : f.desk.Timed) : g.desk.Timed := by
  cases h with
  | host f hh => exact hf
  | refused f => exact hf
  | line f now raw =>
    rw [desk_settle]
    exact timed_begin hf now raw
  | @progress d before after p text => exact timed_of_saying (Says.say (p.answer d) .system text) hf
  | @signal d before after p signal =>
    rw [desk_settle]
    cases signal with
    | cancelled => exact hf
    | replied reply => exact timed_resume (a := p.answer d) hf p.stage reply

theorem Reaches.timed (h : Reaches hosts f g) (hf : f.desk.Timed) : g.desk.Timed := by
  induction h with
  | refl => exact hf
  | tail _ hs ih => exact hs.timed ih

end Floor

theorem timed_new {ε : Type} {modules : Except ε (List Baseline.Module)} {now : Except ε Int}
    {version : Text} {drawn : Nat → Nat} {s : Session}
    (h : Session.new modules now version drawn = .ok s) :
    ∀ l ∈ s.lines, l.timestamp.IsCanonical := by
  obtain ⟨n, rfl⟩ := Session.new_eq_ok h
  exact List.forall_mem_singleton.2 trivial

end Shell

end ThreatDesk
