import Mathlib.Data.List.SplitBy
import ThreatDesk.Proofs.Engine.Dialogue
import ThreatDesk.Proofs.Text.Pieces

/-!
# Runs of turns

Joining turn after turn makes one message of every run of turns of one role, and what is dropped at the
front is dropped as whole runs. So the messages of a conversation are its runs, each with all of its texts.
Main statement: `ofDialogue_runs`.
-/

namespace ThreatDesk

namespace Turn

def sameRole (s t : Turn) : Bool := s.role = t.role

/-- The turns that the service is told of: none without text, and none before the user's first one. -/
def told (turns : List Turn) : List Turn :=
  (turns.filter fun t => !t.text.isEmpty).dropWhile fun t => t.role ≠ .user

end Turn

namespace Message

open Turn (sameRole told)

/-- The message is the turns of a run, each with its text. -/
structure Joins (m : Message) (run : List Turn) : Prop where
  nonempty : run ≠ []
  role : ∀ t ∈ run, t.role = m.role
  content : m.content = Text.intercalate "\n\n" (run.map Turn.text)

theorem joins_singleton (turn : Turn) : Joins ⟨turn.role, turn.text⟩ [turn] := by
  constructor <;> simp [Text.intercalate]

theorem Joins.concat {m : Message} {run : List Turn} (h : Joins m run) {turn : Turn}
    (hrole : m.role = turn.role) :
    Joins ⟨m.role, m.content ++ "\n\n" ++ turn.text⟩ (run ++ [turn]) := by
  have htexts : run.map Turn.text ≠ [] := by simpa using h.nonempty
  constructor
  · simp
  · intro t ht
    rcases List.mem_append.1 ht with ht | ht
    · exact h.role t ht
    · rw [List.mem_singleton.1 ht, hrole]
  · rw [List.map_append, List.map_singleton, Text.intercalate_append_singleton _ htexts, h.content]

/-! ## Reading turns -/

/-- One more turn goes into the last run or begins a run; one without text goes nowhere. -/
theorem join_runs {read : List Message} {runs : List (List Turn)} (h : List.Forall₂ Joins read runs)
    (turn : Turn) : ∃ runs', List.Forall₂ Joins (join read turn) runs' ∧
      runs'.reverse.flatten =
        runs.reverse.flatten ++ if turn.text.isEmpty then [] else [turn] := by
  unfold join
  split
  · exact ⟨runs, h, by simp⟩
  · cases h with
    | nil => exact ⟨[[turn]], .cons (joins_singleton turn) .nil, by simp⟩
    | @cons last run before rest hlast hrest =>
      simp only
      split
      · next hrole =>
        refine ⟨(run ++ [turn]) :: rest, .cons (hlast.concat hrole) hrest, ?_⟩
        simp
      · refine ⟨[turn] :: run :: rest, .cons (joins_singleton turn) (.cons hlast hrest), ?_⟩
        simp

theorem grouped_runs (turns : List Turn) : ∃ runs, List.Forall₂ Joins (grouped turns) runs ∧
    runs.flatten = turns.filter fun t => !t.text.isEmpty := by
  suffices hread : ∃ runs, List.Forall₂ Joins (turns.foldl join []) runs ∧
      runs.reverse.flatten = turns.filter fun t => !t.text.isEmpty by
    obtain ⟨runs, hruns, hflatten⟩ := hread
    exact ⟨runs.reverse, List.rel_reverse hruns, hflatten⟩
  induction turns using List.reverseRecOn with
  | nil => exact ⟨[], .nil, rfl⟩
  | append_singleton turns turn ih =>
    obtain ⟨runs, hruns, hflatten⟩ := ih
    obtain ⟨runs', hruns', hflatten'⟩ := join_runs hruns turn
    refine ⟨runs', ?_, ?_⟩
    · rw [List.foldl_append]
      exact hruns'
    · rw [hflatten', hflatten, List.filter_append, List.filter_singleton]
      by_cases htext : turn.text.isEmpty = true <;> simp [htext]

theorem dropWhile_runs {messages : List Message} {runs : List (List Turn)}
    (h : List.Forall₂ Joins messages runs) :
    ∃ runs', List.Forall₂ Joins (messages.dropWhile fun m => m.role ≠ .user) runs' ∧
      runs'.flatten = runs.flatten.dropWhile fun t => t.role ≠ .user := by
  induction h with
  | nil => exact ⟨[], .nil, rfl⟩
  | @cons m run messages runs hm hrest ih =>
    by_cases hrole : m.role = .user
    · refine ⟨run :: runs, ?_, ?_⟩
      · rw [List.dropWhile_cons_of_neg (by simp [hrole])]
        exact .cons hm hrest
      · obtain ⟨t, run, rfl⟩ := List.exists_cons_of_ne_nil hm.nonempty
        have ht : t.role = .user := (hm.role t List.mem_cons_self).trans hrole
        rw [List.flatten_cons, List.cons_append, List.dropWhile_cons_of_neg (by simp [ht])]
    · rw [List.dropWhile_cons_of_pos (by simp [hrole]), List.flatten_cons,
        List.dropWhile_append_of_pos]
      · exact ih
      · intro t ht
        simp [hm.role t ht, hrole]

/-! ## Maximal runs -/

theorem Joins.isChain {m : Message} {run : List Turn} (h : Joins m run) :
    run.IsChain fun s t => sameRole s t = true := by
  apply List.Pairwise.isChain
  apply List.pairwise_of_forall_mem_list
  intro s hs t ht
  simp [sameRole, h.role s hs, h.role t ht]

theorem Joins.apart {m n : Message} {run next : List Turn} (h : Joins m run) (k : Joins n next)
    (hrole : m.role ≠ n.role) :
    ∃ ha hb, sameRole (run.getLast ha) (next.head hb) = false := by
  refine ⟨h.nonempty, k.nonempty, ?_⟩
  simp [sameRole, h.role _ (List.getLast_mem _), k.role _ (List.head_mem _), hrole]

theorem exists_joins {messages : List Message} {runs : List (List Turn)}
    (h : List.Forall₂ Joins messages runs) : ∀ run ∈ runs, ∃ m, Joins m run := by
  induction h with
  | nil => simp
  | cons hm hrest ih => exact List.forall_mem_cons.2 ⟨⟨_, hm⟩, ih⟩

theorem splitBy_flatten_runs {messages : List Message} {runs : List (List Turn)}
    (h : List.Forall₂ Joins messages runs) (ha : Alternates messages) :
    runs.flatten.splitBy sameRole = runs := by
  apply List.splitBy_flatten
  · intro hnil
    obtain ⟨m, hm⟩ := exists_joins h [] hnil
    exact hm.nonempty rfl
  · intro run hrun
    obtain ⟨m, hm⟩ := exists_joins h run hrun
    exact hm.isChain
  · induction h with
    | nil => exact .nil
    | @cons m run messages runs hm hrest ih =>
      cases hrest with
      | nil => exact .singleton run
      | @cons n next messages runs hn hrest =>
        obtain ⟨hrole, ha⟩ := ha
        exact List.isChain_cons_cons.2 ⟨hm.apart hn hrole, ih ha⟩

/-- The messages of a conversation are the turns that the service is told of, in runs of one role as long
as can be: one message for each run, with all its texts and a blank line in every gap. Roles alternate, the
user begins, nothing is empty, and a conversation that goes on with some text ends with it. -/
theorem ofDialogue_runs (history : List Turn) (prompt : Text) :
    let messages := ofDialogue history prompt
    List.Forall₂ Joins messages ((told (history ++ [⟨.user, prompt⟩])).splitBy sameRole) ∧
      Alternates messages ∧ (∀ m, messages.head? = some m → m.role = .user) ∧
      (∀ m ∈ messages, m.content ≠ []) ∧
      (prompt ≠ [] →
        ∃ m, messages.getLast? = some m ∧ m.role = .user ∧ prompt <:+ m.content) := by
  intro messages
  obtain ⟨halternates, hfilled⟩ := joined_ofDialogue history prompt
  obtain ⟨runs, hruns, hflatten⟩ := grouped_runs (history ++ [⟨.user, prompt⟩])
  obtain ⟨runs', hruns', hflatten'⟩ := dropWhile_runs hruns
  have hsplit : (told (history ++ [⟨.user, prompt⟩])).splitBy sameRole = runs' := by
    rw [told, ← hflatten, ← hflatten']
    exact splitBy_flatten_runs hruns' halternates
  refine ⟨?_, halternates, fun m hm => user_of_head? hm, hfilled, fun h => last_ofDialogue history h⟩
  rw [hsplit]
  exact hruns'

theorem ofDialogue_runs_mixed :
    let history : List Turn :=
      [⟨.model, "boot"⟩, ⟨.user, "a"⟩, ⟨.model, []⟩, ⟨.user, "b"⟩, ⟨.model, "c"⟩]
    let messages := ofDialogue history "d"
    messages = [⟨.user, "a\n\nb"⟩, ⟨.model, "c"⟩, ⟨.user, "d"⟩] ∧
      ("d" : Text) ≠ [] ∧
      ∃ m, messages.getLast? = some m ∧ m.role = .user ∧ ("d" : Text) <:+ m.content := by
  intro history messages
  have hd : ("d" : Text) ≠ [] := by decide
  obtain ⟨-, -, -, -, hlast⟩ := ofDialogue_runs history "d"
  exact ⟨by decide, hd, hlast hd⟩

end Message

end ThreatDesk
