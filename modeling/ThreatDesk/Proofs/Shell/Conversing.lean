import ThreatDesk.Proofs.Shell.ToolCalls

/-!
# Every round of a conversation is accounted for

A message is held in rounds: the agent is asked, and the calls of its reply are run, whose results are the
prompt of the next round. After any number of rounds what is left to do is the same as at the start, with
those rounds behind it (`Exchange.past`). Main statement: how a message ends, and what it has left
(`conversed_drive`).
-/

namespace ThreatDesk

open Engine (Failure Request)

/-- The engine that answers what the agent is asked by a script, and keeps a record of all it is asked. -/
def Engine.scripted (script : Nat → Except Failure ChatReply) : Engine (List Request) where
  attend := fun asked _ q =>
    ⟨asked ++ [q], [], match q with
      | .chat .. => script asked.length
      | _ => .error .missingCredential⟩

/-- A call that names its tool by a text and its arguments in an object. -/
def ToolCall.Proper (call : ToolCall) : Prop :=
  ∃ name fields, call.name = .text name ∧ call.input = .ofFields fields

theorem ToolCall.Proper.answered {call : ToolCall} (h : call.Proper) (t : Tree) :
    ∃ answer, (call.run t).2 = .ok answer := by
  obtain ⟨name, input, id⟩ := call
  obtain ⟨name, fields, rfl, rfl⟩ := h
  exact (ToolCall.confined name fields id t).answered

namespace Exchange

theorem map_fst_of_runCalls {t u : Tree} {calls : List ToolCall} {results : List (ToolCall × Text)}
    (h : runCalls t calls = (u, .ok results)) : results.map Prod.fst = calls := by
  induction calls generalizing t u results with
  | nil =>
    obtain ⟨-, hnil⟩ := Prod.mk.inj h
    rw [← Except.ok.inj hnil, List.map_nil]
  | cons call calls ih =>
    rw [runCalls] at h
    split at h
    · cases (Prod.mk.inj h).2
    · obtain ⟨-, hmap⟩ := Prod.mk.inj h
      obtain ⟨rest, hrest, rfl⟩ := exists_of_map_ok hmap
      rw [List.map_cons, ih (Prod.ext rfl hrest)]

theorem runCalls_proper {calls : List ToolCall} (h : ∀ call ∈ calls, call.Proper) (t : Tree) :
    ∃ u results, runCalls t calls = (u, .ok results) := by
  induction calls generalizing t with
  | nil => exact ⟨t, [], rfl⟩
  | cons call calls ih =>
    obtain ⟨hcall, hcalls⟩ := List.forall_mem_cons.1 h
    obtain ⟨answer, hanswer⟩ := hcall.answered t
    obtain ⟨u, results, hrun⟩ := ih hcalls (call.run t).1
    refine ⟨u, (call, answer) :: results, ?_⟩
    rw [runCalls, show call.run t = ((call.run t).1, .ok answer) from Prod.ext rfl hanswer]
    simp only [hrun]
    rfl

/-! ## Rounds -/

structure Round where
  prompt : Text
  reply : ChatReply
  results : List (ToolCall × Text)

namespace Round

def turns (r : Round) : List Turn := [⟨.user, r.prompt⟩, ⟨.model, r.reply.text⟩]

def parts (r : Round) : List Text :=
  (if r.reply.text.isEmpty then [] else [r.reply.text]) ++
    r.results.map fun (call, result) => partOf call result

theorem length_flatMap_turns (rounds : List Round) :
    (rounds.flatMap turns).length = 2 * rounds.length := by
  induction rounds with
  | nil => rfl
  | cons r rounds ih =>
    rw [List.flatMap_cons, List.length_append, ih, List.length_cons]
    show 2 + 2 * rounds.length = 2 * (rounds.length + 1)
    omega

end Round

/-- The prompt that follows some rounds: the message at first, and then the results of the last one. -/
def promptAfter (message : Text) (rounds : List Round) : Text :=
  (rounds.getLast?.map fun r => resultsPrompt r.results).getD message

def requests (context : Text) (history : List Turn) : List Round → List Request
  | [] => []
  | r :: rounds => .chat history r.prompt context :: requests context (history ++ r.turns) rounds

/-- The rounds are held by the script from the message on: each prompt follows from the round before, and
the calls of each reply are run one after the other on the tree that is there. -/
inductive Held (script : Nat → Except Failure ChatReply) (message : Text) (t : Tree) :
    List Round → Tree → Prop
  | start : Held script message t [] t
  | round {rounds : List Round} {u v : Tree} {r : Round} (h : Held script message t rounds u)
    (hprompt : r.prompt = promptAfter message rounds)
    (hreply : script rounds.length = .ok r.reply)
    (hrun : runCalls u r.reply.toolCalls = (v, .ok r.results)) :
    Held script message t (rounds ++ [r]) v

theorem Held.run {script : Nat → Except Failure ChatReply} {message : Text} {t u : Tree}
    {rounds : List Round} (h : Held script message t rounds u) :
    ∀ r ∈ rounds, r.results.map Prod.fst = r.reply.toolCalls := by
  induction h with
  | start => exact List.forall_mem_nil _
  | round h hprompt hreply hrun ih =>
    exact List.forall_mem_append.2 ⟨ih, List.forall_mem_singleton.2 (map_fst_of_runCalls hrun)⟩

def past (history : List Turn) (limit : Nat) (message context : Text) (rounds : List Round) :
    Exchange where
  context := context
  history := history ++ rounds.flatMap Round.turns
  prompt := promptAfter message rounds
  parts := rounds.flatMap Round.parts
  executed := (rounds.flatMap Round.results).length
  limit := limit
  roundsLeft := limit - 1 - rounds.length

/-- The answer to a message after its rounds, of which the last one is given: what was said and done in
them, a note if the last one would have had another after it, and a note if anything was done. -/
def answerText (limit : Nat) (rounds : List Round) (last : Round) : Text :=
  Text.intercalate "\n\n" (rounds.flatMap Round.parts ++
    (if last.reply.toolCalls.isEmpty then [] else [limitNote limit]) ++
    (if (rounds.flatMap Round.results).isEmpty then [] else [completionNote]))

variable {history : List Turn} {message context : Text} {rounds : List Round} {limit : Nat} {r : Round}

theorem promptAfter_concat : promptAfter message (rounds ++ [r]) = resultsPrompt r.results := by
  rw [promptAfter, List.getLast?_concat]
  rfl

theorem requests_concat (context : Text) (history : List Turn) (rounds : List Round) (r : Round) :
    requests context history (rounds ++ [r]) = requests context history rounds ++
      [.chat (history ++ rounds.flatMap Round.turns) r.prompt context] := by
  induction rounds generalizing history with
  | nil => rw [List.flatMap_nil, List.append_nil]; rfl
  | cons q rounds ih =>
    rw [List.cons_append, requests, ih, List.flatMap_cons, List.append_assoc]
    rfl

theorem length_requests (context : Text) (history : List Turn) (rounds : List Round) :
    (requests context history rounds).length = rounds.length := by
  induction rounds generalizing history with
  | nil => rfl
  | cons q rounds ih => rw [requests, List.length_cons, ih, List.length_cons]

theorem withReply_past (history : List Turn) (limit : Nat) (message context : Text)
    (rounds : List Round) (r : Round) :
    (past history limit message context rounds).withReply r.reply ++
        (r.results.map fun (call, result) => partOf call result) =
      (rounds ++ [r]).flatMap Round.parts := by
  rw [List.flatMap_append, List.flatMap_singleton, Round.parts, ← List.append_assoc]
  congr 1
  unfold withReply past
  split
  · rw [List.append_nil]
  · rfl

theorem concluded_results (parts : List Text) (results : List (ToolCall × Text)) :
    concluded parts results.length =
      Text.intercalate "\n\n" (parts ++ if results.isEmpty then [] else [completionNote]) := by
  cases results with
  | nil => exact congrArg _ (List.append_nil parts).symm
  | cons result results => rfl

theorem next_past (hprompt : r.prompt = promptAfter message rounds) (hlimit : rounds.length < limit)
    (hcalls : r.results.map Prod.fst = r.reply.toolCalls) :
    (past history limit message context rounds).next r.reply r.results =
      if r.reply.toolCalls = [] ∨ rounds.length + 1 = limit then
        .done (answerText limit (rounds ++ [r]) r)
      else .again (past history limit message context (rounds ++ [r])) := by
  have hempty : r.results.isEmpty = true ↔ r.reply.toolCalls = [] := by
    rw [List.isEmpty_iff, ← hcalls, List.map_eq_nil_iff]
  have hexecuted : (rounds.flatMap Round.results).length + r.results.length =
      ((rounds ++ [r]).flatMap Round.results).length := by
    rw [List.flatMap_append, List.flatMap_singleton, List.length_append]
  have hparts := withReply_past history limit message context rounds r
  unfold next
  simp only [hempty, hparts]
  by_cases hnil : r.reply.toolCalls = []
  · rw [if_pos hnil, if_pos (.inl hnil), answerText, if_pos (List.isEmpty_iff.2 hnil),
      List.append_nil, ← concluded_results, ← hexecuted]
    rfl
  · -- The reply had calls, so it is a matter of how many rounds are left.
    rw [if_neg hnil]
    have hleft : (past history limit message context rounds).roundsLeft = limit - 1 - rounds.length :=
      rfl
    by_cases hlast : rounds.length + 1 = limit
    · rw [if_pos (.inr hlast), hleft, show limit - 1 - rounds.length = 0 by omega, answerText,
        if_neg (by simpa using hnil), ← concluded_results, ← hexecuted]
      rfl
    · rw [if_neg (by simp [hnil, hlast]), hleft,
        show limit - 1 - rounds.length = (limit - 1 - (rounds ++ [r]).length) + 1 by
          rw [List.length_append, List.length_singleton]; omega]
      simp only [past, turns, Next.again.injEq, Exchange.mk.injEq, true_and, and_true]
      refine ⟨?_, promptAfter_concat.symm, hexecuted⟩
      rw [List.flatMap_append, List.flatMap_singleton, ← List.append_assoc, Round.turns, hprompt]

end Exchange

namespace Answer

open Exchange (Round)

def afterRounds (a : Answer) (rounds : List Round) (t : Tree) : Answer :=
  let b := a.withTree t
  { b with desk := { b.desk with dialogue := b.desk.dialogue ++ rounds.flatMap Round.turns } }

end Answer

namespace Shell

open Exchange (Round Held past promptAfter requests answerText)

/-- What rounds that have been held account for: the tree, the conversation, and all calls of all
replies. -/
structure Accounted (script : Nat → Except Failure ChatReply) (a : Answer) (message : Text)
    (rounds : List Round) (b : Answer) : Prop where
  held : Held script message a.session.tree rounds b.session.tree
  run : ∀ r ∈ rounds, r.results.map Prod.fst = r.reply.toolCalls
  dialogue : b.desk.dialogue = a.desk.dialogue ++ rounds.flatMap Round.turns
  grown : b.desk.dialogue.length = a.desk.dialogue.length + 2 * rounds.length

/-- How a message ends after rounds that have left a tree: with an answer, when the last reply had no
calls or there may be no more rounds, or with a failure, which may come before any round. -/
inductive Ends (script : Nat → Except Failure ChatReply) (a : Answer) (message context : Text)
    (tree : Tree) : List Round → Outcome (List Request) → Prop
  | answered {before : List Round} {last : Round} {o : Outcome (List Request)}
    (called : ∀ r ∈ before, r.reply.toolCalls ≠ [])
    (bound : before.length < a.desk.site.rounds)
    (stopped : last.reply.toolCalls = [] ∨ before.length + 1 = a.desk.site.rounds)
    (asked : o.engine = requests context a.desk.dialogue (before ++ [last]))
    (answer : o.answer = complete ((a.afterRounds (before ++ [last]) tree).output
      (let text := answerText a.desk.site.rounds (before ++ [last]) last
       if text.isEmpty then "(no response)" else text))) :
    Ends script a message context tree (before ++ [last]) o
  | failed {rounds : List Round} {failure : Failure} {o : Outcome (List Request)}
    (called : ∀ r ∈ rounds, r.reply.toolCalls ≠ [])
    (bound : rounds.length < a.desk.site.rounds)
    (raised : script rounds.length = .error failure)
    (asked : o.engine = requests context a.desk.dialogue rounds ++
      [.chat (a.desk.dialogue ++ rounds.flatMap Round.turns) (promptAfter message rounds) context])
    (answer : o.answer = abort (a.afterRounds rounds tree) "AGENT" failure) :
    Ends script a message context tree rounds o

variable {script : Nat → Except Failure ChatReply} {message context : Text}

theorem drive_scripted {asked : List Request} {a : Answer} {asides : List Answer} {e : Exchange}
    {r : Answer × Option Stage} :
    resume a (.chat e) (script asked.length) = r → drive (.scripted script) asked a asides (.chat e) =
      match r with
      | (b, none) => ⟨asked ++ [.chat e.history e.prompt e.context], b, asides⟩
      | (b, some s) =>
        drive (.scripted script) (asked ++ [.chat e.history e.prompt e.context]) b asides s := by
  rintro rfl
  exact drive_stage ..

theorem exchanged_past (a : Answer) (rounds : List Round) (u v : Tree) {r : Round} {limit : Nat}
    (hprompt : r.prompt = promptAfter message rounds)
    (hrun : Exchange.runCalls u r.reply.toolCalls = (v, .ok r.results)) :
    exchanged (a.afterRounds rounds u) (past a.desk.dialogue limit message context rounds) r.reply =
      a.afterRounds (rounds ++ [r]) v := by
  have hturns : (past a.desk.dialogue limit message context rounds).turns r.reply = r.turns := by
    rw [Round.turns, hprompt]
    rfl
  have htree : (Exchange.runCalls (a.afterRounds rounds u).session.tree r.reply.toolCalls).1 = v :=
    congrArg Prod.fst hrun
  rw [exchanged, htree, hturns, Answer.afterRounds, Answer.afterRounds, List.flatMap_append,
    List.flatMap_singleton, ← List.append_assoc]
  rfl

/-- Whatever rounds there have been, if all of their replies had calls and another one may follow, the
message ends after those and some more. -/
theorem ends_past (hscript : ∀ n reply, script n = .ok reply → ∀ call ∈ reply.toolCalls, call.Proper)
    (a : Answer) (asides : List Answer) (message context : Text) {rounds : List Round} {tree : Tree}
    (held : Held script message a.session.tree rounds tree)
    (called : ∀ r ∈ rounds, r.reply.toolCalls ≠ []) (bound : rounds.length < a.desk.site.rounds) :
    ∃ all left, Held script message a.session.tree all left ∧
      Ends script a message context left all
        (drive (.scripted script) (requests context a.desk.dialogue rounds)
          (a.afterRounds rounds tree) asides
          (.chat (past a.desk.dialogue a.desk.site.rounds message context rounds))) := by
  have hcount : script (requests context a.desk.dialogue rounds).length = script rounds.length := by
    rw [Exchange.length_requests]
  cases hreply : script rounds.length with
  | error failure =>
    rw [drive_scripted (congrArg (resume _ (.chat _)) (hcount.trans hreply))]
    exact ⟨rounds, tree, held, .failed called bound hreply rfl rfl⟩
  | ok reply =>
    obtain ⟨tree', results, hrun⟩ := Exchange.runCalls_proper (hscript _ reply hreply) tree
    obtain ⟨r, rfl, rfl, hprompt⟩ : ∃ r : Round, r.reply = reply ∧ r.results = results ∧
        r.prompt = promptAfter message rounds := ⟨⟨_, reply, results⟩, rfl, rfl, rfl⟩
    have hheld := held.round hprompt hreply hrun
    have hcalls := Exchange.map_fst_of_runCalls hrun
    have hasked := Exchange.requests_concat context a.desk.dialogue rounds r
    rw [hprompt] at hasked
    have hresults : (Exchange.runCalls (a.afterRounds rounds tree).session.tree r.reply.toolCalls).2 =
        .ok r.results := congrArg Prod.snd hrun
    have hround : resume (a.afterRounds rounds tree)
        (.chat (past a.desk.dialogue a.desk.site.rounds message context rounds)) (.ok r.reply) =
          continueChat _ _ r.reply := rfl
    rw [continueChat_eq, hresults, exchanged_past a rounds tree tree' hprompt hrun] at hround
    simp only [Exchange.next_past hprompt bound hcalls] at hround
    rw [drive_scripted ((congrArg (resume _ (.chat _)) (hcount.trans hreply)).trans hround)]
    by_cases hover : r.reply.toolCalls = [] ∨ rounds.length + 1 = a.desk.site.rounds
    · rw [if_pos hover]
      exact ⟨_, _, hheld, .answered called bound hover hasked.symm rfl⟩
    · rw [if_neg hover]
      obtain ⟨hmore, hleft⟩ := not_or.1 hover
      have hmany : ∀ q ∈ rounds ++ [r], q.reply.toolCalls ≠ [] :=
        List.forall_mem_append.2 ⟨called, List.forall_mem_singleton.2 hmore⟩
      have hrest := ends_past hscript a asides message context hheld hmany
        (by rw [List.length_append, List.length_singleton]; omega)
      rw [hasked] at hrest
      exact hrest
termination_by a.desk.site.rounds - rounds.length
decreasing_by
  rw [List.length_append, List.length_singleton]
  omega

theorem past_nil (history : List Turn) (limit : Nat) (message context : Text) :
    past history limit message context [] = .ofMessage history limit message context := by
  rw [past, List.flatMap_nil, List.append_nil]
  rfl

theorem afterRounds_nil (a : Answer) : a.afterRounds [] a.session.tree = a := by
  rw [Answer.afterRounds, List.flatMap_nil, List.append_nil]
  rfl

theorem rounds_pos (s : Site) : 0 < s.rounds := by
  unfold Site.rounds
  omega

theorem Ends.tree_dialogue {a : Answer} {tree : Tree} {rounds : List Round} {o : Outcome (List Request)}
    (h : Ends script a message context tree rounds o) :
    o.answer.session.tree = tree ∧
      o.answer.desk.dialogue = a.desk.dialogue ++ rounds.flatMap Round.turns := by
  cases h with
  | answered _ _ _ _ answer =>
    rw [answer]
    exact ⟨rfl, rfl⟩
  | @failed _ failure _ _ _ _ _ answer =>
    rw [answer]
    cases failure <;> exact ⟨rfl, rfl⟩

/-- Whatever was said before, whatever the message is and however many rounds there may be: a message ends
after rounds that account for all that has become of the tree and of the conversation. -/
theorem conversed_drive (hscript : ∀ n reply, script n = .ok reply → ∀ call ∈ reply.toolCalls, call.Proper)
    (a : Answer) (asides : List Answer) (message context : Text) :
    let e := Exchange.ofMessage a.desk.dialogue a.desk.site.rounds message context
    let o := drive (.scripted script) [] a asides (.chat e)
    ∃ rounds, Accounted script a message rounds o.answer ∧
      Ends script a message context o.answer.session.tree rounds o := by
  intro e o
  obtain ⟨rounds, tree, hheld, hends⟩ : ∃ rounds tree, Held script message a.session.tree rounds tree ∧
      Ends script a message context tree rounds o := by
    have hpast := ends_past hscript a asides message context .start (List.forall_mem_nil _)
      (rounds_pos a.desk.site)
    rw [past_nil, afterRounds_nil] at hpast
    exact hpast
  obtain ⟨htree, hdialogue⟩ := hends.tree_dialogue
  rw [← htree] at hheld hends
  refine ⟨rounds, ⟨hheld, hheld.run, hdialogue, ?_⟩, hends⟩
  rw [hdialogue, List.length_append, Round.length_flatMap_turns]

theorem conversed_until_failure :
    let path : Text × Json := ("path", .text "note")
    let replies : List ChatReply := [
      ⟨[], [.named "write" [path, ("content", .text "hello")]], .null⟩,
      ⟨"Let me see.", [.named "read" [path]], .null⟩]
    let script (n : Nat) : Except Failure ChatReply :=
      replies[n]?.elim (.error (.collaborator "gone")) .ok
    let a := (Desk.bare (Session.withoutHistory ⟨[]⟩ "1.0")).silent 0
    let e := Exchange.ofMessage a.desk.dialogue a.desk.site.rounds "take a note" []
    let o := drive (.scripted script) [] a [] (.chat e)
    (∀ n reply, script n = .ok reply → ∀ call ∈ reply.toolCalls, call.Proper) ∧
      (∃ rounds, Accounted script a "take a note" rounds o.answer ∧
        Ends script a "take a note" [] o.answer.session.tree rounds o) ∧
      o.engine.length = 3 ∧ o.answer.desk.dialogue.length = 4 := by
  intro path replies script a e o
  have hproper : ∀ reply ∈ replies, ∀ call ∈ reply.toolCalls, call.Proper := by
    have hnamed (name : Text) (fields : Json.Fields) :
        ∀ call ∈ [ToolCall.named name fields], call.Proper :=
      List.forall_mem_singleton.2 ⟨name, fields, rfl, rfl⟩
    exact List.forall_mem_cons.2 ⟨hnamed _ _, List.forall_mem_singleton.2 (hnamed _ _)⟩
  have hscript : ∀ n reply, script n = .ok reply → ∀ call ∈ reply.toolCalls, call.Proper := by
    intro n reply hreply
    cases hn : replies[n]? with
    | none =>
      have herror : script n = .error (.collaborator "gone") := by simp only [script, hn]; rfl
      rw [herror] at hreply
      cases hreply
    | some found =>
      have hok : script n = .ok found := by simp only [script, hn]; rfl
      obtain rfl := Except.ok.inj (hok.symm.trans hreply)
      exact hproper found (List.mem_of_getElem? hn)
  exact ⟨hscript, conversed_drive hscript a [] "take a note" [], by decide +kernel, by decide +kernel⟩

end Shell

end ThreatDesk
