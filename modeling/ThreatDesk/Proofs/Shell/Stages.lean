import ThreatDesk.Proofs.Shell.Effect

/-!
# What a reply of the engine leads to

An operation goes on to its next stage, ends because something has failed, or stores its files and
completes. Main statement: these are all the ways there are (`resume_cases`); how it ends depends on
whether something was raised (`Resumed.ended`).
-/

namespace ThreatDesk

namespace Shell

open Engine (Failure)
open Answer (Says)

/-! ## What is stored -/

def artifactEntries (artifacts : List Artifact) : List (Text × Text) :=
  (artifacts.filter fun x => Path.isName x.name).map fun x =>
    (Path.join Place.exploits x.name, x.content)

/-- The files that an operation stores when its stage is answered, if it can make them. -/
def stored (clock : Number) :
    (s : Stage) → s.request.Answer → Except Failure (List (Text × Text))
  | .countermeasure g document architecture, code =>
    .ok [(Place.analysis, orUnchanged document g.document),
      (Place.architecture, orUnchanged architecture g.architecture),
      (Place.countermeasure, orUnchanged code g.countermeasure)]
  | .research .., report =>
    .ok ((Place.intelligence, report.report) :: artifactEntries report.artifacts)
  | .browse url, page =>
    match pageText url page clock with
    | .error fault => .error (.fault fault)
    | .ok text => .ok [(Path.join Place.pages (PageName.ofAddress url), text)]
  | .document _, _ | .architecture .., _ | .scan _, _ | .chat _, _ => .ok []

def storeFailure? (t : Tree) (entries : List (Text × Text)) : Option Failure :=
  match t.storeAll entries with
  | .error fault => some (.unusable fault.message)
  | .ok _ => none

/-- What is raised while an operation goes on with a reply: a failure of the engine, of a tool call,
of making the files or of storing them. -/
def failure? (a : Answer) : (s : Stage) → Except Failure s.request.Answer → Option Failure
  | _, .error failure => some failure
  | .chat _, .ok reply =>
    match (Exchange.runCalls a.session.tree reply.toolCalls).2 with
    | .error fault => some (.fault fault)
    | .ok _ => none
  | s, .ok answer =>
    match stored a.desk.host.clock s answer with
    | .error failure => some failure
    | .ok entries => storeFailure? a.session.tree entries

def exchanged (a : Answer) (e : Exchange) (reply : ChatReply) : Answer :=
  let b := a.withTree (Exchange.runCalls a.session.tree reply.toolCalls).1
  { b with desk := { b.desk with dialogue := b.desk.dialogue ++ e.turns reply } }

/-! ## Going on -/

/-- What has come of a reply. -/
inductive Resumed (a : Answer) :
    (s : Stage) → Except Failure s.request.Answer → Answer × Option Stage → Prop
  | failed {s : Stage} {b : Answer} {reply : Except Failure s.request.Answer} {failure : Failure}
    (hf : failure? a s reply = some failure) (hb : a.Says b) :
    Resumed a s reply (abort b s.label failure, none)
  | stored {s : Stage} {b : Answer} {answer : s.request.Answer} {entries : List (Text × Text)}
    {tree : Tree} (he : stored a.desk.host.clock s answer = .ok entries)
    (hs : a.session.tree.storeAll entries = .ok tree) (hf : failure? a s (.ok answer) = none)
    (hb : (a.withTree tree).Says b) : Resumed a s (.ok answer) (complete b, none)
  | advanced {s t : Stage} {b : Answer} {answer : s.request.Answer} {state : ShellState}
    (hf : failure? a s (.ok answer) = none)
    (hs : state.isBusy = true ∨ state = a.session.state) (hb : (inState a state).Says b) :
    Resumed a s (.ok answer) (b, some t)
  | toolFailed {e : Exchange} {reply : ChatReply} {fault : Fault}
    (hf : failure? a (.chat e) (.ok reply) = some (.fault fault)) :
    Resumed a (.chat e) (.ok reply)
      (abort (exchanged a e reply) (Stage.chat e).label (.fault fault), none)
  | again {e f : Exchange} {reply : ChatReply}
    (hf : failure? a (.chat e) (.ok reply) = none) :
    Resumed a (.chat e) (.ok reply) (exchanged a e reply, some (.chat f))
  | answered {e : Exchange} {reply : ChatReply} {b : Answer}
    (hf : failure? a (.chat e) (.ok reply) = none) (hb : (exchanged a e reply).Says b) :
    Resumed a (.chat e) (.ok reply) (complete b, none)

theorem artifactFiles_eq (a : Answer) (artifacts : List Artifact) :
    a.Says (artifactFiles a artifacts).1 ∧
      (artifactFiles a artifacts).2 = artifactEntries artifacts := by
  induction artifacts generalizing a with
  | nil => exact ⟨Says.refl a, rfl⟩
  | cons x artifacts ih =>
    rw [artifactFiles, artifactEntries]
    split
    · next hx =>
      rw [List.filter_cons_of_pos (by exact hx), List.map_cons]
      exact ⟨(ih a).1, congrArg _ (ih a).2⟩
    · next hx =>
      obtain ⟨hs, he⟩ := ih
        (a.system ("WARN: Skipped artifact with invalid name: " ++ x.name.quoted))
      rw [List.filter_cons_of_neg (by exact hx)]
      exact ⟨(Says.say ..).trans hs, he⟩

theorem resumed_storing {a b : Answer} {s : Stage} {answer : s.request.Answer}
    {entries : List (Text × Text)} (hb : a.Says b)
    (he : stored a.desk.host.clock s answer = .ok entries)
    (hf : failure? a s (.ok answer) = storeFailure? a.session.tree entries)
    {next : Answer → Answer} (hn : ∀ c : Answer, c.Says (next c)) :
    Resumed a s (.ok answer) (storing b s.label entries next, none) := by
  unfold storing
  rw [hb.tree]
  unfold storeFailure? at hf
  split
  · next fault hs =>
    rw [hs] at hf
    exact .failed hf hb
  · next tree hs =>
    rw [hs] at hf
    exact .stored he hs hf ((hb.withTree tree).trans (hn _))

theorem failure?_chat (a : Answer) (e : Exchange) (reply : ChatReply) :
    failure? a (.chat e) (.ok reply) =
      match (Exchange.runCalls a.session.tree reply.toolCalls).2 with
      | .error fault => some (.fault fault)
      | .ok _ => none := rfl

theorem continueChat_eq (a : Answer) (e : Exchange) (reply : ChatReply) :
    continueChat a e reply =
      match (Exchange.runCalls a.session.tree reply.toolCalls).2 with
      | .error fault =>
        (abort (exchanged a e reply) (Stage.chat e).label (.fault fault), none)
      | .ok results =>
        match e.next reply results with
        | .again f => (exchanged a e reply, some (.chat f))
        | .done answer =>
          (complete ((exchanged a e reply).output
            (if answer.isEmpty then ("(no response)" : Text) else answer)), none) := rfl

theorem resumed_continueChat (a : Answer) (e : Exchange) (reply : ChatReply) :
    Resumed a (.chat e) (.ok reply) (continueChat a e reply) := by
  have hf := failure?_chat a e reply
  rw [continueChat_eq]
  split
  · next fault hr =>
    rw [hr] at hf
    exact .toolFailed hf
  · next results hr =>
    rw [hr] at hf
    split
    · exact .again hf
    · exact .answered hf (Says.say ..)

theorem resume_cases (a : Answer) (s : Stage) (reply : Except Failure s.request.Answer) :
    Resumed a s reply (resume a s reply) := by
  cases reply with
  | error failure => exact .failed (by cases s <;> rfl) (Says.refl a)
  | ok answer =>
    cases s with
    | document g => exact .advanced rfl (Or.inl rfl) (Says.say ..)
    | architecture g document => exact .advanced rfl (Or.inr rfl) (Says.say ..)
    | countermeasure g document architecture =>
      show Resumed a _ _ (finishAnalysis a g document architecture answer, none)
      unfold finishAnalysis
      refine resumed_storing (s := .countermeasure g document architecture) (Says.refl a) rfl rfl ?_
      intro c
      simp only
      split
      · exact (Says.say ..).then_say ..
      · exact Says.say ..
    | research existing context =>
      obtain ⟨hs, he⟩ := artifactFiles_eq a answer.artifacts
      show Resumed a _ _ (finishResearch a answer, none)
      unfold finishResearch
      simp only
      rw [he]
      refine resumed_storing (s := .research existing context) hs rfl rfl ?_
      intro c
      exact (Says.sayAll ..).then_say ..
    | scan definitions =>
      have hs : a.session.tree.storeAll [] = .ok a.session.tree := rfl
      refine .stored rfl hs rfl ?_
      exact (Says.say a .output "--- SCAN REPORT ---").then_say ..
    | browse url =>
      have hb := (Says.say a .success ("LOADED: " ++ url)).then_say .output answer.content
      show Resumed a _ _ (finishBrowse a url answer, none)
      unfold finishBrowse
      simp only
      split
      · next fault hp =>
        have hp : pageText url answer a.desk.host.clock = .error fault := hp
        refine .failed ?_ hb
        simp only [failure?, stored, hp]
      · next text hp =>
        have hp : pageText url answer a.desk.host.clock = .ok text := hp
        refine resumed_storing (s := .browse url) hb ?_ ?_ fun c => Says.say ..
        · simp only [stored, hp]
        · simp only [failure?, stored, hp]
    | chat e => exact resumed_continueChat a e answer

/-! ## Ending -/

theorem tree_abort (a : Answer) (label : Text) (failure : Failure) :
    (abort a label failure).session.tree = a.session.tree := by
  cases failure <;> rfl

theorem state_abort (a : Answer) (label : Text) (failure : Failure) :
    (abort a label failure).session.state = .idle := by
  cases failure <;> rfl

theorem lastOutcome_abort (a : Answer) (label : Text) (failure : Failure) :
    (abort a label failure).session.lastOutcome = some .error := by
  cases failure <;> rfl

def outcomeOf (raised : Option Failure) : ShellState := if raised.isNone then .complete else .error

theorem Resumed.ended {a b : Answer} {s : Stage} {reply : Except Failure s.request.Answer}
    (h : Resumed a s reply (b, none)) :
    b.session.state = .idle ∧ b.session.lastOutcome = some (outcomeOf (failure? a s reply)) := by
  cases h with
  | failed hf hb =>
    rw [hf]
    exact ⟨state_abort .., lastOutcome_abort ..⟩
  | toolFailed hf =>
    rw [hf]
    exact ⟨state_abort .., lastOutcome_abort ..⟩
  | stored he hs hf hb =>
    rw [hf]
    exact ⟨rfl, rfl⟩
  | answered hf hb =>
    rw [hf]
    exact ⟨rfl, rfl⟩

theorem Resumed.advances {a b : Answer} {s t : Stage} {reply : Except Failure s.request.Answer}
    (h : Resumed a s reply (b, some t)) (ha : a.session.isBusy = true) :
    b.session.isBusy = true ∧ failure? a s reply = none := by
  cases h with
  | advanced hf hs hb =>
    refine ⟨?_, hf⟩
    rw [hb.isBusy]
    rcases hs with hs | hs
    · exact hs
    · rw [hs]
      exact ha
  | again hf => exact ⟨ha, hf⟩

theorem start_cases (a : Answer) (op : Operation) :
    ∃ state : ShellState, state.isBusy = true ∧ (inState a state).Says (start a op).1 := by
  cases op with
  | analyze =>
    refine ⟨.generatingDocs, rfl, ?_⟩
    show Says _ (startAnalysis (inState a .analyzing)).1
    unfold startAnalysis
    simp only
    refine Says.trans (Says.inState (a := inState a .analyzing) ?_ .generatingDocs) (Says.say ..)
    have h := Says.say (inState a .analyzing) .system "INITIATING HEURISTIC ANALYSIS ENGINE..."
    split
    · split
      · exact h
      · exact h.then_say ..
    · split
      · exact h.then_say ..
      · exact (h.then_say ..).then_say ..
  | research =>
    refine ⟨.researching, rfl, ?_⟩
    show Says _ (startResearch (inState a .researching)).1
    unfold startResearch
    simp only
    split
    · exact Says.refl _
    · exact Says.say ..
  | scan => exact ⟨.scanning, rfl, Says.refl _⟩
  | browse url => exact ⟨.browsing, rfl, Says.refl _⟩
  | ask message => exact ⟨.chatting, rfl, Says.refl _⟩

end Shell

end ThreatDesk
