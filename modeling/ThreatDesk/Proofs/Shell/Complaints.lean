import ThreatDesk.Proofs.Shell.Keeping

/-!
# What a verb never answers

A word that is no verb is complained about. No verb answers with the complaint about its own name, whatever
the engine sends back: the errors of the commands start otherwise, and a report of a scan is an error only
for a word that is in the name of no verb. Main statement: `knows_executeAt`.
-/

namespace ThreatDesk

open Engine (Failure)

def Shell.unknownCommand (word : Text) : Text := "Unknown command: " ++ word

/-- No error that has been said is the complaint about the word. -/
def Answer.Knows (word : Text) (a : Answer) : Prop :=
  ∀ l ∈ a.said, l.kind = .error → l.text ≠ Shell.unknownCommand word

namespace Shell

variable {a b : Answer} {word : Text}

def StartsOtherwise (t : Text) : Prop := 2 ≤ t.length ∧ t.take 2 ≠ "Un"

instance (t : Text) : Decidable (StartsOtherwise t) :=
  inferInstanceAs (Decidable (_ ∧ _))

theorem append_ne_unknownCommand {label : Text} (h : StartsOtherwise label) (rest word : Text) :
    label ++ rest ≠ unknownCommand word := by
  intro heq
  have htake := congrArg (List.take 2) heq
  rw [List.take_append_of_le_length h.1] at htake
  exact h.2 htake

theorem ne_unknownCommand {text : Text} (h : StartsOtherwise text) (word : Text) :
    text ≠ unknownCommand word := by
  have := append_ne_unknownCommand h [] word
  rwa [List.append_nil] at this

/-! ## Saying one thing more -/

theorem knows_say {kind : LineKind} {text : Text} :
    (a.say kind text).Knows word ↔
      a.Knows word ∧ (kind = .error → text ≠ unknownCommand word) := by
  unfold Answer.Knows
  rw [Answer.say, List.forall_mem_append, List.forall_mem_singleton]
  exact Iff.rfl

@[simp] theorem knows_error {text : Text} :
    (a.error text).Knows word ↔ a.Knows word ∧ text ≠ unknownCommand word := by
  simp [Answer.error, knows_say]

@[simp] theorem knows_output {text : Text} : (a.output text).Knows word ↔ a.Knows word := by
  simp [Answer.output, knows_say]

@[simp] theorem knows_system {text : Text} : (a.system text).Knows word ↔ a.Knows word := by
  simp [Answer.system, knows_say]

@[simp] theorem knows_success {text : Text} : (a.success text).Knows word ↔ a.Knows word := by
  simp [Answer.success, knows_say]

@[simp] theorem knows_withSession {change : Session → Session} :
    (a.withSession change).Knows word ↔ a.Knows word := Iff.rfl

@[simp] theorem knows_withTree {tree : Tree} : (a.withTree tree).Knows word ↔ a.Knows word := Iff.rfl

@[simp] theorem knows_withHost {host : Host} : (a.withHost host).Knows word ↔ a.Knows word := Iff.rfl

@[simp] theorem knows_inState {state : ShellState} : (inState a state).Knows word ↔ a.Knows word :=
  Iff.rfl

theorem knows_withDesk {desk : Desk} : Answer.Knows word { a with desk } ↔ a.Knows word := Iff.rfl

theorem knows_sayAll {kind : LineKind} (h : kind ≠ .error) {texts : List Text} :
    (a.sayAll kind texts).Knows word ↔ a.Knows word := by
  unfold Answer.sayAll
  induction texts generalizing a with
  | nil => rfl
  | cons t texts ih => exact ih.trans (by simp [knows_say, h])

@[simp] theorem knows_fail {fault : Fault} : (a.fail fault).Knows word ↔ a.Knows word := by
  simp (disch := decide) [Answer.fail, append_ne_unknownCommand]

@[simp] theorem knows_usage {form : Text} : (usage a form).Knows word ↔ a.Knows word := by
  simp (disch := decide) [usage, append_ne_unknownCommand]

/-! ## Short commands -/

theorem knows_report {label : Text} (hl : StartsOtherwise label) {fault : Fault} :
    (report a label fault).Knows word ↔ a.Knows word := by
  unfold report
  split <;> simp [append_ne_unknownCommand hl]

theorem knows_status (ha : a.Knows word) : (status a).Knows word := by
  unfold status
  simp only
  split
  · simpa (disch := decide) [knows_sayAll] using ha
  · split <;> simpa (disch := decide) [knows_sayAll] using ha

theorem knows_setKey (ha : a.Knows word) (args : List Text) : (setKey a args).Knows word := by
  cases args with
  | nil => simpa [setKey] using ha
  | cons key args =>
    rw [setKey]
    split
    · simpa using ha
    · split <;> simpa (disch := decide) [append_ne_unknownCommand] using ha

theorem knows_list (ha : a.Knows word) (args : List Text) : (list a args).Knows word := by
  unfold list
  simp only
  split <;> simpa (disch := decide) [knows_sayAll, ne_unknownCommand] using ha

theorem knows_changeDirectory (ha : a.Knows word) (args : List Text) :
    (changeDirectory a args).Knows word := by
  cases args with
  | nil => exact ha
  | cons target args =>
    rw [changeDirectory]
    split <;> simpa (disch := decide) [append_ne_unknownCommand] using ha

theorem knows_makeDirectory (ha : a.Knows word) (args : List Text) :
    (makeDirectory a args).Knows word := by
  cases args with
  | nil => simpa [makeDirectory] using ha
  | cons name args =>
    rw [makeDirectory]
    split
    · simpa (disch := decide) [append_ne_unknownCommand] using ha
    · split
      · simpa (disch := decide) [append_ne_unknownCommand] using ha
      · split <;> simpa (disch := decide) [append_ne_unknownCommand] using ha

theorem knows_read (ha : a.Knows word) (args : List Text) : (read a args).Knows word := by
  cases args with
  | nil => simpa [read] using ha
  | cons target args =>
    rw [read]
    split <;> simpa (disch := decide) [append_ne_unknownCommand] using ha

theorem knows_write (ha : a.Knows word) (raw : Text) (args : List Text) :
    (write a raw args).Knows word := by
  cases args with
  | nil => simpa [write] using ha
  | cons target args =>
    rw [write]
    split <;> simpa (disch := decide) [append_ne_unknownCommand] using ha

theorem knows_find (ha : a.Knows word) (args : List Text) : (find a args).Knows word := by
  cases args with
  | nil => simpa [find] using ha
  | cons needle args =>
    rw [find]
    split <;> simpa (disch := decide) [knows_sayAll] using ha

theorem knows_run (ha : a.Knows word) (args : List Text) : (run a args).Knows word := by
  cases args with
  | nil => simpa [run] using ha
  | cons target args =>
    rw [run]
    split
    · simpa (disch := decide) [append_ne_unknownCommand] using ha
    · split <;> simpa (disch := decide) [knows_sayAll, append_ne_unknownCommand] using ha

theorem knows_exportSession (ha : a.Knows word) : (exportSession a).Knows word := by
  have hl : StartsOtherwise exportLabel := by decide
  unfold exportSession
  split
  · exact (knows_report hl).2 ha
  · split
    · exact (knows_report hl).2 ha
    · simpa using ha

theorem knows_load (ha : a.Knows word) (args : List Text) : (load a args).Knows word := by
  have hl : StartsOtherwise loadLabel := by decide
  unfold load
  split
  · simpa (disch := decide) [ne_unknownCommand] using ha
  · split
    · simpa using ha
    · simpa [append_ne_unknownCommand hl] using ha
    · unfold loadNamed
      split
      · exact (knows_report hl).2 ha
      · split
        · simpa using ha
        · exact (knows_sayAll (by decide)).2 (knows_withDesk.2 ha)

/-! ## Operations -/

theorem knows_start (ha : a.Knows word) (op : Operation) : (start a op).1.Knows word := by
  cases op with
  | analyze =>
    simp only [start, startAnalysis]
    split <;> split <;> simpa using ha
  | research =>
    simp only [start, startResearch]
    split <;> simpa using ha
  | scan => exact ha
  | browse url => exact ha
  | ask message => exact ha

theorem knows_startUnlessBusy (ha : a.Knows word) (op : Operation) :
    (startUnlessBusy a op).1.Knows word := by
  unfold startUnlessBusy
  split
  · simpa (disch := decide) [ne_unknownCommand] using ha
  · exact knows_start ha op

theorem knows_perform (ha : a.Knows word) (verb : Verb) (args : List Text) (raw : Text) :
    (perform a verb args raw).1.Knows word := by
  cases verb with
  | help => exact knows_output.2 ha
  | about => exact knows_system.2 ha
  | version =>
    simp only [perform, version]
    split <;> simpa using ha
  | clear => exact ha
  | ls => exact knows_list ha args
  | cd => exact knows_changeDirectory ha args
  | mkdir => exact knows_makeDirectory ha args
  | cat => exact knows_read ha args
  | write => exact knows_write ha raw args
  | find => exact knows_find ha args
  | status => exact knows_status ha
  | setkey => exact knows_setKey ha args
  | run => exact knows_run ha args
  | analyze => exact knows_startUnlessBusy ha .analyze
  | research => exact knows_startUnlessBusy ha .research
  | scan => exact knows_startUnlessBusy ha .scan
  | browse =>
    cases args with
    | nil => exact knows_usage.2 ha
    | cons url args => exact knows_startUnlessBusy ha (.browse url)
  | ask =>
    cases args with
    | nil => exact knows_usage.2 ha
    | cons first args => exact knows_startUnlessBusy ha (.ask (raw.argument 1))
  | exportSession => exact knows_exportSession ha
  | load => exact knows_load ha args

theorem knows_abort {label : Text} (hl : StartsOtherwise label) (ha : a.Knows word)
    (failure : Failure) : (abort a label failure).Knows word := by
  cases failure with
  | missingCredential => simpa (disch := decide) [abort, finish, ne_unknownCommand] using ha
  | fault fault => simpa [abort, finish] using ha
  | _ => simpa [abort, finish, append_ne_unknownCommand hl] using ha

theorem knows_storing {label : Text} (hl : StartsOtherwise label) (ha : a.Knows word)
    (entries : List (Text × Text)) {next : Answer → Answer}
    (hnext : ∀ b, b.Knows word → (next b).Knows word) : (storing a label entries next).Knows word := by
  unfold storing
  split
  · exact knows_abort hl ha _
  · exact hnext _ ha

theorem knows_artifactFiles (ha : a.Knows word) (artifacts : List Artifact) :
    (artifactFiles a artifacts).1.Knows word := by
  induction artifacts generalizing a with
  | nil => exact ha
  | cons artifact artifacts ih =>
    rw [artifactFiles]
    split
    · exact ih ha
    · exact ih (knows_system.2 ha)

theorem startsOtherwise_label (s : Stage) : StartsOtherwise s.label := by
  cases s <;> simp only [Stage.label] <;> decide

theorem knows_finishScan (hw : Text.occurs "VULNERABLE" (unknownCommand word) = false)
    (ha : a.Knows word) (report : Text) : (finishScan a report).Knows word := by
  have herror : (if Text.occurs "VULNERABLE" report then LineKind.error else .success) = .error →
      report ≠ unknownCommand word := by
    rintro hk rfl
    rw [hw] at hk
    cases hk
  exact knows_say.2 ⟨knows_output.2 ha, herror⟩

theorem knows_continueChat (ha : a.Knows word) (e : Exchange) (reply : ChatReply) :
    (continueChat a e reply).1.Knows word := by
  unfold continueChat
  simp only
  split
  · refine knows_abort (startsOtherwise_label _) ?_ _
    exact ha
  · split
    · exact ha
    · exact knows_output.2 ha

theorem knows_resume (hw : Text.occurs "VULNERABLE" (unknownCommand word) = false)
    (ha : a.Knows word) (s : Stage) (reply : Except Failure s.request.Answer) :
    (resume a s reply).1.Knows word := by
  cases reply with
  | error failure => exact knows_abort (startsOtherwise_label s) ha failure
  | ok answer =>
    cases s with
    | document g => exact knows_system.2 ha
    | architecture g document => exact knows_system.2 ha
    | countermeasure g document architecture =>
      refine knows_storing (by decide) ha _ fun b hb => ?_
      simp only
      split <;> simpa using hb
    | research existing context =>
      refine knows_storing (by decide) (knows_artifactFiles ha _) _ fun b hb => ?_
      simpa (disch := decide) [knows_sayAll] using hb
    | scan definitions => exact knows_finishScan hw ha answer
    | browse url =>
      have hpage : ((a.success ("LOADED: " ++ url)).output answer.content).Knows word := by
        simpa using ha
      show (finishBrowse a url answer).Knows word
      unfold finishBrowse
      simp only
      split
      · exact knows_abort (by decide) hpage _
      · exact knows_storing (by decide) hpage _ fun b hb => knows_system.2 hb
    | chat e => exact knows_continueChat ha e answer

/-! ## Lines that are seen through -/

theorem knows_meanwhile (ha : a.Knows word) (asides : List Answer) (interludes : List Interlude) :
    (meanwhile a asides interludes).1.Knows word := by
  induction interludes generalizing a asides with
  | nil => exact ha
  | cons interlude rest ih =>
    cases interlude with
    | progress text => exact ih (knows_system.2 ha) asides
    | line raw => exact ih (knows_withDesk.2 ha) _

variable {σ : Type}

theorem knows_drive (hw : Text.occurs "VULNERABLE" (unknownCommand word) = false)
    (engine : Engine σ) (state : σ) {a : Answer} (ha : a.Knows word) (asides : List Answer) (s : Stage) :
    (drive engine state a asides s).answer.Knows word := by
  have hresumed := knows_resume hw
    (knows_meanwhile ha asides (engine.attend state a.desk.host s.request).interludes) s
    (engine.attend state a.desk.host s.request).reply
  rw [drive_stage]
  simp only
  split
  · next b hb =>
    rw [hb] at hresumed
    exact hresumed
  · next b t hb =>
    have hlt : t.rank < s.rank := rank_resume (congrArg Prod.snd hb)
    rw [hb] at hresumed
    exact knows_drive hw engine _ hresumed _ t
termination_by s.rank

theorem harmless_name (verb : Verb) :
    Text.occurs "VULNERABLE" (unknownCommand verb.name) = false := by
  cases verb <;> decide +kernel

/-- A line with a verb is never answered with the complaint that it is none. -/
theorem knows_executeAt {raw : Text} {verb : Verb} (h : verb? raw = some verb) (engine : Engine σ)
    (state : σ) (d : Desk) (now : Int) :
    (executeAt engine state d now raw).answer.Knows verb.name := by
  have hecho : (echo d now raw).Knows verb.name :=
    List.forall_mem_singleton.2 nofun
  have hbegun := knows_perform hecho verb raw.words.tail raw
  rw [← begin_of_verb? h] at hbegun
  unfold executeAt
  split
  · next b hb =>
    rw [hb] at hbegun
    exact hbegun
  · next b s hb =>
    rw [hb] at hbegun
    exact knows_drive (harmless_name verb) engine state hbegun [] s

end Shell

end ThreatDesk
