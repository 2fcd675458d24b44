import ThreatDesk.Proofs.Shell.Alike
import ThreatDesk.Proofs.Shell.Times
import ThreatDesk.Shell.Completion

/-!
# The spelling of the working directory

Two sessions that differ only in how the working directory is written go through the same run: the same
lines come in, the same comes back from the engine, and the same happens to the host. Each draws its own
identifiers. One step keeps them alike (`after_alike`), and so does a run. They end with the same tree, and
what they have said is of the same kinds, times and texts but for the lines that show the directory itself,
and the place of a surrogate in a document that holds such lines (`spelling_shown_only`).
-/

namespace ThreatDesk

/-! ## Completions -/

theorem Completion.suggest_respelt {p q : Text} (h : Path.Respells p q) (verbs : List Text)
    (tree : Option Tree) (text : Text) : suggest verbs p tree text = suggest verbs q tree text := by
  have hdirectory (t : Tree) (part : Text) : directoryOf? t p part = directoryOf? t q part := by
    rw [directoryOf?, directoryOf?]
    split
    · exact t.directory?_respelt h
    · next hne => rw [h.resolve_eq (by simpa using hne)]
  unfold suggest ofPath
  simp only [hdirectory]

namespace Shell

open Engine (Failure Request)
open Answer (LeftAlike)

/-! ## Runs -/

inductive HostChange
  | clock (seconds : Number)
  | environment (name : Text) (value : Option Text)
  | put (place : List Text) (entry : HostEntry)
  | remove (place : List Text)

def HostChange.apply (h : Host) : HostChange → Host
  | .clock seconds => { h with clock := seconds }
  | .environment name value => h.setEnv name value
  | .put place entry => h.put place entry
  | .remove place => { h with entries := h.entries.filter fun (p, _) => p ≠ place }

/-- What comes to a floor. A reply is one to any request that the engine may have got. -/
inductive Move
  | host (change : HostChange)
  /-- The clock tells no time. -/
  | refused
  | line (now : Int) (raw : Text)
  | progress (n : Nat) (text : Text)
  | replied (n : Nat) (reply : ∀ request : Request, Except Failure request.Answer)
  | cancelled (n : Nat)

namespace Floor

def goOn (f : Floor) (n : Nat) (next : Pending → Answer × Option Stage) : Floor :=
  match f.pending.drop n with
  | [] => f
  | p :: after => settle (f.pending.take n) after (next p)

def after (f : Floor) : Move → Floor
  | .host change => { f with desk := { f.desk with host := change.apply f.desk.host } }
  | .refused => { f with desk := { f.desk with session := f.desk.session.skipLine } }
  | .line now raw => settle f.pending [] (begin f.desk now raw)
  | .progress n text => f.goOn n fun p => ((p.answer f.desk).system text, some p.stage)
  | .replied n reply => f.goOn n fun p =>
    continued (p.answer f.desk) p.stage (.replied (reply p.stage.request))
  | .cancelled n => f.goOn n fun p => continued (p.answer f.desk) p.stage .cancelled

def run (f : Floor) (moves : List Move) : Floor := moves.foldl after f

theorem goOn_step {hosts : Host → Prop} {f : Floor} {n : Nat} {next : Pending → Answer × Option Stage}
    (h : ∀ before p later, f.pending = before ++ p :: later →
      Step hosts f (settle before later (next p))) :
    f.goOn n next = f ∨ Step hosts f (f.goOn n next) := by
  unfold goOn
  split
  · exact .inl rfl
  · next p later hd =>
    refine .inr (h _ _ _ ?_)
    rw [← hd, List.take_append_drop]

theorem step_after (f : Floor) (m : Move) :
    f.after m = f ∨ Step (fun _ => True) f (f.after m) := by
  obtain ⟨d, pending⟩ := f
  cases m with
  | host change => exact .inr (.host _ trivial)
  | refused => exact .inr (.refused _)
  | line now raw => exact .inr (.line _ now raw)
  | progress n text =>
    refine goOn_step ?_
    rintro before p later rfl
    exact .progress text
  | replied n reply =>
    refine goOn_step ?_
    rintro before p later rfl
    exact .signal (.replied _)
  | cancelled n =>
    refine goOn_step ?_
    rintro before p later rfl
    exact .signal .cancelled

theorem goOn_length {d : Desk} (before later : List Pending) (p : Pending)
    (next : Pending → Answer × Option Stage) :
    goOn ⟨d, before ++ p :: later⟩ before.length next = settle before later (next p) := by
  rw [goOn, List.drop_left, List.take_left]

theorem exists_after {f g : Floor} (h : Step (fun _ => False) f g) : ∃ m, f.after m = g := by
  cases h with
  | host f hh => exact hh.elim
  | refused f => exact ⟨.refused, rfl⟩
  | line f now raw => exact ⟨.line now raw, rfl⟩
  | @progress d before later p text => exact ⟨.progress before.length text, goOn_length ..⟩
  | @signal d before later p signal =>
    cases signal with
    | cancelled => exact ⟨.cancelled before.length, goOn_length ..⟩
    | replied reply =>
      classical
      refine ⟨.replied before.length fun request =>
        if h : p.stage.request = request then h ▸ reply else .error .missingCredential, ?_⟩
      refine (goOn_length ..).trans ?_
      simp only [dite_true]

theorem timed_after {f : Floor} (hf : f.desk.Timed) (m : Move) : (f.after m).desk.Timed := by
  rcases f.step_after m with h | h
  · rwa [h]
  · exact h.timed hf

end Floor

/-! ## Two runs -/

/-- Commands that wait for the same, and have said the same up to the directory. -/
structure Pending.Alike (p q : Pending) : Prop where
  now : p.now = q.now
  said : Line.AllAlike p.said q.said
  stage : p.stage = q.stage

structure Floor.Alike (f g : Floor) : Prop where
  desk : f.desk.Alike g.desk
  pending : List.Forall₂ Pending.Alike f.pending g.pending

theorem HostChange.apply_alike {h k : Host} (hk : h.Alike k) (change : HostChange) :
    (change.apply h).Alike (change.apply k) := by
  cases change with
  | clock seconds => exact { hk with clock := rfl }
  | environment name value =>
    exact { hk with environment := by simp only [apply, Host.setEnv, hk.environment] }
  | put place entry => exact hk.put (.refl place entry)
  | remove place =>
    refine { hk with entries := List.rel_filter ?_ hk.entries }
    intro x y hxy
    exact iff_of_eq (congrArg (fun p => decide (p ≠ place) = true) hxy.1)

theorem Pending.Alike.answer {p q : Pending} (h : p.Alike q) {d e : Desk} (hd : d.Alike e) :
    (p.answer d).Alike (q.answer e) :=
  ⟨hd, h.now, h.said⟩

namespace Floor

theorem settle_alike {before before' later later' : List Pending}
    (hb : List.Forall₂ Pending.Alike before before') (hl : List.Forall₂ Pending.Alike later later')
    {r s : Answer × Option Stage} (h : LeftAlike r s) :
    (settle before later r).Alike (settle before' later' s) := by
  obtain ⟨a, stage⟩ := r
  obtain ⟨b, stage'⟩ := s
  obtain ⟨ha, hs⟩ := h
  obtain rfl : stage = stage' := hs
  cases stage with
  | none => exact ⟨ha.desk, List.rel_append hb hl⟩
  | some stage => exact ⟨ha.desk, List.rel_append hb (.cons ⟨ha.now, ha.said, rfl⟩ hl)⟩

variable {f g : Floor}

theorem goOn_alike (h : f.Alike g) (n : Nat) {next next' : Pending → Answer × Option Stage}
    (hn : ∀ p q : Pending, p.Alike q → LeftAlike (next p) (next' q)) :
    (f.goOn n next).Alike (g.goOn n next') := by
  have hrest := List.forall₂_drop n h.pending
  rw [goOn, goOn]
  generalize f.pending.drop n = ps at hrest ⊢
  generalize g.pending.drop n = qs at hrest ⊢
  cases hrest with
  | nil => exact h
  | cons hpq hl => exact settle_alike (List.forall₂_take n h.pending) hl (hn _ _ hpq)

/-- Whatever comes, floors that are alike stay alike. -/
theorem after_alike (h : f.Alike g) (hf : f.desk.Timed) (m : Move) : (f.after m).Alike (g.after m) := by
  cases m with
  | host change =>
    exact { h with desk := { h.desk with host := HostChange.apply_alike h.desk.host change } }
  | refused =>
    have hs := h.desk.session
    exact { h with desk := { h.desk with session := { hs with } } }
  | line now raw => exact settle_alike h.pending .nil (begin_alike h.desk hf now raw)
  | progress n text =>
    exact goOn_alike h n fun p q hpq =>
      ⟨(hpq.answer h.desk).say .system text, congrArg some hpq.stage⟩
  | replied n reply =>
    refine goOn_alike h n fun p q hpq => ?_
    -- Both wait with the same request, so that one reply is a reply to either.
    rw [← hpq.stage]
    exact continued_alike (hpq.answer h.desk) p.stage (.replied (reply p.stage.request))
  | cancelled n =>
    refine goOn_alike h n fun p q hpq => ?_
    rw [← hpq.stage]
    exact continued_alike (hpq.answer h.desk) p.stage .cancelled

theorem run_alike (h : f.Alike g) (hf : f.desk.Timed) (moves : List Move) :
    (f.run moves).Alike (g.run moves) := by
  induction moves generalizing f g with
  | nil => exact h
  | cons m moves ih => exact ih (after_alike h hf m) (timed_after hf m)

end Floor

/-! ## The same session in two directories -/

/-- The desk with its session in the directory that is written that way, and with that to draw from. -/
def within (d : Desk) (cwd : Text) (drawn : Nat → Nat) : Desk :=
  { d with session := { d.session with cwd := cwd, drawn := drawn } }

theorem within_alike (d : Desk) {p q : Text} (h : Path.Respells p q) (drawn drawn' : Nat → Nat) :
    (within d p drawn).Alike (within d q drawn') where
  site := rfl
  session := ⟨rfl, Line.AllAlike.refl _, h, rfl, rfl, rfl, rfl, rfl, Line.AllAlike.refl _⟩
  dialogue := rfl
  host := Host.Alike.refl _

/-- Whatever comes to two sessions that are the same but for how their working directory is written, and
whatever they draw for the identifiers of their lines, it leads to the same: lines of the same kinds and
times, with texts that differ in nothing but the spelling of the directory where `status` and a failed
`mkdir` show it, and the place of a surrogate where an export fails for it; the same tree, version and
requests to the engine, the same directory, and the same completions. -/
theorem spelling_shown_only {d : Desk} (hd : d.Timed) {p q : Text} (h : Path.Respells p q)
    (drawn drawn' : Nat → Nat) (pending : List Pending) (moves : List Move) :
    let f := Floor.run ⟨within d p drawn, pending⟩ moves
    let g := Floor.run ⟨within d q drawn', pending⟩ moves
    let s := f.desk.session
    let t := g.desk.session
    List.Forall₂ Line.Respells s.told t.told ∧ List.Forall₂ Line.Respells s.lines t.lines ∧
      s.tree = t.tree ∧ s.version = t.version ∧ s.state = t.state ∧ Path.Respells s.cwd t.cwd ∧
      f.pending.map Pending.stage = g.pending.map Pending.stage ∧
      ∀ verbs text, Completion.suggest verbs s.cwd (some s.tree) text =
        Completion.suggest verbs t.cwd (some t.tree) text := by
  intro f g s t
  have hstart : Floor.Alike ⟨within d p drawn, pending⟩ ⟨within d q drawn', pending⟩ :=
    ⟨within_alike d h drawn drawn', List.forall₂_same.2 fun _ _ => ⟨rfl, Line.AllAlike.refl _, rfl⟩⟩
  have hend : f.Alike g := Floor.run_alike hstart hd moves
  have hs : s.Alike t := hend.desk.session
  refine ⟨hs.told.respells, hs.lines.respells, hs.tree, hs.version, hs.state, hs.cwd,
    map_eq_of_forall₂ (fun _ _ hpq => hpq.stage) hend.pending, ?_⟩
  intro verbs text
  rw [hs.tree]
  exact Completion.suggest_respelt hs.cwd verbs (some t.tree) text

theorem spelling_shown_only_docs :
    let d := Desk.bare (Session.withoutHistory ⟨[Node.newDirectory "docs" []]⟩ "1.0.0")
    let moves : List Move :=
      [.line 0 "status", .line 1 "mkdir x", .line 2 "cd ../docs/x", .line 3 "write a.md text"]
    let f := Floor.run ⟨within d "/docs" id, []⟩ moves
    let g := Floor.run ⟨within d "//docs/" (· + 9), []⟩ moves
    d.Timed ∧ Path.Respells "/docs" "//docs/" ∧
      ("CWD: /docs" : Text) ∈ f.desk.session.told.map Line.text ∧
      ("CWD: //docs/" : Text) ∈ g.desk.session.told.map Line.text ∧
      f.desk.session.told.head?.map Line.id = some "00000001" ∧
      g.desk.session.told.head?.map Line.id = some "0000000a" ∧
      List.Forall₂ Line.Respells f.desk.session.told g.desk.session.told ∧
      f.desk.session.tree = g.desk.session.tree ∧
      g.desk.session.cwd = "/docs/x" ∧
      (g.desk.session.tree.file? "/docs/x/a.md").map File.text = some "text" ∧
      Completion.suggest Verb.names f.desk.session.cwd (some f.desk.session.tree) "cat a" =
        Completion.suggest Verb.names g.desk.session.cwd (some g.desk.session.tree) "cat a" := by
  have hspelt : Path.Respells "/docs" "//docs/" := ⟨rfl, rfl, by decide⟩
  have hd : (Desk.bare (Session.withoutHistory ⟨[Node.newDirectory "docs" []]⟩ "1.0.0")).Timed :=
    List.forall_mem_nil _
  have h := spelling_shown_only hd hspelt id (· + 9) []
  refine ⟨hd, hspelt, ?_, ?_, ?_, ?_, (h _).1, (h _).2.2.1, ?_, ?_,
    (h _).2.2.2.2.2.2.2 Verb.names "cat a"⟩
  all_goals decide +kernel

/-- Where the working directory is gone, `mkdir` shows it as it is written; and the longer it is written in
a history, the later in the document is a surrogate behind it, to which an export objects. -/
theorem spelling_shown :
    let d := Desk.bare (Session.withoutHistory ⟨[]⟩ "1.0.0")
    let told (cwd : Text) (moves : List Move) :=
      (Floor.run ⟨within d cwd id, []⟩ moves).desk.session.told.map Line.text
    let surrogate : CodePoint := ⟨0xD800, by decide⟩
    let making : List Move := [.line 0 "mkdir x"]
    let exporting : List Move := [.line 0 "status", .line 0 [surrogate], .line 0 "export"]
    let objection (position : Nat) : Text :=
      "CRITICAL ERROR: " ++ Encoding.EncodeFault.message ⟨position, 1, surrogate⟩
    Path.Respells "/gone" "//gone" ∧
      told "/gone" making = ["mkdir x", "mkdir: no such directory: /gone"] ∧
      told "//gone" making = ["mkdir x", "mkdir: no such directory: //gone"] ∧
      (told "/gone" exporting).getLast? = some (objection 802) ∧
      (told "//gone" exporting).getLast? = some (objection 803) ∧ objection 802 ≠ objection 803 := by
  refine ⟨⟨rfl, rfl, by decide⟩, ?_, ?_, ?_, ?_, ?_⟩
  all_goals decide +kernel

end Shell

end ThreatDesk
