import ThreatDesk.Proofs.Shell.Loading
import ThreatDesk.Proofs.Shell.Runs
import ThreatDesk.Proofs.Tree.Growth

/-!
# Nothing is lost but by a load

The tree grows with every step that is not a load which finds a snapshot, whoever takes the step: a line,
an engine's reply or a tool call. Lines that only look, and those whose change is turned away, leave the
tree as it is. Main statement: `kept_until_loaded`.
-/

namespace ThreatDesk

namespace Shell

open Engine (Failure)
open Answer (Says)
open Container (Extends Grows)

/-! ## Lines that leave the tree as it is -/

def verb? (raw : Text) : Option Verb :=
  match raw.words with
  | [] => none
  | word :: _ => Verb.ofText? word.lower

theorem begin_of_verb? {raw : Text} {v : Verb} (h : verb? raw = some v) (d : Desk) (now : Int) :
    begin d now raw = perform (echo d now raw) v raw.words.tail raw := by
  unfold verb? at h
  split at h
  · exact absurd h (by simp)
  · next word args hw =>
    rw [begin_of_words hw, h, hw]
    rfl

theorem says_begin {raw : Text} (h : verb? raw = none) (d : Desk) (now : Int) :
    (echo d now raw).Says (begin d now raw).1 := by
  unfold verb? at h
  split at h
  · next hw =>
    unfold begin
    simp only [hw]
    exact Says.refl _
  · next word args hw =>
    rw [begin_of_words hw, h]
    exact Says.say ..

theorem tree_startUnlessBusy (a : Answer) (op : Operation) :
    (startUnlessBusy a op).1.session.tree = a.session.tree := by
  obtain ⟨state, -, h⟩ := start_cases a op
  unfold startUnlessBusy
  split
  · rfl
  · exact h.tree

theorem tree_changeDirectory (a : Answer) (args : List Text) :
    (changeDirectory a args).session.tree = a.session.tree := by
  unfold changeDirectory
  split
  · rfl
  · simp only
    split <;> rfl

theorem tree_read (a : Answer) (args : List Text) :
    (read a args).session.tree = a.session.tree := by
  unfold read
  split
  · rfl
  · split <;> rfl

theorem tree_setKey (a : Answer) (args : List Text) :
    (setKey a args).session.tree = a.session.tree := by
  unfold setKey
  split
  · rfl
  · split
    · rfl
    · simp only
      split <;> rfl

theorem tree_exportSession (a : Answer) : (exportSession a).session.tree = a.session.tree := by
  have hends := export_cases a
  generalize exportSession a = b at hends
  cases hends with
  | unmade he => exact (says_report ..).tree
  | unwritten he hw => exact (says_report ..).tree
  | written he hw => rfl

/-- An operation that is only begun has not changed the tree either. -/
theorem tree_perform {v : Verb} (hv : v ≠ .mkdir ∧ v ≠ .write ∧ v ≠ .load) (a : Answer)
    (args : List Text) (raw : Text) : (perform a v args raw).1.session.tree = a.session.tree := by
  cases v with
  | help => rfl
  | about => rfl
  | version => exact (says_version a).tree
  | clear => rfl
  | ls => exact (says_list a args).tree
  | cd => exact tree_changeDirectory a args
  | mkdir => exact absurd rfl hv.1
  | cat => exact tree_read a args
  | write => exact absurd rfl hv.2.1
  | find => exact (says_find a args).tree
  | status => exact (says_status a).tree
  | setkey => exact tree_setKey a args
  | run => exact (says_run a args).tree
  | analyze => exact tree_startUnlessBusy a .analyze
  | research => exact tree_startUnlessBusy a .research
  | scan => exact tree_startUnlessBusy a .scan
  | browse =>
    cases args with
    | nil => rfl
    | cons url args => exact tree_startUnlessBusy a (.browse url)
  | ask =>
    cases args with
    | nil => rfl
    | cons word args => exact tree_startUnlessBusy a (.ask (raw.argument 1))
  | exportSession => exact tree_exportSession a
  | load => exact absurd rfl hv.2.2

theorem makeDirectory_cases (a : Answer) (args : List Text) :
    (makeDirectory a args).session.tree = a.session.tree ∨
      ∃ name text, makeDirectory a args =
        (a.withTree (a.session.tree.makeDirectory a.session.cwd name)).success text := by
  cases args with
  | nil => exact Or.inl rfl
  | cons name args =>
    rw [makeDirectory]
    split
    · exact Or.inl rfl
    · split
      · exact Or.inl rfl
      · split
        · exact Or.inl rfl
        · exact Or.inr ⟨name, _, rfl⟩

theorem write_cases (a : Answer) (raw : Text) (args : List Text) :
    (write a raw args).session.tree = a.session.tree ∨
      ∃ path content text, write a raw args =
        (a.withTree (a.session.tree.write path content).1).success text := by
  cases args with
  | nil => exact Or.inl rfl
  | cons word args =>
    rw [write]
    split
    · next tree hw =>
      refine Or.inr ⟨resolved a word, raw.argument 2, "Wrote: " ++ resolved a word, ?_⟩
      rw [hw]
    · exact Or.inl rfl
    · exact Or.inl rfl
    · exact Or.inl rfl

theorem not_success {a b : Answer} {text : Text} (h : b = a.success text) :
    ¬ ∀ l ∈ b.said, l.kind ≠ .success := by
  obtain rfl := h
  exact fun hs => hs _ (List.mem_append_right _ (List.mem_singleton_self _)) rfl

theorem tree_run {t : Tree} {call : ToolCall}
    (h : ∀ target, (call.run t).2 ≠ .ok (TreeTool.report target .written)) :
    (call.run t).1 = t := by
  unfold ToolCall.run at h ⊢
  cases hname : call.name.atom? with
  | none => rfl
  | some name =>
    simp only [hname] at h ⊢
    cases htool : name.text?.bind TreeTool.ofName? with
    | none => rfl
    | some tool =>
      simp only [htool, TreeTool.call] at h ⊢
      rcases haccept : tool.accept call.input with fault | mismatch | fields
      · rfl
      · rfl
      · simp only [haccept] at h ⊢
        cases tool with
        | list => rfl
        | read => rfl
        | write =>
          simp only [TreeTool.apply, TreeTool.writing, Tree.write_eq] at h ⊢
          split
          · next hw =>
            rw [hw] at h
            exact absurd rfl (h _)
          · rfl

/-! ## Lines and replies under which it grows -/

theorem grows_of_tree {a b : Answer} (h : b.session.tree = a.session.tree) :
    Grows a.session.tree.root b.session.tree.root := by
  rw [h]
  exact Extends.refl _ _

theorem grows_mkdir (a : Answer) (args : List Text) :
    Grows a.session.tree.root (makeDirectory a args).session.tree.root := by
  rcases makeDirectory_cases a args with h | ⟨name, text, h⟩
  · exact grows_of_tree h
  · rw [h]
    exact Tree.grows_makeDirectory ..

theorem grows_write (a : Answer) (raw : Text) (args : List Text) :
    Grows a.session.tree.root (write a raw args).session.tree.root := by
  rcases write_cases a raw args with h | ⟨path, content, text, h⟩
  · exact grows_of_tree h
  · rw [h]
    exact Tree.grows_write ..

/-- Whether a line puts a snapshot in place of the session of that desk. -/
def Loads (d : Desk) (raw : Text) : Prop :=
  d.session.isBusy = false ∧ isLoad raw = true ∧
    ∃ name snapshot tree, Loadable d raw.words.tail name snapshot tree

theorem isLoad_of_verb? {raw : Text} (h : verb? raw = some .load) : isLoad raw = true := by
  unfold verb? at h
  split at h
  · exact absurd h (by simp)
  · next word args hw =>
    rw [isLoad, hw]
    exact decide_eq_true h

theorem grows_begin {d : Desk} {raw : Text} (h : ¬ Loads d raw) (now : Int) :
    Grows d.session.tree.root (begin d now raw).1.session.tree.root := by
  cases hv : verb? raw with
  | none => exact grows_of_tree (says_begin hv d now).tree
  | some v =>
    rw [begin_of_verb? hv]
    by_cases hload : v = .load
    · obtain rfl := hload
      have hl := isLoad_of_verb? hv
      show Grows _ (load (echo d now raw) raw.words.tail).session.tree.root
      cases hb : d.session.isBusy with
      | true =>
        have he : (echo d now raw).session.isBusy = true := hb
        rw [load, if_pos he]
        exact Extends.refl _ _
      | false =>
        have hends := load_cases (a := echo d now raw) hb raw.words.tail
        generalize load (echo d now raw) raw.words.tail = b at hends
        cases hends with
        | refused hn text => exact Extends.refl _ _
        | loaded hs => exact absurd ⟨hb, hl, _, _, _, hs.named, hs.read, hs.completed⟩ h
    · by_cases hmkdir : v = .mkdir
      · obtain rfl := hmkdir
        exact grows_mkdir (echo d now raw) raw.words.tail
      · by_cases hwrite : v = .write
        · obtain rfl := hwrite
          exact grows_write (echo d now raw) raw raw.words.tail
        · exact grows_of_tree (a := echo d now raw) (tree_perform ⟨hmkdir, hwrite, hload⟩ ..)

theorem grows_run (t : Tree) (call : ToolCall) : Grows t.root (call.run t).1.root := by
  unfold ToolCall.run
  split
  · exact Extends.refl _ _
  · split
    · exact Extends.refl _ _
    · next tool ht =>
      unfold TreeTool.call
      split
      · exact Extends.refl _ _
      · exact Extends.refl _ _
      · cases tool with
        | list => exact Extends.refl _ _
        | read => exact Extends.refl _ _
        | write => exact Tree.grows_write t _ _

theorem grows_runCalls (t : Tree) (calls : List ToolCall) :
    Grows t.root (Exchange.runCalls t calls).1.root := by
  induction calls generalizing t with
  | nil => exact Extends.refl _ _
  | cons call calls ih =>
    have hrun := grows_run t call
    rw [Exchange.runCalls]
    split
    · next u fault hu =>
      rw [hu] at hrun
      exact hrun
    · next u result hu =>
      rw [hu] at hrun
      exact hrun.trans (ih u)

theorem grows_resume (a : Answer) (s : Stage) (reply : Except Failure s.request.Answer) :
    Grows a.session.tree.root (resume a s reply).1.session.tree.root := by
  have hr := resume_cases a s reply
  generalize resume a s reply = r at hr
  cases hr with
  | failed hf hb => exact grows_of_tree ((tree_abort ..).trans hb.tree)
  | stored he hs hf hb =>
    have htree := hb.tree
    rcases Tree.storeAll_cases (apart_of_stored he) with
      ⟨e, -, fault, -, herror⟩ | ⟨-, u, hu, hstored⟩
    · exact absurd (hs.symm.trans herror) (by simp)
    · obtain rfl := Except.ok.inj (hs.symm.trans hu)
      show Grows _ (Answer.session _).tree.root
      rw [show (complete _).session.tree = _ from htree]
      exact hstored.grows.mono fun _ _ _ => trivial
  | advanced hf hs hb => exact grows_of_tree hb.tree
  | toolFailed hf =>
    show Grows _ (abort _ _ _).session.tree.root
    rw [tree_abort]
    exact grows_runCalls ..
  | again hf => exact grows_runCalls ..
  | answered hf hb =>
    show Grows _ (complete _).session.tree.root
    rw [show (complete _).session.tree = _ from hb.tree]
    exact grows_runCalls ..

namespace Floor

def StepWithoutLoad (hosts : Host → Prop) (f g : Floor) : Prop :=
  Step hosts f g ∧
    ¬ ∃ now raw, Loads f.desk raw ∧ g = settle f.pending [] (begin f.desk now raw)

variable {hosts : Host → Prop} {f g : Floor}

theorem StepWithoutLoad.grows (h : StepWithoutLoad hosts f g) :
    Grows f.desk.session.tree.root g.desk.session.tree.root := by
  obtain ⟨hs, hl⟩ := h
  cases hs with
  | host f hh => exact Extends.refl _ _
  | refused f => exact Extends.refl _ _
  | line f now raw =>
    rw [desk_settle]
    exact grows_begin (fun h => hl ⟨now, raw, h, rfl⟩) now
  | progress text => exact Extends.refl _ _
  | @signal d before after p signal =>
    rw [desk_settle]
    cases signal with
    | cancelled => exact Extends.refl _ _
    | replied reply => exact grows_resume (p.answer d) p.stage reply

theorem grows_of_reaches (h : Relation.ReflTransGen (StepWithoutLoad hosts) f g) :
    Grows f.desk.session.tree.root g.desk.session.tree.root := by
  induction h with
  | refl => exact Extends.refl _ _
  | tail _ hs ih => exact ih.trans hs.grows

end Floor

/-- Without a load that finds a snapshot, whatever lines, replies and tool calls come in whatever order,
no directory and no file is lost or changes its kind, and what stood in a directory keeps its order;
lines that only look and changes that are turned away leave the tree as it is, and so does whatever
ends a scan and a tool call that does not answer that it has written. -/
theorem kept_until_loaded (hosts : Host → Prop) :
    (∀ f g, Relation.ReflTransGen (Floor.StepWithoutLoad hosts) f g →
      f.desk.session.tree.Keeps g.desk.session.tree) ∧
    (∀ d now raw v, verb? raw = some v →
      v ∈ [.help, .about, .version, .clear, .status, .setkey, .ls, .cd, .cat, .find, .run, .scan,
          .exportSession] ∨
        (v ∈ [.mkdir, .write] ∧ ∀ l ∈ (begin d now raw).1.said, l.kind ≠ .success) →
      (begin d now raw).1.session.tree = d.session.tree) ∧
    (∀ a definitions signal,
      (continued a (.scan definitions) signal).1.session.tree = a.session.tree ∧
        (continued a (.scan definitions) signal).2 = none) ∧
    (∀ (t : Tree) (call : ToolCall),
      (∀ target, (call.run t).2 ≠ .ok (TreeTool.report target .written)) →
      (call.run t).1 = t) := by
  refine ⟨?_, ?_, ?_, fun t call h => tree_run h⟩
  · intro f g h
    exact Tree.keeps_of_extends (Floor.grows_of_reaches h)
  · intro d now raw v hv h
    rw [begin_of_verb? hv] at h ⊢
    rcases h with h | ⟨h, hs⟩
    · refine tree_perform ⟨?_, ?_, ?_⟩ (echo d now raw) raw.words.tail raw
      all_goals
        rintro rfl
        exact absurd h (by decide)
    · have h : v = .mkdir ∨ v = .write := by simpa using h
      rcases h with rfl | rfl
      · rcases makeDirectory_cases (echo d now raw) raw.words.tail with h | ⟨name, text, h⟩
        · exact h
        · exact absurd hs (not_success h)
      · rcases write_cases (echo d now raw) raw raw.words.tail with h | ⟨path, content, text, h⟩
        · exact h
        · exact absurd hs (not_success h)
  · intro a definitions signal
    cases signal with
    | cancelled => exact ⟨rfl, rfl⟩
    | replied reply =>
      cases reply with
      | error failure => exact ⟨tree_abort .., rfl⟩
      | ok report => exact ⟨rfl, rfl⟩

theorem kept_until_loaded_mkdir :
    let tree : Tree := ⟨[.directory "docs" "/docs" [], .file ⟨"a", "/a", none⟩]⟩
    let d := Desk.bare { Session.withoutHistory tree "1.0.0" with state := .scanning }
    let f : Floor := ⟨d, [⟨0, [], .scan []⟩]⟩
    let g := Floor.settle f.pending [] (begin d 1 "mkdir b")
    Relation.ReflTransGen (Floor.StepWithoutLoad fun _ => False) f g ∧
      tree.Keeps g.desk.session.tree ∧ (begin d 1 "mkdir a").1.session.tree = tree := by
  intro tree d f g
  have hstep : Floor.StepWithoutLoad (fun _ => False) f g := by
    refine ⟨.line f 1 "mkdir b", ?_⟩
    rintro ⟨now, raw, ⟨hidle, -⟩, -⟩
    exact nomatch hidle
  have h := kept_until_loaded fun _ => False
  refine ⟨.single hstep, h.1 f g (.single hstep), ?_⟩
  exact h.2.1 d 1 "mkdir a" .mkdir (by decide) (Or.inr ⟨by decide, by decide⟩)

end Shell

end ThreatDesk
