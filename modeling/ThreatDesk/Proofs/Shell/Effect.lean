import ThreatDesk.Proofs.Results
import ThreatDesk.Shell.Line

/-!
# What a line can do

A verb that is done at once changes one thing beside what has been said, and a line that is not done at
once begins an operation. Main statement: every line does either (`begin_cases`); the invariants of the
shell are derived from it.
-/

namespace ThreatDesk

def Desk.silenced (d : Desk) : Desk :=
  { d with session := { d.session with lines := [], issued := 0, told := [] } }

def Desk.bare (s : Session) : Desk where
  site :=
    ⟨⟨HostPath.ofText "/x"⟩, ⟨HostPath.ofText "/k", KeyStore.defaultVariable⟩, HostPath.ofText "/m", 4⟩
  session := s
  dialogue := []
  host := ⟨0, [], HostPath.ofText "/", [], [], []⟩

namespace Answer

/-- The second answer has said those lines beyond the first one, at its time: to its command, to whoever
listens and into the history. -/
structure Adds (a b : Answer) (ls : List Line) : Prop where
  now : b.now = a.now
  said : b.said = a.said ++ ls
  told : b.session.told = a.session.told ++ ls
  lines : b.session.lines = a.session.lines ++ ls
  times : ∀ l ∈ ls, l.timestamp = .integer a.now

namespace Adds

theorem trans {a b c : Answer} {ls ms : List Line} (h : a.Adds b ls) (k : b.Adds c ms) :
    a.Adds c (ls ++ ms) where
  now := k.now.trans h.now
  said := by rw [k.said, h.said, List.append_assoc]
  told := by rw [k.told, h.told, List.append_assoc]
  lines := by rw [k.lines, h.lines, List.append_assoc]
  times := List.forall_mem_append.2 ⟨h.times, fun l hl => h.now ▸ k.times l hl⟩

theorem say (a : Answer) (kind : LineKind) (text : Text) :
    a.Adds (a.say kind text) [a.desk.session.nextLine a.now kind text] where
  now := rfl
  said := rfl
  told := rfl
  lines := rfl
  times := List.forall_mem_singleton.2 rfl

end Adds

def Speaks (a b : Answer) : Prop := ∃ ls, a.Adds b ls

namespace Speaks

theorem trans {a b c : Answer} : a.Speaks b → b.Speaks c → a.Speaks c
  | ⟨ls, hls⟩, ⟨ms, hms⟩ => ⟨ls ++ ms, hls.trans hms⟩

theorem say (a : Answer) (kind : LineKind) (text : Text) : a.Speaks (a.say kind text) :=
  ⟨_, .say a kind text⟩

theorem silent {a b : Answer} (hn : b.now = a.now) (hs : b.said = a.said)
    (ht : b.session.told = a.session.told) (hl : b.session.lines = a.session.lines) :
    a.Speaks b :=
  ⟨[], hn, hs.trans (List.append_nil _).symm, ht.trans (List.append_nil _).symm,
    hl.trans (List.append_nil _).symm, List.forall_mem_nil _⟩

theorem after {a b c : Answer} (h : b.Speaks c) (hn : b.now = a.now) (hs : b.said = a.said)
    (ht : b.session.told = a.session.told) (hl : b.session.lines = a.session.lines) : a.Speaks c :=
  (silent hn hs ht hl).trans h

end Speaks

structure Says (a b : Answer) : Prop where
  desk : b.desk.silenced = a.desk.silenced
  speaks : a.Speaks b

namespace Says

theorem refl (a : Answer) : a.Says a := ⟨rfl, .silent rfl rfl rfl rfl⟩

theorem trans {a b c : Answer} (h : a.Says b) (k : b.Says c) : a.Says c :=
  ⟨k.desk.trans h.desk, h.speaks.trans k.speaks⟩

theorem say (a : Answer) (kind : LineKind) (text : Text) : a.Says (a.say kind text) :=
  ⟨rfl, .say a kind text⟩

theorem then_say {a b : Answer} (h : a.Says b) (kind : LineKind) (text : Text) :
    a.Says (b.say kind text) :=
  h.trans (say b kind text)

theorem sayAll (a : Answer) (kind : LineKind) (texts : List Text) :
    a.Says (a.sayAll kind texts) := by
  unfold Answer.sayAll
  induction texts generalizing a with
  | nil => exact refl a
  | cons t texts ih => exact (say a kind t).trans (ih _)

variable {a b : Answer}

theorem site (h : a.Says b) : b.desk.site = a.desk.site :=
  congrArg (fun d => d.site) h.desk

theorem host (h : a.Says b) : b.desk.host = a.desk.host :=
  congrArg (fun d => d.host) h.desk

theorem tree (h : a.Says b) : b.session.tree = a.session.tree :=
  congrArg (fun d => d.session.tree) h.desk

theorem state (h : a.Says b) : b.session.state = a.session.state :=
  congrArg (fun d => d.session.state) h.desk

theorem isBusy (h : a.Says b) : b.session.isBusy = a.session.isBusy := by
  rw [Session.isBusy, h.state, Session.isBusy]

theorem withTree (h : a.Says b) (tree : Tree) : (a.withTree tree).Says (b.withTree tree) where
  desk := congrArg (fun d => { d with session := { d.session with tree := tree } }) h.desk
  speaks := h.speaks.imp fun _ hls => ⟨hls.now, hls.said, hls.told, hls.lines, hls.times⟩

theorem inState (h : a.Says b) (state : ShellState) :
    (Shell.inState a state).Says (Shell.inState b state) where
  desk := congrArg (fun d => { d with session := { d.session with state := state } }) h.desk
  speaks := h.speaks.imp fun _ hls => ⟨hls.now, hls.said, hls.told, hls.lines, hls.times⟩

end Says

end Answer

namespace Shell

open Answer (Says)

/-! ## Verbs that are done at once -/

/-- What a verb that adds to the history has done: said something, after a change of one other thing
at most. -/
inductive Edit (a b : Answer) : Prop
  | said (h : a.Says b)
  | moved (cwd : Text) (hc : cwd = Path.root ∨ ∃ word c,
      cwd = Path.resolve a.session.cwd word ∧ a.session.tree.directory? cwd = some c)
    (h : (a.withSession fun s => { s with cwd := cwd }).Says b)
  | opened (path : Text) (f : File) (hf : a.session.tree.file? path = some f)
    (h : (a.withSession fun s => { s with activeFile := some f }).Says b)
  | made (name : Text) (hn : Path.isName name = true)
    (h : (a.withTree (a.session.tree.makeDirectory a.session.cwd name)).Says b)
  | wrote (path content : Text) (h : (a.withTree (a.session.tree.write path content).1).Says b)
  | keyed (key : Text) (h : (a.withHost (a.desk.site.keys.set a.desk.host key).1).Says b)
  | exported (e : Export) (he : Export.ofDesk a.desk a.now = .ok e) (version : Text)
    (hv : version = e.version ∨ version = a.session.version)
    (h : ((a.withHost (a.desk.site.archive.write a.desk.host e.bytes e.filename).1).withSession
      fun s => { s with version := version }).Says b)

theorem Edit.speaks {a b : Answer} (h : Edit a b) : a.Speaks b := by
  cases h with
  | said h => exact h.speaks
  | moved _ _ h | opened _ _ _ h | made _ _ h | wrote _ _ h | keyed _ h | exported _ _ _ _ h =>
    exact h.speaks.after rfl rfl rfl rfl

inductive Effect (a b : Answer) : Prop
  | edited (h : Edit a b)
  | cleared (h : (a.withSession fun s => { s with lines := [] }).Says b)
  | loaded (name : Text) (snapshot : Snapshot) (d : Desk) (report : List Text)
    (hb : a.session.isBusy = false) (hs : readSnapshot a.desk name = .ok snapshot)
    (hr : restore a.desk name snapshot = .ok (d, report)) (h : { a with desk := d }.Says b)

theorem says_report (a : Answer) (label : Text) (fault : Fault) :
    a.Says (report a label fault) := by
  unfold report
  split <;> exact Says.say ..

theorem says_version (a : Answer) : a.Says (version a) := by
  have h := Says.say a .system ("CURRENT VERSION: " ++ a.session.version)
  unfold version
  simp only
  split
  · exact h
  · exact h.then_say ..

theorem says_status (a : Answer) : a.Says (status a) := by
  have h := Says.sayAll a .output
    ["STATE: " ++ stateText a.session, "VER: " ++ a.session.version, "CWD: " ++ a.session.cwd]
  unfold status
  simp only
  split
  · exact h.then_say ..
  · next source _ =>
    have hs := (h.then_say .output ("KEY: " ++ source.toText)).then_say .output
      ("FILES: " ++ Text.ofNat (Node.allFiles a.session.tree.children).length)
    split
    · exact hs.then_say ..
    · exact hs

theorem says_list (a : Answer) (args : List Text) : a.Says (list a args) := by
  unfold list
  simp only
  split
  · exact Says.say ..
  · exact Says.sayAll ..

theorem says_find (a : Answer) (args : List Text) : a.Says (find a args) := by
  cases args with
  | nil => exact Says.say ..
  | cons needle args =>
    rw [find]
    split
    · exact Says.say ..
    · exact Says.sayAll ..

theorem says_run (a : Answer) (args : List Text) : a.Says (run a args) := by
  cases args with
  | nil => exact Says.say ..
  | cons word args =>
    rw [run]
    split
    · exact Says.say ..
    · split
      · exact (Says.sayAll ..).then_say ..
      · exact Says.say ..

theorem edit_changeDirectory (a : Answer) (args : List Text) :
    Edit a (changeDirectory a args) := by
  cases args with
  | nil => exact .moved Path.root (Or.inl rfl) (Says.refl _)
  | cons word args =>
    rw [changeDirectory]
    split
    · exact .said (Says.say ..)
    · next c hc => exact .moved _ (Or.inr ⟨word, c, rfl, hc⟩) (Says.refl _)

theorem edit_makeDirectory (a : Answer) (args : List Text) :
    Edit a (makeDirectory a args) := by
  cases args with
  | nil => exact .said (Says.say ..)
  | cons name args =>
    rw [makeDirectory]
    split
    · exact .said (Says.say ..)
    · next hn =>
      rw [Bool.not_eq_true', Bool.not_eq_false] at hn
      split
      · exact .said (Says.say ..)
      · split
        · exact .said (Says.say ..)
        · exact .made name hn (Says.say ..)

theorem edit_read (a : Answer) (args : List Text) : Edit a (read a args) := by
  cases args with
  | nil => exact .said (Says.say ..)
  | cons word args =>
    rw [read]
    split
    · exact .said (Says.say ..)
    · next f hf => exact .opened _ f hf ((Says.say ..).then_say ..)

theorem edit_write (a : Answer) (raw : Text) (args : List Text) :
    Edit a (write a raw args) := by
  cases args with
  | nil => exact .said (Says.say ..)
  | cons word args =>
    rw [write]
    split
    · next tree hw =>
      refine .wrote (resolved a word) (raw.argument 2) ?_
      rw [hw]
      exact Says.say ..
    · exact .said (Says.say ..)
    · exact .said (Says.say ..)
    · exact .said (Says.refl a)

theorem edit_setKey (a : Answer) (args : List Text) : Edit a (setKey a args) := by
  cases args with
  | nil => exact .said (Says.say ..)
  | cons key args =>
    refine .keyed key ?_
    rw [setKey]
    split
    · next host hk =>
      rw [hk]
      exact Says.say ..
    · next host fault hk =>
      rw [hk]
      simp only
      split <;> exact Says.say ..

/-- What comes of an export: nothing could be made, nothing could be written, or a snapshot is written and
its version is that of the session. -/
inductive ExportEnds (a : Answer) : Answer → Prop
  | unmade {fault : Fault} (he : Export.ofDesk a.desk a.now = .error fault) :
    ExportEnds a (report a exportLabel fault)
  | unwritten {e : Export} {host : Host} {fault : Host.Fault}
    (he : Export.ofDesk a.desk a.now = .ok e)
    (hw : a.desk.site.archive.write a.desk.host e.bytes e.filename = (host, .error fault)) :
    ExportEnds a (report (a.withHost host) exportLabel (.host fault))
  | written {e : Export} {host : Host} {path : HostPath} (he : Export.ofDesk a.desk a.now = .ok e)
    (hw : a.desk.site.archive.write a.desk.host e.bytes e.filename = (host, .ok path)) :
    ExportEnds a (((a.withHost host).withSession fun s => { s with version := e.version }).success
      ("SESSION EXPORTED: " ++ e.filename))

theorem export_cases (a : Answer) : ExportEnds a (exportSession a) := by
  unfold exportSession
  split
  · next he => exact .unmade he
  · next he =>
    split
    · next hw => exact .unwritten he hw
    · next hw => exact .written he hw

theorem edit_exportSession (a : Answer) : Edit a (exportSession a) := by
  have hends := export_cases a
  generalize exportSession a = b at hends
  cases hends with
  | unmade he => exact .said (says_report ..)
  | @unwritten e host fault he hw =>
    refine .exported e he a.session.version (Or.inr rfl) ?_
    rw [hw]
    exact says_report ..
  | @written e host path he hw =>
    refine .exported e he e.version (Or.inl rfl) ?_
    rw [hw]
    exact Says.say ..

theorem effect_load (a : Answer) (args : List Text) : Effect a (load a args) := by
  unfold load
  split
  · exact .edited (.said (Says.say ..))
  · next hb =>
    rw [Bool.not_eq_true] at hb
    split
    · exact .edited (.said (Says.say ..))
    · exact .edited (.said (Says.say ..))
    · next name hn =>
      unfold loadNamed
      split
      · exact .edited (.said (says_report ..))
      · next snapshot hs =>
        split
        · exact .edited (.said (Says.say ..))
        · next d report hr => exact .loaded name snapshot d report hb hs hr (Says.sayAll ..)

theorem readSnapshot_eq_ok {d : Desk} {name : Text} {snapshot : Snapshot}
    (h : readSnapshot d name = .ok snapshot) : ∃ bytes, Snapshot.ofBytes bytes = .ok snapshot := by
  unfold readSnapshot at h
  split at h
  · exact nomatch h
  · exact ⟨_, eq_ok_of_mapError_ok h⟩

theorem restore_eq_ok {d e : Desk} {name : Text} {snapshot : Snapshot} {report : List Text}
    (h : restore d name snapshot = .ok (e, report)) :
    ∃ tree added, Baseline.reconcile snapshot.tree d.modules = .ok (tree, added) ∧
      e = { d with
        session := { d.session with
          tree := tree
          lines := snapshot.lines
          cwd := Path.root
          version := snapshot.version
          state := .idle
          loadedName := (HostPath.ofText name).name
          activeFile := none }
        dialogue := [] } := by
  obtain ⟨⟨session, restored⟩, hr, hd⟩ := exists_of_map_ok h
  obtain ⟨⟨tree, added⟩, hreconcile, hs⟩ := exists_of_map_ok hr
  obtain ⟨rfl, -⟩ := Prod.mk.inj hs
  obtain ⟨rfl, -⟩ := Prod.mk.inj hd
  exact ⟨tree, added, hreconcile, rfl⟩

/-! ## Lines -/

inductive Begun (a : Answer) : Answer × Option Stage → Prop
  | done {b : Answer} (h : Effect a b) : Begun a (b, none)
  | begun (op : Operation) (hb : a.session.isBusy = false) :
    Begun a ((start a op).1, some (start a op).2)

/-- What a verb other than those that replace the history has come to. -/
inductive Added (a : Answer) : Answer × Option Stage → Prop
  | edited {b : Answer} (h : Edit a b) : Added a (b, none)
  | begun (op : Operation) (hb : a.session.isBusy = false) :
    Added a ((start a op).1, some (start a op).2)

theorem Added.toBegun {a : Answer} {r : Answer × Option Stage} (h : Added a r) : Begun a r := by
  cases h with
  | edited h => exact .done (.edited h)
  | begun op hb => exact .begun op hb

theorem added_startUnlessBusy (a : Answer) (op : Operation) : Added a (startUnlessBusy a op) := by
  unfold startUnlessBusy
  split
  · exact .edited (.said (Says.say ..))
  · next hb =>
    rw [Bool.not_eq_true] at hb
    exact .begun op hb

theorem added_perform {verb : Verb} (hc : verb ≠ .clear) (hl : verb ≠ .load) (a : Answer)
    (args : List Text) (raw : Text) : Added a (perform a verb args raw) := by
  cases verb with
  | help => exact .edited (.said (Says.say ..))
  | about => exact .edited (.said (Says.say ..))
  | version => exact .edited (.said (says_version a))
  | clear => exact absurd rfl hc
  | ls => exact .edited (.said (says_list a args))
  | cd => exact .edited (edit_changeDirectory a args)
  | mkdir => exact .edited (edit_makeDirectory a args)
  | cat => exact .edited (edit_read a args)
  | write => exact .edited (edit_write a raw args)
  | find => exact .edited (.said (says_find a args))
  | status => exact .edited (.said (says_status a))
  | setkey => exact .edited (edit_setKey a args)
  | run => exact .edited (.said (says_run a args))
  | analyze => exact added_startUnlessBusy a .analyze
  | research => exact added_startUnlessBusy a .research
  | scan => exact added_startUnlessBusy a .scan
  | browse =>
    cases args with
    | nil => exact .edited (.said (Says.say ..))
    | cons url args => exact added_startUnlessBusy a (.browse url)
  | ask =>
    cases args with
    | nil => exact .edited (.said (Says.say ..))
    | cons word args => exact added_startUnlessBusy a (.ask (raw.argument 1))
  | exportSession => exact .edited (edit_exportSession a)
  | load => exact absurd rfl hl

theorem perform_cases (a : Answer) (verb : Verb) (args : List Text) (raw : Text) :
    Begun a (perform a verb args raw) := by
  by_cases hc : verb = .clear
  · subst hc
    exact .done (.cleared (Says.refl _))
  · by_cases hl : verb = .load
    · subst hl
      exact .done (effect_load a args)
    · exact (added_perform hc hl a args raw).toBegun

def echo (d : Desk) (now : Int) (raw : Text) : Answer := (d.silent now).say .input raw

theorem begin_cases (d : Desk) (now : Int) (raw : Text) :
    Begun (echo d now raw) (begin d now raw) := by
  unfold begin
  simp only
  split
  · exact .done (.edited (.said (Says.refl _)))
  · split
    · exact .done (.edited (.said (Says.say ..)))
    · exact perform_cases ..

end Shell

end ThreatDesk
