import ThreatDesk.Proofs.Shell.Floor

/-!
# Loading is all or nothing

A snapshot takes the place of the whole session, or nothing happens beside a complaint. Which of the two
depends on whether there is a name, a snapshot under it and a tree to be made of it (`Loadable`). Main
statement: `load_all_or_nothing`.
-/

namespace ThreatDesk

def Session.nextLines (s : Session) (now : Int) (kind : LineKind) (texts : List Text) : List Line :=
  texts.mapIdx fun i text => ⟨lineId (s.drawn (s.issued + i + 1)), kind, text, .integer now⟩

theorem Session.nextLines_cons (s : Session) (now : Int) (kind : LineKind) (text : Text)
    (texts : List Text) :
    s.nextLines now kind (text :: texts) =
      s.nextLine now kind text :: (s.say now kind text).nextLines now kind texts := by
  have hissued (i : Nat) : s.issued + (i + 1) + 1 = s.issued + 1 + i + 1 := by omega
  simp only [nextLines, List.mapIdx_cons, hissued]
  rfl

theorem Answer.desk_sayAll (a : Answer) (kind : LineKind) (texts : List Text) :
    (a.sayAll kind texts).desk = { a.desk with session := { a.desk.session with
      lines := a.desk.session.lines ++ a.desk.session.nextLines a.now kind texts
      issued := a.desk.session.issued + texts.length
      told := a.desk.session.told ++ a.desk.session.nextLines a.now kind texts } } := by
  induction texts generalizing a with
  | nil => simp [sayAll, Session.nextLines]
  | cons text texts ih =>
    have hissued : a.desk.session.issued + 1 + texts.length =
        a.desk.session.issued + (texts.length + 1) := by omega
    refine (ih (a.say kind text)).trans ?_
    simp only [Answer.say, Session.say, Session.nextLines_cons, List.append_assoc,
      List.singleton_append, List.length_cons, hissued]

namespace Baseline

/-- What becomes of the tree of a snapshot: it is kept if it has something called `src`, and else a
directory of the modules comes last, if they can be read. -/
inductive Completed (modules : Except Host.Fault (List Module)) (t : Tree) : Tree → Prop
  | kept (hs : hasSource t = true) : Completed modules t t
  | added {ms : List Module} (hs : hasSource t = false) (hm : modules = .ok ms) :
    Completed modules t ⟨t.children ++ [fresh ms]⟩

variable {modules : Except Host.Fault (List Module)} {t : Tree}

theorem reconcile_eq_ok {u : Tree} {added : Bool} (h : reconcile t modules = .ok (u, added)) :
    Completed modules t u ∧ added = !hasSource t := by
  unfold reconcile at h
  split at h
  · next hs =>
    obtain ⟨rfl, rfl⟩ := Prod.mk.inj (Except.ok.inj h)
    exact ⟨.kept hs, by rw [hs]; rfl⟩
  · next hs =>
    rw [Bool.not_eq_true] at hs
    obtain ⟨ms, hm, h⟩ := exists_of_map_ok h
    obtain ⟨rfl, rfl⟩ := Prod.mk.inj h
    exact ⟨.added hs hm, by rw [hs]; rfl⟩

theorem Completed.unique {u v : Tree} (h : Completed modules t u) (k : Completed modules t v) :
    u = v := by
  cases h with
  | kept hs =>
    cases k with
    | kept => rfl
    | added hn => exact nomatch hs.symm.trans hn
  | added hs hm =>
    cases k with
    | kept hn => exact nomatch hs.symm.trans hn
    | added _ hn => rw [Except.ok.inj (hm.symm.trans hn)]

theorem not_completed {fault : Host.Fault} (h : reconcile t modules = .error fault) (u : Tree) :
    ¬ Completed modules t u := by
  intro hu
  cases hu with
  | kept hs =>
    rw [reconcile, if_pos hs] at h
    exact absurd h (by simp)
  | added hs hm =>
    rw [reconcile, hs, hm] at h
    exact absurd h (by simp [Except.map])

end Baseline

namespace Shell

def shown (l : Line) : LineKind × Text := (l.kind, l.text)

theorem shown_sayAll (a : Answer) (kind : LineKind) (texts : List Text) :
    (a.sayAll kind texts).said.map shown = a.said.map shown ++ texts.map (kind, ·) := by
  unfold Answer.sayAll
  induction texts generalizing a with
  | nil => exact (List.append_nil _).symm
  | cons text texts ih =>
    rw [List.foldl_cons, ih, Answer.say, List.map_append, List.map_cons, List.append_assoc]
    rfl

/-- What a load with those arguments goes by: the name, the snapshot that is read under it and the
tree that is made of it. -/
structure Loadable (d : Desk) (args : List Text) (name : Text) (snapshot : Snapshot) (tree : Tree) :
    Prop where
  named : loadName d args = .ok (some name)
  read : readSnapshot d name = .ok snapshot
  completed : Baseline.Completed d.modules snapshot.tree tree

/-- What comes of a load: a complaint where there is nothing to load, or the desk with the snapshot in
place of its session and a report. -/
inductive LoadEnds (a : Answer) (args : List Text) : Answer → Prop
  | refused (hn : ∀ name snapshot tree, ¬ Loadable a.desk args name snapshot tree) (text : Text) :
    LoadEnds a args (a.error text)
  | loaded {name : Text} {snapshot : Snapshot} {tree : Tree}
    (h : Loadable a.desk args name snapshot tree) :
    LoadEnds a args
      (({ a with desk := { a.desk with
          session := { a.desk.session with
            tree := tree
            lines := snapshot.lines
            cwd := Path.root
            version := snapshot.version
            state := .idle
            loadedName := (HostPath.ofText name).name
            activeFile := none }
          dialogue := [] } } : Answer).sayAll .system
        (loadReport (HostPath.ofText name).name snapshot.version (!Baseline.hasSource snapshot.tree)))

theorem report_eq (a : Answer) (label : Text) (fault : Fault) :
    ∃ text, report a label fault = a.error text := by
  unfold report
  split
  · exact ⟨_, rfl⟩
  · exact ⟨_, rfl⟩

theorem kind_of_mem_report {a : Answer} {label : Text} {fault : Fault} {l : Line}
    (h : l ∈ (report a label fault).said) : l ∈ a.said ∨ l.kind = .error := by
  obtain ⟨text, ht⟩ := report_eq a label fault
  rw [ht] at h
  rcases List.mem_append.1 h with h | h
  · exact .inl h
  · exact .inr (congrArg Line.kind (List.mem_singleton.1 h))

theorem load_cases {a : Answer} (ha : a.session.isBusy = false) (args : List Text) :
    LoadEnds a args (load a args) := by
  -- Whatever the load stops at is the one thing that could have been loaded.
  have hname {r : Except Host.Fault (Option Text)} (hr : loadName a.desk args = r)
      {name : Text} {snapshot : Snapshot} {tree : Tree}
      (h : Loadable a.desk args name snapshot tree) : r = .ok (some name) :=
    hr.symm.trans h.named
  rw [load, if_neg (by rw [ha]; decide)]
  split
  · next fault hf => exact .refused (fun name snapshot tree h => by cases hname hf h) _
  · next hf => exact .refused (fun _ _ _ h => absurd (Except.ok.inj (hname hf h)) (by simp)) _
  · next name hn =>
    have hsame {other : Text} {snapshot : Snapshot} {tree : Tree}
        (h : Loadable a.desk args other snapshot tree) : other = name :=
      (Option.some.inj (Except.ok.inj (hname hn h))).symm
    unfold loadNamed
    split
    · next fault hs =>
      obtain ⟨text, ht⟩ := report_eq a loadLabel fault
      rw [ht]
      refine .refused ?_ text
      intro other snapshot tree h
      obtain rfl := hsame h
      cases hs.symm.trans h.read
    · next snapshot hs =>
      unfold restore Snapshot.restore
      cases hr : Baseline.reconcile snapshot.tree a.desk.modules with
      | error fault =>
        refine .refused ?_ _
        intro other snapshot' tree h
        obtain rfl := hsame h
        obtain rfl : snapshot = snapshot' := Except.ok.inj (hs.symm.trans h.read)
        exact Baseline.not_completed hr tree h.completed
      | ok r =>
        obtain ⟨tree, added⟩ := r
        obtain ⟨ht, rfl⟩ := Baseline.reconcile_eq_ok hr
        exact .loaded ⟨hn, hs, ht⟩

theorem Loadable.unique {d : Desk} {args : List Text} {name other : Text} {snapshot found : Snapshot}
    {tree grown : Tree} (h : Loadable d args name snapshot tree)
    (k : Loadable d args other found grown) : name = other ∧ snapshot = found ∧ tree = grown := by
  obtain rfl : name = other := Option.some.inj (Except.ok.inj (h.named.symm.trans k.named))
  obtain rfl : snapshot = found := Except.ok.inj (h.read.symm.trans k.read)
  exact ⟨rfl, rfl, h.completed.unique k.completed⟩

theorem begin_of_loadable {d : Desk} (hd : d.session.isBusy = false) (now : Int) {raw : Text}
    (hl : isLoad raw = true) {name : Text} {snapshot : Snapshot} {tree : Tree}
    (h : Loadable d raw.words.tail name snapshot tree) :
    (begin d now raw).2 = none ∧
      let report := (d.session.say now .input raw).nextLines now .system
        (loadReport (HostPath.ofText name).name snapshot.version
          (!Baseline.hasSource snapshot.tree))
      (begin d now raw).1.desk = { d with
        session := {
          tree := tree
          lines := snapshot.lines ++ report
          cwd := Path.root
          version := snapshot.version
          state := .idle
          lastOutcome := d.session.lastOutcome
          loadedName := (HostPath.ofText name).name
          activeFile := none
          drawn := d.session.drawn
          issued := d.session.issued + 7
          told := d.session.told ++ d.session.nextLine now .input raw :: report }
        dialogue := [] } := by
  -- The echo changes nothing that a load goes by.
  have hecho : Loadable (echo d now raw).desk raw.words.tail name snapshot tree := ⟨h.1, h.2, h.3⟩
  have hends := load_cases (a := echo d now raw) hd raw.words.tail
  rw [begin_of_isLoad hl]
  generalize load (echo d now raw) raw.words.tail = b at hends
  cases hends with
  | refused hn text => exact absurd hecho (hn name snapshot tree)
  | loaded hfound =>
    obtain ⟨rfl, rfl, rfl⟩ := hecho.unique hfound
    refine ⟨rfl, ?_⟩
    rw [Answer.desk_sayAll]
    simp [echo, Desk.silent, Answer.say, Session.say, Session.nextLines, loadReport]

/-- Where nothing is under way, a load line either finds nothing to load and is echoed with one
complaint, or all of the session is that of the snapshot, whatever the files and their bytes are. -/
theorem load_all_or_nothing {d : Desk} (hd : d.session.isBusy = false) (now : Int) {raw : Text}
    (hl : isLoad raw = true) :
    ((∀ name snapshot tree, ¬ Loadable d raw.words.tail name snapshot tree) ∧
      ∃ text, begin d now raw =
        (⟨{ d with session := (d.session.say now .input raw).say now .error text }, now,
          [d.session.nextLine now .input raw,
            (d.session.say now .input raw).nextLine now .error text]⟩, none)) ∨
    (∃ name snapshot tree, Loadable d raw.words.tail name snapshot tree ∧
      (begin d now raw).2 = none ∧
      let report := (d.session.say now .input raw).nextLines now .system
        (loadReport (HostPath.ofText name).name snapshot.version
          (!Baseline.hasSource snapshot.tree))
      (begin d now raw).1.desk = { d with
        session := {
          tree := tree
          lines := snapshot.lines ++ report
          cwd := Path.root
          version := snapshot.version
          state := .idle
          lastOutcome := d.session.lastOutcome
          loadedName := (HostPath.ofText name).name
          activeFile := none
          drawn := d.session.drawn
          issued := d.session.issued + 7
          told := d.session.told ++ d.session.nextLine now .input raw :: report }
        dialogue := [] }) := by
  have hends := load_cases (a := echo d now raw) hd raw.words.tail
  rw [begin_of_isLoad hl]
  generalize hb : load (echo d now raw) raw.words.tail = b at hends
  cases hends with
  | refused hn text =>
    exact Or.inl ⟨fun name snapshot tree h => hn name snapshot tree ⟨h.1, h.2, h.3⟩, text, rfl⟩
  | @loaded name snapshot tree h =>
    have hloadable : Loadable d raw.words.tail name snapshot tree := ⟨h.1, h.2, h.3⟩
    have hbegin := begin_of_loadable hd now hl hloadable
    rw [begin_of_isLoad hl, hb] at hbegin
    exact Or.inr ⟨name, snapshot, tree, hloadable, hbegin⟩

theorem load_all_or_nothing_stored :
    let stored : Snapshot := ⟨"2", .integer 0, ⟨[.directory "src" "/src" []]⟩, []⟩
    let bare := Desk.bare { Session.withoutHistory ⟨[.directory "a" "/a" []]⟩ "1.0" with cwd := "/a" }
    let d := { bare with host := { bare.host with entries := [(["x"], .directory (.integer 0)),
      (["x", "s.json"], .file (stored.toBytes.toOption.getD []) (.integer 0) 0o644)] } }
    let e := (begin d 1 "load s.json").1.desk
    d.session.isBusy = false ∧ e.session.version = "2" ∧ e.session.cwd = Path.root ∧
      e.session.loadedName = "s.json" ∧ e.session.told.length = 7 := by
  intro stored bare d e
  have hl : isLoad "load s.json" = true := by decide
  have hargs : ("load s.json" : Text).words.tail = [("s.json" : Text)] := by decide
  have hread : (readSnapshot d "s.json").toOption.map
      (fun s => (s.version, Baseline.hasSource s.tree)) = some (("2" : Text), true) := by
    decide +kernel
  cases hs : readSnapshot d "s.json" with
  | error fault =>
    rw [hs] at hread
    exact nomatch hread
  | ok snapshot =>
    rw [hs] at hread
    obtain ⟨hversion, hsource⟩ := Prod.mk.inj (Option.some.inj hread)
    have hloadable : Loadable d ["s.json"] "s.json" snapshot snapshot.tree :=
      ⟨rfl, hs, .kept hsource⟩
    rcases load_all_or_nothing (d := d) rfl 1 hl with ⟨hn, -⟩ | ⟨name, found, tree, h, -, hdesk⟩
    · rw [hargs] at hn
      exact absurd hloadable (hn _ _ _)
    · rw [hargs] at h
      obtain ⟨rfl, rfl, rfl⟩ := hloadable.unique h
      have he : e.session = _ := congrArg Desk.session hdesk
      refine ⟨rfl, ?_⟩
      rw [he]
      exact ⟨hversion, rfl, rfl, rfl⟩

end Shell

end ThreatDesk
