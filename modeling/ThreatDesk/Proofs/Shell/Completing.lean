import ThreatDesk.Proofs.Shell.Keeping
import ThreatDesk.Proofs.Tree.Resolve
import ThreatDesk.Shell.Completion

/-!
# Completions that are accepted

What is suggested behind a token is the rest of the name of a child (`ofPath_eq`), and the line that is
completed with it does to that child what the line says (`accepted_completion`), unless the name holds
white space: a line is divided there, and nothing in it can say otherwise (`divided_completion`).
-/

namespace ThreatDesk

def Verb.line (verb : Verb) (word : Text) : Text := verb.name ++ CodePoint.ofChar ' ' :: word

namespace Verb

theorem isWord_name (verb : Verb) : Text.IsWord verb.name := by
  unfold Text.IsWord
  cases verb <;> decide

theorem words_line (verb : Verb) {word : Text} (h : Text.IsWord word) :
    (verb.line word).words = [verb.name, word] := by
  rw [line, Text.words_append_blank verb.isWord_name rfl, Text.words_of_isWord h]

theorem lower_name (verb : Verb) : verb.name.lower = verb.name := by
  cases verb <;> decide

end Verb

namespace Completion

/-! ## The child that is completed -/

def child? (tree : Tree) (cwd token : Text) : Option Node :=
  (directoryOf? tree cwd (splitTyped token).1).bind fun c =>
    c.children.find? fun n => n.name.startsWith (splitTyped token).2

theorem ofPath_eq (tree : Tree) (cwd token : Text) :
    ofPath tree cwd token =
      match child? tree cwd token with
      | none => []
      | some n => n.name.drop (splitTyped token).2.length ++
          (if n.isDirectory then [Path.separator] else []) := by
  rw [ofPath, child?]
  cases splitTyped token with
  | mk part typed =>
    simp only
    cases directoryOf? tree cwd part <;> rfl

theorem splitTyped_cases (token : Text) :
    token = (splitTyped token).1 ++ (splitTyped token).2 ∧ Path.IsPart (splitTyped token).1 := by
  unfold splitTyped
  split
  · next before name h =>
    refine ⟨?_, .inr ⟨before, rfl⟩⟩
    rw [List.append_assoc, List.singleton_append]
    exact (Text.eq_of_splitAtLast? h).1
  · exact ⟨rfl, .inl rfl⟩

theorem lastToken_line (verb : Verb) {token : Text} (h : ∀ c ∈ token, c.isBlank = false) :
    lastToken (verb.line token) = token := by
  have hstop : (CodePoint.ofChar ' ').isBlank = true := rfl
  have hall : ∀ c ∈ token.reverse, (!c.isBlank) = true := by simpa using h
  rw [lastToken, Verb.line, List.reverse_append, List.reverse_cons, List.append_assoc,
    List.takeWhile_append_of_pos hall, List.singleton_append, List.takeWhile_cons_of_neg (by simp [hstop]),
    List.append_nil, List.reverse_reverse]

theorem suggest_line (verbs : List Text) (cwd : Text) (tree : Tree) (verb : Verb) {token : Text}
    (h : ∀ c ∈ token, c.isBlank = false) :
    suggest verbs cwd (some tree) (verb.line token) = ofPath tree cwd token := by
  have hany : (verb.line token).any CodePoint.isBlank = true :=
    List.any_eq_true.2 ⟨CodePoint.ofChar ' ', by simp [Verb.line], rfl⟩
  rw [suggest, if_neg (by simp [hany])]
  exact congrArg (ofPath tree cwd) (lastToken_line verb h)

/-- A suggestion completes the token to a child's name behind the directory part of the token. -/
structure Completes (tree : Tree) (cwd token s : Text) (n : Node) : Prop where
  child : child? tree cwd token = some n
  whole : token ++ s = (splitTyped token).1 ++ n.name ++
    (if n.isDirectory then [Path.separator] else [])

theorem completes_of_ofPath {tree : Tree} {cwd token s : Text} (h : ofPath tree cwd token = s)
    (hs : s ≠ []) : ∃ n, Completes tree cwd token s n := by
  rw [ofPath_eq] at h
  split at h
  · exact absurd h.symm hs
  · next n hn =>
    refine ⟨n, hn, ?_⟩
    obtain ⟨c, -, hc⟩ := Option.bind_eq_some_iff.1 hn
    have hstart : n.name.startsWith (splitTyped token).2 = true :=
      List.find?_some (p := fun n : Node => n.name.startsWith (splitTyped token).2) hc
    obtain ⟨rest, hrest⟩ := Text.startsWith_iff.1 hstart
    rw [← hrest, List.drop_left] at h
    rw [← h, ← hrest, ← List.append_assoc, ← List.append_assoc (splitTyped token).1,
      ← (splitTyped_cases token).1]

end Completion

/-! ## What the completed path means -/

namespace Completion

variable {tree : Tree} {cwd token s : Text} {n : Node}

theorem Completes.place (ht : tree.WellFormed) (h : Completes tree cwd token s n) :
    ∃ c, tree.directory? (Path.directoryPath cwd (splitTyped token).1) = some c ∧
      Nodes.get? n.name c.children = some n ∧ Path.isName n.name = true := by
  obtain ⟨c, hc, hfind⟩ := Option.bind_eq_some_iff.1 h.child
  have hpath : tree.root.path = Path.ofSegments [] := rfl
  obtain ⟨-, -, hplaced⟩ := Container.placed_descend (List.forall_mem_nil _) hpath ht hc
  have hn : n ∈ c.children := List.mem_of_find?_eq_some hfind
  exact ⟨c, hc, Nodes.get?_of_mem hplaced hn, (hplaced.of_mem hn).isName⟩

theorem Completes.resolve_eq (ht : tree.WellFormed) (h : Completes tree cwd token s n) :
    Path.resolve cwd (token ++ s) = Path.resolve cwd ((splitTyped token).1 ++ n.name) := by
  obtain ⟨_, -, -, hname⟩ := h.place ht
  rw [h.whole]
  split
  · exact Path.resolve_typed_separator cwd _ hname
  · rw [List.append_nil]

theorem Completes.file? (ht : tree.WellFormed) {f : File}
    (h : Completes tree cwd token s (.file f)) :
    tree.file? (Path.resolve cwd (token ++ s)) = some f := by
  obtain ⟨c, hc, hget, hname⟩ := h.place ht
  rw [h.resolve_eq ht, Tree.file?_typed (splitTyped_cases token).2 hname hc]
  exact congrArg (·.bind Node.file?) hget

theorem Completes.directory? (ht : tree.WellFormed) {name path : Text} {children : List Node}
    (h : Completes tree cwd token s (.directory name path children)) :
    tree.directory? (Path.resolve cwd (token ++ s)) = some ⟨path, children⟩ := by
  obtain ⟨c, hc, hget, hname⟩ := h.place ht
  rw [h.resolve_eq ht]
  exact Tree.directory?_typed (splitTyped_cases token).2 hname hc hget

end Completion

namespace Shell

open Completion (child? Completes)

theorem begin_line (d : Desk) (now : Int) (verb : Verb) {word : Text} (h : Text.IsWord word) :
    begin d now (verb.line word) =
      perform (echo d now (verb.line word)) verb [word] (verb.line word) :=
  begin_of_verb (verb.words_line h) verb.lower_name d now

/-- What the line that has been completed to a node does: a file is read, a directory entered. -/
def Taken (d : Desk) (word : Text) : Node → Prop
  | .file f => ∀ now, begin d now (Verb.cat.line word) =
      (((((echo d now (Verb.cat.line word)).withSession fun s => { s with activeFile := some f }).success
        ("READING " ++ f.name ++ "...")).output f.text), none)
  | .directory _ path children => word.getLast? = some Path.separator ∧
      ∃ cwd, d.session.tree.directory? cwd = some ⟨path, children⟩ ∧
        ∀ now, begin d now (Verb.cd.line word) =
          ((echo d now (Verb.cd.line word)).withSession fun s => { s with cwd := cwd }, none)

theorem taken_of_completes {d : Desk} (ht : d.session.tree.WellFormed) {token s : Text} {n : Node}
    (hw : Text.IsWord (token ++ s))
    (h : Completes d.session.tree d.session.cwd token s n) : Taken d (token ++ s) n := by
  cases n with
  | file f =>
    intro now
    have hfile : (echo d now (Verb.cat.line (token ++ s))).session.tree.file?
        (resolved (echo d now (Verb.cat.line (token ++ s))) (token ++ s)) = some f := h.file? ht
    rw [begin_line d now .cat hw, perform, read, hfile]
  | directory name path children =>
    have hdirectory := h.directory? ht
    refine ⟨?_, Path.resolve d.session.cwd (token ++ s), hdirectory, fun now => ?_⟩
    · have hwhole : token ++ s = (Completion.splitTyped token).1 ++ name ++ [Path.separator] := h.whole
      rw [hwhole, List.getLast?_concat]
    · have hthere : (echo d now (Verb.cd.line (token ++ s))).session.tree.directory?
          (resolved (echo d now (Verb.cd.line (token ++ s))) (token ++ s)) = some ⟨path, children⟩ :=
        hdirectory
      rw [begin_line d now .cd hw, perform, changeDirectory]
      simp only [hthere]
      rfl

/-- Whatever a shell has been through: where a token is typed behind a verb, written from the root or
not, and a suggestion without white space is accepted, a file that has been completed is read by
`cat` and a directory entered by `cd`. -/
theorem accepted_completion {d : Desk} (hd : d.Sound) {f : Floor}
    (hf : Floor.Reaches Host.Named ⟨d, []⟩ f) (typed : Verb)
    {token s : Text} (htoken : Text.IsWord token)
    (hs : Completion.suggest Verb.names f.desk.session.cwd (some f.desk.session.tree)
      (typed.line token) = s) (hword : Text.IsWord s) :
    ∃ n, child? f.desk.session.tree f.desk.session.cwd token = some n ∧
      Taken f.desk (token ++ s) n := by
  rw [Completion.suggest_line _ _ _ typed htoken.2] at hs
  obtain ⟨n, hn⟩ := Completion.completes_of_ofPath hs hword.1
  exact ⟨n, hn.child, taken_of_completes (hf.sound hd).tree (htoken.append hword) hn⟩

theorem accepted_completion_docs :
    let plan : File := ⟨"plan.md", "/docs/plan.md", some "x"⟩
    let tree : Tree := ⟨[.directory "docs" "/docs" [.file plan]]⟩
    let d := Desk.bare (Session.withoutHistory tree "1.0")
    let f := Floor.settle [] [] (begin d 0 "cd docs")
    Floor.Reaches Host.Named ⟨d, []⟩ f ∧
      Taken f.desk (("../do" : Text) ++ "cs/") (.directory "docs" "/docs" [.file plan]) ∧
      Taken f.desk (("p" : Text) ++ "lan.md") (.file plan) := by
  intro plan tree d f
  have hd : d.Sound := by
    refine ⟨HostPath.plain_ofText _, HostPath.plain_ofText _, ⟨nofun, nofun⟩, ?_⟩
    exact ⟨⟨by decide, rfl, ⟨by decide, rfl⟩, by simp, trivial⟩, by simp, trivial⟩
  have hf : Floor.Reaches Host.Named ⟨d, []⟩ f := .single (.line ⟨d, []⟩ 0 "cd docs")
  have hdo : Text.IsWord "../do" := ⟨by decide, by decide⟩
  have hcs : Text.IsWord "cs/" := ⟨by decide, by decide⟩
  have hp : Text.IsWord "p" := ⟨by decide, by decide⟩
  have hlan : Text.IsWord "lan.md" := ⟨by decide, by decide⟩
  refine ⟨hf, ?_, ?_⟩
  · have hsuggest : Completion.suggest Verb.names f.desk.session.cwd (some f.desk.session.tree)
        (Verb.cd.line "../do") = "cs/" := by decide +kernel
    have hchild : child? f.desk.session.tree f.desk.session.cwd "../do" =
        some (.directory "docs" "/docs" [.file plan]) := by decide +kernel
    obtain ⟨n, hn, htaken⟩ := accepted_completion hd hf .cd hdo hsuggest hcs
    obtain rfl := Option.some.inj (hn.symm.trans hchild)
    exact htaken
  · have hsuggest : Completion.suggest Verb.names f.desk.session.cwd (some f.desk.session.tree)
        (Verb.cat.line "p") = "lan.md" := by decide +kernel
    have hchild : child? f.desk.session.tree f.desk.session.cwd "p" = some (.file plan) := by
      decide +kernel
    obtain ⟨n, hn, htaken⟩ := accepted_completion hd hf .cat hp hsuggest hlan
    obtain rfl := Option.some.inj (hn.symm.trans hchild)
    exact htaken

/-- A name with white space comes in with a snapshot. It is suggested, and the line that is completed with
it is about another file, of which there is none. -/
theorem divided_completion :
    let file : File := ⟨"a b", "/a b", some "x"⟩
    let tree : Tree := ⟨[.directory "src" "/src" [], .file file]⟩
    let start := Desk.bare (Session.withoutHistory ⟨[]⟩ "1.0")
    let d := { start with host := { start.host with
      entries := [(["x"], .directory (.integer 0)),
        (["x", "s.json"], .file ((Snapshot.toBytes ⟨"1.0", .integer 0, tree, []⟩).toOption.getD [])
          (.integer 0) 0o644)] } }
    let e := (begin d 0 "load s.json").1.desk
    let s := Completion.suggest Verb.names e.session.cwd (some e.session.tree) (Verb.cat.line "a")
    let a := (begin e 0 (Verb.cat.line ("a" ++ s))).1
    Floor.Reaches Host.Named ⟨d, []⟩ ⟨e, []⟩ ∧ s ≠ [] ∧
      child? e.session.tree e.session.cwd "a" = some (.file file) ∧
      e.session.tree.file? file.path = some file ∧
      a.said.map Line.text = (["cat a b", "cat: not found: a"] : List Text) ∧
      a.session.activeFile = none := by
  intro file tree start d e s a
  have hload : isLoad "load s.json" = true := by decide
  have hstep : Floor.Step Host.Named ⟨d, []⟩ ⟨e, []⟩ := by
    have h := @Floor.Step.line Host.Named ⟨d, []⟩ 0 "load s.json"
    rwa [begin_of_isLoad hload] at h
  refine ⟨.single hstep, ?_⟩
  decide +kernel

end Shell

end ThreatDesk
