import ThreatDesk.Proofs.Shell.Contents
import ThreatDesk.Proofs.Shell.Loading
import ThreatDesk.Proofs.Json.Reading

/-!
# What a tool call can do

A call that names its tool by a text and its arguments in an object is answered, whatever the text and the
object (`ToolCall.confined`), and leaves the tree as it is unless it is a complete call to write. Main
statement: the tools do what the verbs of the shell do at the root (`toolCalls_agree`).
-/

namespace ThreatDesk

open Text (IsWord)

theorem Fault.textsFrom_texts (index : Nat) (texts : List Text) :
    textsFrom index (texts.map Json.text) = .ok texts := by
  induction texts generalizing index with
  | nil => rfl
  | cons t texts ih =>
    rw [List.map_cons, textsFrom, ih]
    rfl

theorem Json.Fields.isSome_get?_iff {name : Text} {fields : Json.Fields} :
    (get? name fields).isSome = true ↔ name ∈ fields.map Prod.fst := by
  induction fields with
  | nil => simp [get?]
  | cons f fields ih =>
    obtain ⟨k, v⟩ := f
    rw [get?, List.map_cons, List.mem_cons]
    split
    · next hk => simp [hk]
    · next hk => rw [ih, or_iff_right (Ne.symm hk)]

namespace TreeTool

variable {tool : TreeTool} {fields : Json.Fields}

/-! ## Arguments -/

/-- What a tool goes by: texts, each under a name that it knows, and all that it needs. -/
structure Accepts (tool : TreeTool) (fields : Json.Fields) : Prop where
  texts : ∀ f ∈ fields, ∃ t, f.2 = .text t
  known : ∀ f ∈ fields, f.1 ∈ tool.parameters
  enough : ∀ p ∈ tool.required, p ∈ fields.map Prod.fst

theorem mismatch?_eq_none_iff : tool.mismatch? fields = none ↔
    (∀ f ∈ fields, f.1 ∈ tool.parameters) ∧ ∀ p ∈ tool.required, p ∈ fields.map Prod.fst := by
  unfold mismatch?
  split
  · next k v hfound =>
    have hunknown : k ∉ tool.parameters := by simpa using List.find?_some hfound
    refine ⟨fun h => by simp at h, fun h => ?_⟩
    exact absurd (h.1 _ (List.mem_of_find?_eq_some hfound)) hunknown
  · next hknown =>
    have hknown : ∀ f ∈ fields, f.1 ∈ tool.parameters := by
      simpa using List.find?_eq_none.1 hknown
    have hmissing : (tool.required.filter fun p => (Json.Fields.get? p fields).isNone) = [] ↔
        ∀ p ∈ tool.required, p ∈ fields.map Prod.fst := by
      simp only [List.filter_eq_nil_iff, Bool.not_eq_true, Option.isNone_eq_false_iff,
        Json.Fields.isSome_get?_iff]
    rw [and_iff_right hknown, ← hmissing, ← List.isEmpty_iff]
    simp only [ite_eq_left_iff, reduceCtorEq, imp_false, not_not]

theorem notTexts_ofFields (fields : Json.Fields) :
    (Arguments.ofFields fields).notTexts =
      ((fields.filter fun f => f.2.text?.isNone).map Prod.fst).map Json.Atom.text := by
  rw [Arguments.notTexts, Arguments.ofFields, List.filter_map, List.map_map, List.map_map]
  rfl

theorem accept_ofFields (tool : TreeTool) (fields : Json.Fields) :
    (tool.accept (.ofFields fields) = .ok (.ok fields) ∧ tool.Accepts fields) ∨
      (∃ m, tool.accept (.ofFields fields) = .ok (.error m)) ∧ ¬ tool.Accepts fields := by
  have hnames : (Arguments.ofFields fields).notTexts.map Json.Atom.toJson =
      ((fields.filter fun f => f.2.text?.isNone).map Prod.fst).map Json.text := by
    rw [notTexts_ofFields, List.map_map]
    rfl
  unfold accept
  rw [hnames, Fault.textsFrom_texts]
  cases hbad : (fields.filter fun f => f.2.text?.isNone).map Prod.fst with
  | cons name names =>
    refine .inr ⟨⟨_, rfl⟩, fun h => ?_⟩
    have hnone : (fields.filter fun f => f.2.text?.isNone) = [] := by
      rw [List.filter_eq_nil_iff]
      intro f hf
      obtain ⟨t, ht⟩ := h.texts f hf
      rw [ht]
      simp [Json.text?]
    rw [hnone] at hbad
    simp at hbad
  | nil =>
    have htexts : ∀ f ∈ fields, ∃ t, f.2 = .text t := by
      rw [List.map_eq_nil_iff, List.filter_eq_nil_iff] at hbad
      intro f hf
      have hf := hbad f hf
      cases hv : f.2 with
      | text t => exact ⟨t, rfl⟩
      | _ => simp [hv, Json.text?] at hf
    simp only [Arguments.fields?_ofFields]
    split
    · next m hm =>
      refine .inr ⟨⟨m, rfl⟩, fun h => ?_⟩
      rw [mismatch?_eq_none_iff.2 ⟨h.known, h.enough⟩] at hm
      cases hm
    · next hm =>
      obtain ⟨hknown, henough⟩ := mismatch?_eq_none_iff.1 hm
      exact .inl ⟨rfl, htexts, hknown, henough⟩

/-- The fields of a write: a path and a content, both texts, and nothing else. -/
structure Filled (fields : Json.Fields) (path content : Text) : Prop where
  names : ∀ k, k ∈ fields.map Prod.fst ↔ k = "path" ∨ k = "content"
  texts : ∀ f ∈ fields, ∃ t, f.2 = .text t
  path : Json.Fields.get? "path" fields = some (.text path)
  content : Json.Fields.get? "content" fields = some (.text content)

theorem Filled.accepts {path content : Text} (h : Filled fields path content) :
    write.Accepts fields where
  texts := h.texts
  known := by
    intro f hf
    have hname := (h.names f.1).1 (List.mem_map_of_mem hf)
    simpa [parameters] using hname
  enough := by
    intro p hp
    have hp : p = "path" ∨ p = "content" := by simpa [required] using hp
    exact (h.names p).2 hp

theorem Accepts.get? (h : tool.Accepts fields) {p : Text} (hp : p ∈ tool.required) :
    ∃ t, Json.Fields.get? p fields = some (.text t) := by
  obtain ⟨v, hv⟩ := Option.isSome_iff_exists.1 (Json.Fields.isSome_get?_iff.2 (h.enough p hp))
  obtain ⟨k, hk⟩ := Json.Fields.mem_of_get? hv
  obtain ⟨t, ht⟩ := h.texts _ hk
  exact ⟨t, by rw [hv, show v = .text t from ht]⟩

theorem Accepts.filled (h : write.Accepts fields) : ∃ path content, Filled fields path content := by
  obtain ⟨path, hpath⟩ := h.get? (p := "path") (by decide)
  obtain ⟨content, hcontent⟩ := h.get? (p := "content") (by decide)
  refine ⟨path, content, fun k => ⟨fun hk => ?_, fun hk => ?_⟩, h.texts, hpath, hcontent⟩
  · obtain ⟨f, hf, rfl⟩ := List.mem_map.1 hk
    simpa [parameters] using h.known f hf
  · exact h.enough k (by simpa [required] using hk)

/-! ## Calls -/

theorem apply_filled {path content : Text} (h : Filled fields path content) (t : Tree) :
    write.apply t fields = writing t path content := by
  have hpath : argument fields "path" [] = path := by
    rw [argument, h.path]
    rfl
  have hcontent : argument fields "content" [] = content := by
    rw [argument, h.content]
    rfl
  rw [apply, hpath, hcontent]

theorem tree_apply (h : tool ≠ .write) (t : Tree) (fields : Json.Fields) :
    (tool.apply t fields).1 = t := by
  cases tool with
  | list => rfl
  | read => rfl
  | write => exact absurd rfl h

theorem call_accepted {input : Arguments} (h : tool.accept input = .ok (.ok fields)) (t : Tree) :
    tool.call t input = ((tool.apply t fields).1, .ok (tool.apply t fields).2) := by
  rw [call, h]

theorem call_refused {input : Arguments} {m : Mismatch} (h : tool.accept input = .ok (.error m))
    (t : Tree) : tool.call t input =
      (t, .ok ("Error: Bad arguments for " ++ tool.name ++ ": " ++ m.message tool)) := by
  rw [call, h]

theorem name_of_ofName? {name : Text} (h : ofName? name = some tool) : tool.name = name := by
  simpa using List.find?_some h

theorem name_injective {s t : TreeTool} (h : s.name = t.name) : s = t :=
  Option.some.inj ((ofName?_name s).symm.trans ((congrArg ofName? h).trans (ofName?_name t)))

end TreeTool

namespace ToolCall

open TreeTool (Filled)

/-- What a call comes to, with the tool and the arguments that it names, on a tree. -/
structure Confined (call : ToolCall) (name : Text) (fields : Json.Fields) (t : Tree) : Prop where
  answered : ∃ answer, (call.run t).2 = .ok answer
  written : ∀ path content, name = TreeTool.write.name → Filled fields path content →
    (call.run t).1 = (t.write (Path.resolve Path.root path) content).1
  kept : (¬ ∃ path content, name = TreeTool.write.name ∧ Filled fields path content) →
    (call.run t).1 = t

theorem run_unknown {name : Text} (h : TreeTool.ofName? name = none) (input : Arguments) (id : Json)
    (t : Tree) :
    ToolCall.run ⟨.text name, input, id⟩ t =
      (t, .ok ("Error: Unknown tool " ++ (Json.text name).shown)) := by
  simp only [ToolCall.run, Json.atom?, Json.Atom.text?, Option.bind_some, h]

theorem run_known {name : Text} {tool : TreeTool} (h : TreeTool.ofName? name = some tool)
    (input : Arguments) (id : Json) (t : Tree) :
    ToolCall.run ⟨.text name, input, id⟩ t = tool.call t input := by
  simp only [ToolCall.run, Json.atom?, Json.Atom.text?, Option.bind_some, h]

theorem confined (name : Text) (fields : Json.Fields) (id : Json) (t : Tree) :
    Confined ⟨.text name, .ofFields fields, id⟩ name fields t := by
  cases hname : TreeTool.ofName? name with
  | none =>
    have hrun := run_unknown hname (.ofFields fields) id t
    refine ⟨⟨_, congrArg Prod.snd hrun⟩, ?_, fun _ => congrArg Prod.fst hrun⟩
    rintro path content rfl
    rw [TreeTool.ofName?_name] at hname
    cases hname
  | some tool =>
    obtain rfl := TreeTool.name_of_ofName? hname
    have hrun := run_known hname (.ofFields fields) id t
    rcases TreeTool.accept_ofFields tool fields with ⟨haccept, hfields⟩ | ⟨⟨m, haccept⟩, hfields⟩
    · rw [TreeTool.call_accepted haccept] at hrun
      refine ⟨⟨_, congrArg Prod.snd hrun⟩, ?_, ?_⟩
      · intro path content hwrite hfilled
        obtain rfl := TreeTool.name_injective hwrite
        rw [hrun, TreeTool.apply_filled hfilled]
        rfl
      · intro hother
        refine (congrArg Prod.fst hrun).trans (TreeTool.tree_apply ?_ t fields)
        rintro rfl
        obtain ⟨path, content, hfilled⟩ := hfields.filled
        exact hother ⟨path, content, rfl, hfilled⟩
    · rw [TreeTool.call_refused haccept] at hrun
      refine ⟨⟨_, congrArg Prod.snd hrun⟩, ?_, fun _ => congrArg Prod.fst hrun⟩
      intro path content hwrite hfilled
      obtain rfl := TreeTool.name_injective hwrite
      exact absurd hfilled.accepts hfields

end ToolCall

namespace Shell

open TreeTool (Filled)

/-! ## The verbs of the shell -/

/-- The calls that stand for the lines with a path, and with a content to write there. -/
structure Agreement (d : Desk) (now : Int) (path content : Text) : Prop where
  write : ((ToolCall.named TreeTool.write.name
      [("path", .text path), ("content", .text content)]).run d.session.tree).1 =
    (begin d now (Verb.write.line (path ++ " \"" ++ content ++ "\""))).1.session.tree
  /-- Reading says what is read after a title. -/
  read : (∀ l ∈ (begin d now (Verb.cat.line path)).1.said, l.kind ≠ .error) → ∃ title text,
    (begin d now (Verb.cat.line path)).1.said.map shown =
      [(.input, Verb.cat.line path), (.success, title), (.output, text)] ∧
    (ToolCall.named TreeTool.read.name [("path", .text path)]).run d.session.tree =
      (d.session.tree, .ok text)
  /-- Listing says the entries, and the tool names the directory before them. -/
  list : (∀ l ∈ (begin d now (Verb.ls.line path)).1.said, l.kind ≠ .error) → ∃ entries,
    (begin d now (Verb.ls.line path)).1.said.map shown =
      (.input, Verb.ls.line path) :: entries.map (.output, ·) ∧
    (ToolCall.named TreeTool.list.name [("path", .text path)]).run d.session.tree =
      (d.session.tree, .ok ("Files in " ++ Path.resolve Path.root path ++ ":\n" ++
        Text.intercalate "\n" entries))

theorem filled_write (path content : Text) :
    Filled [("path", .text path), ("content", .text content)] path content where
  names := by simp
  texts := by simp
  path := rfl
  content := rfl

theorem tree_write (a : Answer) (raw word : Text) (args : List Text) :
    (write a raw (word :: args)).session.tree =
      (a.session.tree.write (resolved a word) (raw.argument 2)).1 := by
  have hkept (o : Tree.WriteOutcome) (ho : o ≠ .written) {tree : Tree}
      (hw : a.session.tree.write (resolved a word) (raw.argument 2) = (tree, o)) :
      a.session.tree = tree := by
    rw [Tree.write_eq] at hw
    split at hw
    · exact absurd (Prod.mk.inj hw).2.symm ho
    · exact (Prod.mk.inj hw).1
  rw [write]
  split
  · next tree hw =>
    rw [hw]
    rfl
  all_goals
    next tree hw =>
    rw [hw]
    exact hkept _ (by simp) hw

theorem run_read (t : Tree) (path : Text) :
    (ToolCall.named TreeTool.read.name [("path", .text path)]).run t =
      (t, .ok (TreeTool.reading t path)) := by
  rw [ToolCall.named, ToolCall.run_known (TreeTool.ofName?_name .read)]
  rfl

theorem run_list (t : Tree) (path : Text) :
    (ToolCall.named TreeTool.list.name [("path", .text path)]).run t =
      (t, .ok (TreeTool.listing t path)) := by
  rw [ToolCall.named, ToolCall.run_known (TreeTool.ofName?_name .list)]
  rfl

theorem agreement {d : Desk} (hcwd : d.session.cwd = Path.root) (now : Int) {path : Text}
    (hpath : IsWord path) (content : Text) : Agreement d now path content := by
  have hresolved (raw : Text) : resolved (echo d now raw) path = Path.resolve Path.root path :=
    congrArg (Path.resolve · path) hcwd
  have htree (raw : Text) : (echo d now raw).session.tree = d.session.tree := rfl
  have hcomplains {a : Answer} {text : Text} (h : ∀ l ∈ (a.error text).said, l.kind ≠ .error) : False :=
    h _ (List.mem_append_right _ (List.mem_singleton_self _)) rfl
  constructor
  case write =>
    have hwrites : Writes path content _ := .quoted
    obtain ⟨args, hbegin⟩ := begin_of_writes hwrites hpath d now
    rw [hbegin, tree_write, hwrites.argument hpath, hresolved]
    exact (ToolCall.confined TreeTool.write.name _ _ d.session.tree).written path content rfl
      (filled_write path content)
  case read =>
    intro h
    rw [begin_line d now .cat hpath, perform, read, hresolved, htree] at h ⊢
    rw [run_read, TreeTool.reading]
    cases hf : d.session.tree.file? (Path.resolve Path.root path) with
    | none =>
      rw [hf] at h
      exact (hcomplains h).elim
    | some f => exact ⟨"READING " ++ f.name ++ "...", f.text, rfl, rfl⟩
  case list =>
    intro h
    rw [begin_line d now .ls hpath, perform, list] at h ⊢
    simp only [hresolved, htree] at h ⊢
    rw [run_list, TreeTool.listing]
    cases hc : d.session.tree.directory? (Path.resolve Path.root path) with
    | none =>
      rw [hc] at h
      exact (hcomplains h).elim
    | some c => exact ⟨c.listing, shown_sayAll .., rfl⟩

theorem tree_runCalls_singleton (t : Tree) (call : ToolCall) :
    (Exchange.runCalls t [call]).1 = (call.run t).1 := by
  simp only [Exchange.runCalls]
  split
  · next hrun => rw [hrun]
  · next hrun => rw [hrun]

/-- Whatever a call names and whatever it says, it is answered, and does nothing to a session but write
to its tree, if it is a complete call to write. What the tools do and tell is what the verbs of the shell
do and say at the root. -/
theorem toolCalls_agree (a : Answer) :
    (∀ name fields id,
      ToolCall.Confined ⟨.text name, .ofFields fields, id⟩ name fields a.session.tree) ∧
    (∀ e call text model, (exchanged a e ⟨text, [call], model⟩).session =
      { a.session with tree := (call.run a.session.tree).1 }) ∧
    (a.session.cwd = Path.root →
      ∀ now path content, IsWord path → Agreement a.desk now path content) := by
  refine ⟨?_, ?_, ?_⟩
  · intro name fields id
    exact ToolCall.confined name fields id a.session.tree
  · intro e call text model
    rw [← tree_runCalls_singleton]
    rfl
  · intro hcwd now path content hpath
    exact agreement hcwd now hpath content

theorem toolCalls_agree_notes :
    let a := (Desk.bare (Session.withoutHistory Baseline.initialTree "1.0")).silent 0
    a.session.cwd = Path.root ∧ IsWord "src/notes.txt" ∧
      Agreement a.desk 0 "src/notes.txt" "two\n\"words\"" := by
  intro a
  have hword : IsWord "src/notes.txt" := ⟨by decide, by decide⟩
  exact ⟨rfl, hword, (toolCalls_agree a).2.2 rfl 0 "src/notes.txt" "two\n\"words\"" hword⟩

end Shell

end ThreatDesk
