import ThreatDesk.Proofs.Snapshot.Parts
import ThreatDesk.Proofs.Tree.Collect
import Mathlib.Data.List.Forall2

/-!
# The schema of snapshots

What a snapshot must be is said of JSON values alone (`IsSnapshot`), and so is what its nodes and lines
are read as (`Reads`, `ReadsLine`): of the items of one name the last one counts, at the position of the
first. Just such nodes and lines are read (`exists_nodeOf_iff`, `exists_linesOf_iff`), and as that
(`reads_nodeOf`, `lineOf_eq_ok_iff`).
-/

namespace ThreatDesk

namespace Snapshot

open Json.Fields (get?)

/-! ## The schema -/

/-- A node: an object with a name that may be one, and either the type of a file and no content other
than text, or the type of a directory and children, if it has any, that are nodes themselves. -/
inductive IsNode : Json → Prop
  | file {fields : Json.Fields} {name : Text} (hname : get? "name" fields = some (.text name))
      (hvalid : Path.isName name = true) (htype : get? "type" fields = some (.text "file"))
      (hcontent : get? "content" fields = none ∨ get? "content" fields = some .null ∨
        ∃ t, get? "content" fields = some (.text t)) : IsNode (.object fields)
  | empty {fields : Json.Fields} {name : Text} (hname : get? "name" fields = some (.text name))
      (hvalid : Path.isName name = true) (htype : get? "type" fields = some (.text "directory"))
      (hchildren : get? "children" fields = none) : IsNode (.object fields)
  | directory {fields : Json.Fields} {name : Text} {items : List Json}
      (hname : get? "name" fields = some (.text name)) (hvalid : Path.isName name = true)
      (htype : get? "type" fields = some (.text "directory"))
      (hchildren : get? "children" fields = some (.array items))
      (hitems : ∀ item ∈ items, IsNode item) : IsNode (.object fields)

/-- A line: an object with one of the kinds, a text or an integer to identify it, a text and a time. -/
def IsLine (v : Json) : Prop :=
  ∃ fields, v = .object fields ∧
    (∃ kind : LineKind, get? "type" fields = some (.text kind.toText)) ∧
    ((∃ t, get? "id" fields = some (.text t)) ∨
      ∃ n : Int, get? "id" fields = some (.number (.integer n))) ∧
    (∃ t, get? "text" fields = some (.text t)) ∧
    ∃ n, get? "timestamp" fields = some (.number n)

/-- A snapshot: an object with a version that can be bumped, a time, nodes and lines. -/
def IsSnapshot (v : Json) : Prop :=
  ∃ fields, v = .object fields ∧
    (∃ version, get? "version" fields = some (.text version) ∧
      (Version.bump? version).isSome = true) ∧
    (∃ n, get? "timestamp" fields = some (.number n)) ∧
    (∃ files, get? "files" fields = some (.array files) ∧ ∀ item ∈ files, IsNode item) ∧
    ∃ lines, get? "terminalLines" fields = some (.array lines) ∧ ∀ item ∈ lines, IsLine item

/-! ## What is read -/

def nameOf? : Json → Option Text
  | .object fields => (get? "name" fields).bind Json.text?
  | _ => none

def itemsOf (fields : Json.Fields) : List Json :=
  ((get? "children" fields).bind array?).getD []

def IsLast (items : List Json) (name : Text) (item : Json) : Prop :=
  ∃ before after, items = before ++ item :: after ∧ nameOf? item = some name ∧
    ∀ x ∈ after, nameOf? x ≠ some name

mutual

/-- The node that an item stands for under the directory at `parent`. -/
inductive Reads : Text → Json → Node → Prop
  | file {parent name : Text} {fields : Json.Fields}
      (hname : get? "name" fields = some (.text name))
      (htype : get? "type" fields = some (.text "file")) :
      Reads parent (.object fields)
        (.file ⟨name, Path.join parent name, (get? "content" fields).bind Json.text?⟩)
  | directory {parent name : Text} {fields : Json.Fields} {children : List Node}
      (hname : get? "name" fields = some (.text name))
      (htype : get? "type" fields = some (.text "directory"))
      (hchildren : ReadsAll (Path.join parent name) (itemsOf fields) children) :
      Reads parent (.object fields) (.directory name (Path.join parent name) children)

/-- The children of the directory at `parent` that items stand for: one of each name, at the position
of the first item of the name, and read from the last one, which is its `source`. -/
inductive ReadsAll : Text → List Json → List Node → Prop
  | intro {parent : Text} {items : List Json} {nodes : List Node} (source : Node → Json)
      (horder : nodes.map Node.name = (items.filterMap nameOf?).eraseDups)
      (hlast : ∀ n ∈ nodes, IsLast items n.name (source n))
      (hreads : ∀ n ∈ nodes, Reads parent (source n) n) : ReadsAll parent items nodes

end

/-! ## Fields -/

theorem field_eq_ok_iff {α : Type} {convert : Json → Option α} {fields : Json.Fields}
    {name place : Text} {a : α} :
    field convert fields name place = .ok a ↔
      ∃ v, get? name fields = some v ∧ convert v = some a := by
  refine ⟨eq_ok_of_field, ?_⟩
  rintro ⟨v, hv, ha⟩
  rw [field, hv]
  simp only [ha]

theorem text_eq_ok_iff {fields : Json.Fields} {name place t : Text} :
    field Json.text? fields name place = .ok t ↔ get? name fields = some (.text t) :=
  ⟨get?_of_text, fun h => field_eq_ok_iff.2 ⟨_, h, rfl⟩⟩

theorem number_eq_ok_iff {fields : Json.Fields} {name place : Text} {n : Number} :
    field number? fields name place = .ok n ↔ get? name fields = some (.number n) :=
  ⟨get?_of_number, fun h => field_eq_ok_iff.2 ⟨_, h, rfl⟩⟩

theorem array_eq_ok_iff {fields : Json.Fields} {name place : Text} {items : List Json} :
    field array? fields name place = .ok items ↔ get? name fields = some (.array items) :=
  ⟨get?_of_array, fun h => field_eq_ok_iff.2 ⟨_, h, rfl⟩⟩

theorem content_eq_ok_iff {fields : Json.Fields} {place : Text} {c : Option Text} :
    content fields place = .ok c ↔
      (get? "content" fields = none ∨ get? "content" fields = some .null ∨
        ∃ t, get? "content" fields = some (.text t)) ∧
      c = (get? "content" fields).bind Json.text? := by
  rw [content]
  cases hc : get? "content" fields with
  | none => simp [eq_comm]
  | some v => cases v <;> simp [Json.text?, eq_comm]

/-! ## Nodes -/

def directoryOf (place name : Text) : Option Json → Except Fault Node
  | none => .ok (Node.newDirectory name [])
  | some (.array items) =>
    (nodesOf place (Path.join Path.root name) [] items).map fun children =>
      .directory name (Path.join Path.root name) children
  | some _ => .error (.wrongType place "children")

theorem nodeOf_object (place : Text) (fields : Json.Fields) :
    nodeOf place (.object fields) =
      match field Json.text? fields "name" place with
      | .error fault => .error fault
      | .ok name =>
        if !Path.isName name then .error (.invalidName place name)
        else
          match field Json.text? fields "type" place with
          | .error fault => .error fault
          | .ok kind =>
            if kind = "file" then
              (content fields (place ++ "/" ++ name)).map (Node.newFile name)
            else if kind = "directory" then
              directoryOf (place ++ "/" ++ name) name (get? "children" fields)
            else .error (.unknownNodeType (place ++ "/" ++ name) kind) := by
  rw [nodeOf]
  cases field Json.text? fields "name" place with
  | error fault => rfl
  | ok name =>
    dsimp only
    by_cases hn : (!Path.isName name) = true
    · rw [if_pos hn, if_pos hn]
    · rw [if_neg hn, if_neg hn]
      cases field Json.text? fields "type" place with
      | error fault => rfl
      | ok kind =>
        dsimp only
        congr 1
        congr 1
        split
        · next h => rw [h]; rfl
        · next items h => rw [h]; rfl
        · next v hno h =>
          rw [h]
          cases v with
          | array items => exact absurd rfl (hno items)
          | null | bool | number | text | object => rfl

theorem nodeOf_object_eq_ok_iff {place : Text} {fields : Json.Fields} {n : Node} :
    nodeOf place (.object fields) = .ok n ↔
      ∃ name, get? "name" fields = some (.text name) ∧ Path.isName name = true ∧
        ((get? "type" fields = some (.text "file") ∧
          ∃ c, content fields (place ++ "/" ++ name) = .ok c ∧ n = Node.newFile name c) ∨
        (get? "type" fields = some (.text "directory") ∧
          directoryOf (place ++ "/" ++ name) name (get? "children" fields) = .ok n)) := by
  rw [nodeOf_object]
  constructor
  · intro h
    split at h
    · cases h
    · next name hname =>
      split at h
      · cases h
      · next hn =>
        rw [Bool.not_eq_true', Bool.not_eq_false] at hn
        refine ⟨name, get?_of_text hname, hn, ?_⟩
        split at h
        · cases h
        · next kind hkind =>
          have htype := get?_of_text hkind
          split at h
          · next hfile =>
            obtain ⟨c, hc, hcn⟩ := exists_of_map_ok h
            exact .inl ⟨hfile ▸ htype, c, hc, hcn.symm⟩
          · split at h
            · next hdirectory => exact .inr ⟨hdirectory ▸ htype, h⟩
            · cases h
  · rintro ⟨name, hname, hn, hkind⟩
    have hnot : ¬ (!Path.isName name) = true := by simp [hn]
    rw [text_eq_ok_iff.2 hname]
    dsimp only
    rw [if_neg hnot]
    rcases hkind with ⟨htype, c, hc, rfl⟩ | ⟨htype, hd⟩
    · rw [text_eq_ok_iff.2 htype]
      dsimp only
      rw [if_pos rfl, hc]
      rfl
    · rw [text_eq_ok_iff.2 htype]
      dsimp only
      rw [if_neg (by decide), if_pos rfl]
      exact hd

theorem nameOf?_of_nodeOf {place : Text} {v : Json} {n : Node} (h : nodeOf place v = .ok n) :
    nameOf? v = some n.name := by
  obtain ⟨fields, name, rfl, hname, -, hn⟩ := nodeOf_cases h
  have hv : nameOf? (.object fields) = some name := by
    rw [nameOf?, hname]
    rfl
  rcases hn with ⟨text, -, rfl⟩ | rfl | ⟨items, children, -, -, rfl⟩
  · exact hv
  · exact hv
  · exact hv

theorem node_induction {P : Json → Prop}
    (step : ∀ v, (∀ fields items, v = .object fields →
      get? "children" fields = some (.array items) → ∀ item ∈ items, P item) → P v)
    (v : Json) : P v := by
  refine step v ?_
  rintro fields items rfl hget item hitem
  have hlt : sizeOf item < sizeOf (Json.object fields) :=
    Nat.lt_trans (List.sizeOf_lt_of_mem hitem) (sizeOf_items hget)
  exact node_induction step item
termination_by sizeOf v
decreasing_by
  subst_vars
  exact hlt

/-- Reading children reads every item, and puts what it stands for among the others. -/
theorem nodesOf_eq_ok_iff {place parent : Text} {read nodes : List Node} {items : List Json} :
    nodesOf place parent read items = .ok nodes ↔
      ∃ pairs : List (Json × Node), pairs.map Prod.fst = items ∧
        (∀ p ∈ pairs, nodeOf place p.1 = .ok p.2) ∧
        nodes = (pairs.map Prod.snd).foldl (fun read n => Nodes.upsert parent n read) read := by
  induction items generalizing read with
  | nil =>
    rw [nodesOf]
    constructor
    · intro h
      exact ⟨[], rfl, List.forall_mem_nil _, (Except.ok.inj h).symm⟩
    · rintro ⟨pairs, hpairs, -, rfl⟩
      rw [List.map_eq_nil_iff.1 hpairs]
      rfl
  | cons item items ih =>
    rw [nodesOf]
    cases hitem : nodeOf place item with
    | error fault =>
      refine iff_of_false (fun h => by cases h) ?_
      rintro ⟨pairs, hpairs, hread, -⟩
      obtain ⟨p, ps, rfl, rfl, -⟩ := List.map_eq_cons_iff.1 hpairs
      exact absurd (hitem.symm.trans (hread p List.mem_cons_self)) (by simp)
    | ok node =>
      refine ih.trans ⟨?_, ?_⟩
      · rintro ⟨pairs, hpairs, hread, hnodes⟩
        exact ⟨(item, node) :: pairs, congrArg _ hpairs, List.forall_mem_cons.2 ⟨hitem, hread⟩, hnodes⟩
      · rintro ⟨pairs, hpairs, hread, hnodes⟩
        obtain ⟨p, ps, rfl, rfl, rfl⟩ := List.map_eq_cons_iff.1 hpairs
        obtain ⟨hp, hps⟩ := List.forall_mem_cons.1 hread
        obtain rfl := Except.ok.inj (hitem.symm.trans hp)
        exact ⟨ps, rfl, hps, hnodes⟩

theorem exists_nodesOf_iff {items : List Json} (place parent : Text) (read : List Node) :
    (∃ nodes, nodesOf place parent read items = .ok nodes) ↔
      ∀ item ∈ items, ∃ n, nodeOf place item = .ok n := by
  constructor
  · rintro ⟨nodes, h⟩ item hitem
    obtain ⟨pairs, rfl, hread, -⟩ := nodesOf_eq_ok_iff.1 h
    obtain ⟨p, hp, rfl⟩ := List.mem_map.1 hitem
    exact ⟨p.2, hread p hp⟩
  · intro h
    induction items generalizing read with
    | nil => exact ⟨read, by rw [nodesOf]⟩
    | cons item items ih =>
      obtain ⟨⟨n, hn⟩, hitems⟩ := List.forall_mem_cons.1 h
      rw [nodesOf, hn]
      exact ih _ hitems

theorem exists_directoryOf_iff {place name : Text} {field : Option Json} :
    (∃ n, directoryOf place name field = .ok n) ↔
      field = none ∨ ∃ items, field = some (.array items) ∧
        ∀ item ∈ items, ∃ n, nodeOf place item = .ok n := by
  cases field with
  | none => exact iff_of_true ⟨_, rfl⟩ (.inl rfl)
  | some v =>
    cases v with
    | array items =>
      rw [directoryOf]
      constructor
      · rintro ⟨n, hn⟩
        obtain ⟨children, hchildren, -⟩ := exists_of_map_ok hn
        exact .inr ⟨items, rfl, (exists_nodesOf_iff _ _ _).1 ⟨children, hchildren⟩⟩
      · rintro (h | ⟨items, h, hitems⟩)
        · exact nomatch h
        · obtain rfl := Json.array.inj (Option.some.inj h)
          obtain ⟨children, hchildren⟩ := (exists_nodesOf_iff place (Path.join Path.root name) []).2 hitems
          exact ⟨_, by rw [hchildren]; rfl⟩
    | null | bool | number | text | object =>
      exact iff_of_false (fun ⟨_, h⟩ => nomatch h) (by simp)

theorem exists_nodeOf_iff (v : Json) : ∀ place, (∃ n, nodeOf place v = .ok n) ↔ IsNode v := by
  induction v using node_induction with
  | step v ih =>
    intro place
    constructor
    · rintro ⟨n, hn⟩
      cases v with
      | object fields =>
        obtain ⟨name, hname, hvalid, ⟨htype, c, hc, -⟩ | ⟨htype, hd⟩⟩ :=
          nodeOf_object_eq_ok_iff.1 hn
        · exact .file hname hvalid htype (content_eq_ok_iff.1 hc).1
        · rcases exists_directoryOf_iff.1 ⟨n, hd⟩ with hnone | ⟨items, hitems, hread⟩
          · exact .empty hname hvalid htype hnone
          · refine .directory hname hvalid htype hitems fun item hitem => ?_
            exact (ih fields items rfl hitems item hitem _).1 (hread item hitem)
      | null | bool | number | text | array => exact absurd hn (by simp [nodeOf])
    · intro h
      cases h with
      | file hname hvalid htype hcontent =>
        exact ⟨_, nodeOf_object_eq_ok_iff.2
          ⟨_, hname, hvalid, .inl ⟨htype, _, content_eq_ok_iff.2 ⟨hcontent, rfl⟩, rfl⟩⟩⟩
      | empty hname hvalid htype hchildren =>
        obtain ⟨n, hn⟩ := exists_directoryOf_iff.2 (.inl hchildren)
        exact ⟨n, nodeOf_object_eq_ok_iff.2 ⟨_, hname, hvalid, .inr ⟨htype, hn⟩⟩⟩
      | directory hname hvalid htype hchildren hitems =>
        obtain ⟨n, hn⟩ := exists_directoryOf_iff.2 (.inr ⟨_, hchildren, fun item hitem =>
          (ih _ _ rfl hchildren item hitem _).2 (hitems item hitem)⟩)
        exact ⟨n, nodeOf_object_eq_ok_iff.2 ⟨_, hname, hvalid, .inr ⟨htype, hn⟩⟩⟩

theorem filterMap_nameOf? {place : Text} {pairs : List (Json × Node)}
    (h : ∀ p ∈ pairs, nodeOf place p.1 = .ok p.2) :
    (pairs.map Prod.fst).filterMap nameOf? = (pairs.map Prod.snd).map Node.name := by
  induction pairs with
  | nil => rfl
  | cons p ps ih =>
    obtain ⟨hp, hps⟩ := List.forall_mem_cons.1 h
    rw [List.map_cons, List.filterMap_cons_some (nameOf?_of_nodeOf hp), ih hps]
    rfl

theorem exists_source {place parent : Text} {pairs : List (Json × Node)}
    (h : ∀ p ∈ pairs, nodeOf place p.1 = .ok p.2) {m : Node}
    (hm : m ∈ Nodes.collect parent (pairs.map Prod.snd)) :
    ∃ p ∈ pairs, IsLast (pairs.map Prod.fst) m.name p.1 ∧ m = p.2.rebase parent := by
  obtain ⟨before, n, after, heq, rfl, hafter⟩ := Nodes.mem_collect hm
  obtain ⟨ps, rest, rfl, -, hrest⟩ := List.map_eq_append_iff.1 heq
  obtain ⟨p, qs, rfl, rfl, rfl⟩ := List.map_eq_cons_iff.1 hrest
  have hp : p ∈ ps ++ p :: qs := List.mem_append_right ps List.mem_cons_self
  refine ⟨p, hp, ⟨ps.map Prod.fst, qs.map Prod.fst, List.map_append, ?_, ?_⟩, rfl⟩
  · rw [p.2.name_rebase]
    exact nameOf?_of_nodeOf (h p hp)
  · intro x hx hname
    obtain ⟨q, hq, rfl⟩ := List.mem_map.1 hx
    have hread := h q (List.mem_append_right ps (List.mem_cons_of_mem p hq))
    rw [p.2.name_rebase, nameOf?_of_nodeOf hread] at hname
    exact hafter q.2 (List.mem_map_of_mem hq) (Option.some.inj hname)

theorem readsAll_of_nodesOf {place p : Text} {items : List Json} {nodes : List Node}
    (hreads : ∀ item ∈ items, ∀ n, nodeOf place item = .ok n →
      ∀ parent, Reads parent item (n.rebase parent))
    (h : nodesOf place p [] items = .ok nodes) (parent : Text) :
    ReadsAll parent items (Node.rebaseAll parent nodes) := by
  obtain ⟨pairs, rfl, hread, hnodes⟩ := nodesOf_eq_ok_iff.1 h
  obtain rfl : nodes = Nodes.collect p (pairs.map Prod.snd) := hnodes
  rw [Nodes.rebaseAll_collect]
  have hsource : ∀ m ∈ Nodes.collect parent (pairs.map Prod.snd), ∃ item,
      IsLast (pairs.map Prod.fst) m.name item ∧ Reads parent item m := by
    intro m hm
    obtain ⟨p, hp, hlast, rfl⟩ := exists_source hread hm
    exact ⟨p.1, hlast, hreads p.1 (List.mem_map_of_mem hp) p.2 (hread p hp) parent⟩
  have : Nonempty Json := ⟨.null⟩
  choose! source hlast hstands using hsource
  refine .intro source ?_ hlast hstands
  rw [Nodes.names_collect, filterMap_nameOf? hread]

theorem reads_nodeOf (v : Json) : ∀ place n, nodeOf place v = .ok n →
    ∀ parent, Reads parent v (n.rebase parent) := by
  induction v using node_induction with
  | step v ih =>
    intro place n h parent
    cases v with
    | object fields =>
      obtain ⟨name, hname, -, ⟨htype, c, hc, rfl⟩ | ⟨htype, hd⟩⟩ := nodeOf_object_eq_ok_iff.1 h
      · obtain rfl := (content_eq_ok_iff.1 hc).2
        exact .file hname htype
      · cases hget : get? "children" fields with
        | none =>
          rw [hget] at hd
          obtain rfl := Except.ok.inj hd
          refine .directory hname htype ?_
          rw [itemsOf, hget]
          have hnone : nodesOf place Path.root [] [] = .ok [] := by rw [nodesOf]
          exact readsAll_of_nodesOf (List.forall_mem_nil _) hnone _
        | some w =>
          rw [hget] at hd
          cases w with
          | array items =>
            obtain ⟨children, hchildren, rfl⟩ := exists_of_map_ok hd
            refine .directory hname htype ?_
            rw [itemsOf, hget]
            exact readsAll_of_nodesOf
              (fun item hitem n hn => ih fields items rfl hget item hitem _ n hn) hchildren _
          | null | bool | number | text | object => cases hd
    | null | bool | number | text | array => exact absurd h (by simp [nodeOf])

/-! ## Lines -/

theorem ofText?_eq_some_iff {t : Text} {kind : LineKind} :
    LineKind.ofText? t = some kind ↔ t = kind.toText := by
  constructor
  · intro h
    have hfound := List.find?_some h
    exact (of_decide_eq_true hfound).symm
  · rintro rfl
    exact LineKind.ofText?_toText kind

theorem identifier?_eq_some_iff {v : Json} {t : Text} :
    identifier? v = some t ↔
      v = .text t ∨ ∃ n : Int, v = .number (.integer n) ∧ t = Text.ofInt n := by
  cases v with
  | text u => simp [identifier?]
  | number n => cases n <;> simp [identifier?, eq_comm]
  | null | bool | array | object => simp [identifier?]

def ReadsLine (v : Json) (l : Line) : Prop :=
  ∃ fields, v = .object fields ∧
    get? "type" fields = some (.text l.kind.toText) ∧
    (get? "id" fields = some (.text l.id) ∨
      ∃ n : Int, get? "id" fields = some (.number (.integer n)) ∧ l.id = Text.ofInt n) ∧
    get? "text" fields = some (.text l.text) ∧
    get? "timestamp" fields = some (.number l.timestamp)

theorem lineOf_eq_ok_iff {index : Nat} {v : Json} {l : Line} :
    lineOf index v = .ok l ↔ ReadsLine v l := by
  constructor
  · intro h
    cases v with
    | object fields =>
      rw [lineOf] at h
      split at h
      · cases h
      · next kind hkind =>
        split at h
        · cases h
        · next k hk =>
          obtain ⟨id, hid, h⟩ := exists_of_bind_ok h
          obtain ⟨text, htext, h⟩ := exists_of_bind_ok h
          obtain ⟨timestamp, htime, h⟩ := exists_of_bind_ok h
          obtain rfl := Except.ok.inj h
          obtain rfl := ofText?_eq_some_iff.1 hk
          refine ⟨fields, rfl, get?_of_text hkind, ?_, get?_of_text htext, get?_of_number htime⟩
          obtain ⟨w, hw, hid⟩ := eq_ok_of_field hid
          rcases identifier?_eq_some_iff.1 hid with rfl | ⟨n, rfl, hn⟩
          · exact .inl hw
          · exact .inr ⟨n, hw, hn⟩
    | null | bool | number | text | array => cases h
  · rintro ⟨fields, rfl, hkind, hid, htext, htime⟩
    have hid : field identifier? fields "id" (linePlace index) = .ok l.id := by
      rcases hid with hid | ⟨n, hid, hn⟩
      · exact field_eq_ok_iff.2 ⟨_, hid, rfl⟩
      · exact field_eq_ok_iff.2 ⟨_, hid, congrArg some hn.symm⟩
    rw [lineOf]
    simp only [text_eq_ok_iff.2 hkind, LineKind.ofText?_toText, hid, text_eq_ok_iff.2 htext,
      number_eq_ok_iff.2 htime]
    rfl

theorem exists_readsLine_iff {v : Json} : (∃ l, ReadsLine v l) ↔ IsLine v := by
  constructor
  · rintro ⟨l, fields, hv, hkind, hid, htext, htime⟩
    refine ⟨fields, hv, ⟨_, hkind⟩, ?_, ⟨_, htext⟩, ⟨_, htime⟩⟩
    exact hid.imp (fun h => ⟨_, h⟩) fun ⟨n, h, _⟩ => ⟨n, h⟩
  · rintro ⟨fields, hv, ⟨kind, hkind⟩, hid, ⟨text, htext⟩, ⟨timestamp, htime⟩⟩
    rcases hid with ⟨id, hid⟩ | ⟨n, hid⟩
    · exact ⟨⟨id, kind, text, timestamp⟩, fields, hv, hkind, .inl hid, htext, htime⟩
    · exact ⟨⟨Text.ofInt n, kind, text, timestamp⟩, fields, hv, hkind, .inr ⟨n, hid, rfl⟩, htext,
        htime⟩

theorem linesOf_eq_ok_iff {index : Nat} {items : List Json} {lines : List Line} :
    linesOf index items = .ok lines ↔ List.Forall₂ ReadsLine items lines := by
  induction items generalizing index lines with
  | nil =>
    rw [linesOf, List.forall₂_nil_left_iff]
    exact ⟨fun h => (Except.ok.inj h).symm, fun h => h ▸ rfl⟩
  | cons item items ih =>
    rw [linesOf, List.forall₂_cons_left_iff]
    constructor
    · intro h
      obtain ⟨line, hline, h⟩ := exists_of_bind_ok h
      obtain ⟨rest, hrest, h⟩ := exists_of_bind_ok h
      obtain rfl := Except.ok.inj h
      exact ⟨line, rest, lineOf_eq_ok_iff.1 hline, ih.1 hrest, rfl⟩
    · rintro ⟨line, rest, hline, hrest, rfl⟩
      rw [lineOf_eq_ok_iff.2 hline, ih.2 hrest]
      rfl

theorem exists_linesOf_iff {items : List Json} (index : Nat) :
    (∃ lines, linesOf index items = .ok lines) ↔ ∀ item ∈ items, IsLine item := by
  simp only [linesOf_eq_ok_iff, ← exists_readsLine_iff]
  induction items with
  | nil => simp
  | cons item items ih => simp [List.forall₂_cons_left_iff, ← ih]

end Snapshot

end ThreatDesk
