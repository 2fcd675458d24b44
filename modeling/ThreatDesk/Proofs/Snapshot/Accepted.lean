import ThreatDesk.Proofs.Snapshot.Schema
import ThreatDesk.Proofs.Snapshot.WellFormed

/-!
# Which values are snapshots

Main statement: just the values of the schema are read, as what their items stand for, and nothing else
that they hold matters (`ofJson_accepts_schema`).
-/

namespace ThreatDesk

namespace Snapshot

open Json.Fields (get?)

/-! ## Snapshots -/

/-- What a value is read as: the tree is made of the items of the files, and there is a line for each
item of the lines. -/
structure ReadsSnapshot (v : Json) (s : Snapshot) : Prop where
  version : ∃ fields, v = .object fields ∧ get? "version" fields = some (.text s.version)
  timestamp : ∃ fields, v = .object fields ∧ get? "timestamp" fields = some (.number s.timestamp)
  tree : ∃ fields items, v = .object fields ∧ get? "files" fields = some (.array items) ∧
    ReadsAll Path.root items s.tree.children
  lines : ∃ fields items, v = .object fields ∧ get? "terminalLines" fields = some (.array items) ∧
    List.Forall₂ ReadsLine items s.lines

theorem readsSnapshot_of_ofJson {v : Json} {s : Snapshot} (h : ofJson v = .ok s) :
    ReadsSnapshot v s := by
  obtain ⟨fields, files, lines, rfl, hversion, -, htime, hfiles, hchildren, hlines, hread⟩ :=
    ofJson_cases h
  refine ⟨⟨fields, rfl, hversion⟩, ⟨fields, rfl, htime⟩, ⟨fields, files, rfl, hfiles, ?_⟩,
    ⟨fields, lines, rfl, hlines, linesOf_eq_ok_iff.1 hread⟩⟩
  have hreads := readsAll_of_nodesOf (fun item _ n hn => reads_nodeOf item _ n hn) hchildren Path.root
  have hplaced : Node.WellPlacedAll Path.root s.tree.children := wellFormed_ofJson h
  rwa [hplaced.rebaseAll_eq] at hreads

theorem bump_eq_ok_iff {version : Text} :
    (∃ bumped, bump version = .ok bumped) ↔ (Version.bump? version).isSome = true := by
  rw [bump]
  cases Version.bump? version <;> simp

theorem exists_ofJson_iff (v : Json) : (∃ s, ofJson v = .ok s) ↔ IsSnapshot v := by
  constructor
  · rintro ⟨s, h⟩
    obtain ⟨fields, files, lines, rfl, hversion, hbump, htime, hfiles, hchildren, hlines, hread⟩ :=
      ofJson_cases h
    refine ⟨fields, rfl, ⟨_, hversion, hbump⟩, ⟨_, htime⟩, ⟨files, hfiles, ?_⟩, lines, hlines, ?_⟩
    · intro item hitem
      exact (exists_nodeOf_iff item _).1 ((exists_nodesOf_iff _ _ _).1 ⟨_, hchildren⟩ item hitem)
    · exact (exists_linesOf_iff _).1 ⟨_, hread⟩
  · rintro ⟨fields, rfl, ⟨version, hversion, hbump⟩, ⟨timestamp, htime⟩, ⟨files, hfiles, hnodes⟩,
      lines, hlines, hread⟩
    obtain ⟨bumped, hbumped⟩ := bump_eq_ok_iff.2 hbump
    obtain ⟨children, hchildren⟩ := (exists_nodesOf_iff "files" Path.root []).2
      fun item hitem => (exists_nodeOf_iff item _).2 (hnodes item hitem)
    obtain ⟨read, hread⟩ := (exists_linesOf_iff 0).2 hread
    refine ⟨⟨version, timestamp, ⟨children⟩, read⟩, ?_⟩
    rw [ofJson, text_eq_ok_iff.2 hversion, number_eq_ok_iff.2 htime, array_eq_ok_iff.2 hfiles,
      array_eq_ok_iff.2 hlines]
    simp only [bind, Except.bind, hbumped, hchildren, hread]
    rfl

/-! ## What is not read -/

def keep (names : List Text) (change : Text → Json → Json) (fields : Json.Fields) : Json.Fields :=
  (fields.filter fun f => f.1 ∈ names).map fun f => (f.1, change f.1 f.2)

theorem get?_keep {names : List Text} {name : Text} (h : name ∈ names)
    (change : Text → Json → Json) (fields : Json.Fields) :
    get? name (keep names change fields) = (get? name fields).map (change name) := by
  induction fields with
  | nil => rfl
  | cons f fields ih =>
    rw [keep] at ih ⊢
    by_cases hf : f.1 ∈ names
    · rw [List.filter_cons_of_pos (by simpa using hf), List.map_cons, get?, get?, ih]
      split
      · next hname => rw [hname]; rfl
      · rfl
    · rw [List.filter_cons_of_neg (by simpa using hf), ih, get?, if_neg]
      rintro rfl
      exact hf h

def nodeNames : List Text := ["name", "type", "content", "children"]

def lineNames : List Text := ["type", "id", "text", "timestamp"]

def snapshotNames : List Text := ["version", "timestamp", "files", "terminalLines"]

mutual

def trimNode : Json → Json
  | .object fields => .object (trimFields fields)
  | v => v

def trimFields : List (Text × Json) → List (Text × Json)
  | [] => []
  | (name, v) :: fields =>
    if name ∈ nodeNames then
      (name, if name = "children" then trimItems v else v) :: trimFields fields
    else trimFields fields

def trimItems : Json → Json
  | .array items => .array (trimNodes items)
  | v => v

def trimNodes : List Json → List Json
  | [] => []
  | v :: vs => trimNode v :: trimNodes vs

end

def trimLine : Json → Json
  | .object fields => .object (keep lineNames (fun _ v => v) fields)
  | v => v

def trimLines : Json → Json
  | .array items => .array (items.map trimLine)
  | v => v

/-- A snapshot without the paths of its nodes and without fields that are not known, at every level. -/
def trim : Json → Json
  | .object fields =>
    .object (keep snapshotNames
      (fun name v =>
        if name = "files" then trimItems v else if name = "terminalLines" then trimLines v else v)
      fields)
  | v => v

theorem trimFields_eq_keep (fields : Json.Fields) :
    trimFields fields =
      keep nodeNames (fun name v => if name = "children" then trimItems v else v) fields := by
  induction fields with
  | nil => rfl
  | cons f fields ih =>
    rw [trimFields, keep, ih]
    split
    · next h => rw [List.filter_cons_of_pos (by simpa using h)]; rfl
    · next h => rw [List.filter_cons_of_neg (by simpa using h)]; rfl

theorem field_congr {α : Type} {convert : Json → Option α} {fields others : Json.Fields}
    {name place : Text} (h : get? name fields = get? name others) :
    field convert fields name place = field convert others name place := by
  rw [field, field, h]

theorem get?_trimFields (name : Text) (h : name ∈ nodeNames) (hne : name ≠ "children")
    (fields : Json.Fields) : get? name (trimFields fields) = get? name fields := by
  rw [trimFields_eq_keep, get?_keep h]
  simp only [if_neg hne]
  exact Option.map_id'

theorem get?_trimFields_children (fields : Json.Fields) :
    get? "children" (trimFields fields) = (get? "children" fields).map trimItems := by
  rw [trimFields_eq_keep, get?_keep (by decide)]
  rfl

theorem nodesOf_trimNodes {items : List Json}
    (h : ∀ item ∈ items, ∀ place, nodeOf place (trimNode item) = nodeOf place item)
    (place parent : Text) (read : List Node) :
    nodesOf place parent read (trimNodes items) = nodesOf place parent read items := by
  induction items generalizing read with
  | nil => rw [trimNodes]
  | cons item items ih =>
    obtain ⟨hitem, hitems⟩ := List.forall_mem_cons.1 h
    rw [trimNodes, nodesOf, nodesOf, hitem]
    split
    · rfl
    · exact ih hitems _

theorem nodeOf_trimNode (v : Json) : ∀ place, nodeOf place (trimNode v) = nodeOf place v := by
  induction v using node_induction with
  | step v ih =>
    intro place
    cases v with
    | object fields =>
      have hname := get?_trimFields "name" (by decide) (by decide) fields
      have htype := get?_trimFields "type" (by decide) (by decide) fields
      have hcontent := get?_trimFields "content" (by decide) (by decide) fields
      have hchildren (place name : Text) :
          directoryOf place name (get? "children" (trimFields fields)) =
            directoryOf place name (get? "children" fields) := by
        rw [get?_trimFields_children]
        cases hget : get? "children" fields with
        | none => rfl
        | some w =>
          cases w with
          | array items =>
            rw [Option.map_some, trimItems, directoryOf, directoryOf,
              nodesOf_trimNodes (ih fields items rfl hget)]
          | null | bool | number | text | object => rfl
      rw [trimNode, nodeOf_object, nodeOf_object, field_congr hname, field_congr htype]
      simp only [content, hcontent, hchildren]
    | null | bool | number | text | array => rfl

theorem nodesOf_trimItems (place parent : Text) (read : List Node) (items : List Json) :
    nodesOf place parent read (trimNodes items) = nodesOf place parent read items :=
  nodesOf_trimNodes (fun item _ => nodeOf_trimNode item) place parent read

theorem lineOf_trimLine (index : Nat) (v : Json) : lineOf index (trimLine v) = lineOf index v := by
  cases v with
  | object fields =>
    have hget (name : Text) (h : name ∈ lineNames) :
        get? name (keep lineNames (fun _ v => v) fields) = get? name fields :=
      (get?_keep h _ fields).trans Option.map_id'
    rw [trimLine, lineOf, lineOf]
    simp only [field_congr (hget "type" (by decide)),
      field_congr (hget "id" (by decide)), field_congr (hget "text" (by decide)),
      field_congr (hget "timestamp" (by decide))]
  | null | bool | number | text | array => rfl

theorem linesOf_map_trimLine (index : Nat) (items : List Json) :
    linesOf index (items.map trimLine) = linesOf index items := by
  induction items generalizing index with
  | nil => rfl
  | cons item items ih => rw [List.map_cons, linesOf, linesOf, lineOf_trimLine, ih]

theorem array_map {fields others : Json.Fields} {name : Text} {f : Json → Json}
    {g : List Json → List Json} (place : Text) (h : get? name others = (get? name fields).map f)
    (hf : ∀ v, array? (f v) = (array? v).map g) :
    field array? others name place = (field array? fields name place).map g := by
  rw [field, field, h]
  cases get? name fields with
  | none => rfl
  | some v =>
    simp only [Option.map_some, hf]
    cases array? v <;> rfl

theorem ofJson_trim (v : Json) : ofJson (trim v) = ofJson v := by
  cases v with
  | object fields =>
    have hget (name : Text) (h : name ∈ snapshotNames) := get?_keep h
      (fun name v =>
        if name = "files" then trimItems v else if name = "terminalLines" then trimLines v else v)
      fields
    have hversion := (hget "version" (by decide)).trans Option.map_id'
    have htime := (hget "timestamp" (by decide)).trans Option.map_id'
    have hfiles := array_map "snapshot" (g := trimNodes)
      (hget "files" (by decide)) fun v => by cases v <;> rfl
    have hlines := array_map "snapshot" (g := List.map trimLine)
      (hget "terminalLines" (by decide)) fun v => by cases v <;> rfl
    rw [trim, ofJson, ofJson, field_congr hversion, field_congr htime, hfiles, hlines]
    cases field array? fields "files" "snapshot" <;>
      cases field array? fields "terminalLines" "snapshot" <;>
        simp only [Except.map, bind, Except.bind, nodesOf_trimItems, linesOf_map_trimLine]
  | null | bool | number | text | array => rfl

/-- Just the values of the schema are read, and nothing else happens to others than to be rejected. What is
read is what the items stand for, in a well-formed tree, and it does not depend on paths or on fields that
are not known. -/
theorem ofJson_accepts_schema (v : Json) :
    ((∃ s, ofJson v = .ok s) ↔ IsSnapshot v) ∧
      ((∃ fault, ofJson v = .error fault) ↔ ¬ IsSnapshot v) ∧
      (∀ s, ofJson v = .ok s → ReadsSnapshot v s ∧ s.tree.WellFormed) ∧
      ∀ w, trim w = trim v → ofJson w = ofJson v := by
  refine ⟨exists_ofJson_iff v, ?_, fun s h => ⟨readsSnapshot_of_ofJson h, wellFormed_ofJson h⟩, ?_⟩
  · rw [← exists_ofJson_iff]
    cases ofJson v <;> simp
  · intro w h
    rw [← ofJson_trim w, h, ofJson_trim]

end Snapshot

end ThreatDesk
