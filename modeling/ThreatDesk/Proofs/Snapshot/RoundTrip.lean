import ThreatDesk.Proofs.Json.Document
import ThreatDesk.Proofs.Tree.Edit
import ThreatDesk.Snapshot.Basic

/-!
# Snapshots read back

A session that is fit for a document has bytes, they are read back as the same snapshot, and restoring
it gives any session the tree and the lines of the first one. A node is read back as a child of the root
and gets the paths of its place when it is put among its siblings.
-/

namespace ThreatDesk

open Node (WellPlaced WellPlacedAll)
open Text (IsScalar)

mutual

def Node.IsScalar : Node → Prop
  | .file f => f.name.IsScalar ∧ ∀ t ∈ f.content, t.IsScalar
  | .directory name _ children => name.IsScalar ∧ Node.IsScalarAll children

def Node.IsScalarAll : List Node → Prop
  | [] => True
  | n :: ns => Node.IsScalar n ∧ Node.IsScalarAll ns

end

/-- A time that can be written and read: an integer of at most as many digits as the limit. -/
def Number.IsWritable (n : Number) : Prop :=
  ∃ k : Int, n = .integer k ∧ k.natAbs < tenTo Integer.digitLimit

def Line.IsPortable (l : Line) : Prop :=
  l.id.IsScalar ∧ l.text.IsScalar ∧ l.timestamp.IsWritable

/-- What a session has to meet for its snapshot to be read back. -/
structure Session.Portable (s : Session) : Prop where
  wellFormed : s.tree.WellFormed
  source : Baseline.hasSource s.tree = true
  scalar : Node.IsScalarAll s.tree.children
  lines : ∀ l ∈ s.lines, l.IsPortable

namespace Snapshot

open Json (Exact ExactItems ExactFields Scalar ScalarItems ScalarFields)

/-! ## What is written -/

theorem nodup_fileFields : (["name", "type", "path", "content"] : List Text).Nodup := by decide

theorem nodup_directoryFields : (["name", "type", "path", "children"] : List Text).Nodup := by
  decide

theorem nodup_lineFields : (["id", "type", "text", "timestamp"] : List Text).Nodup := by decide

theorem nodup_snapshotFields :
    (["version", "timestamp", "files", "terminalLines"] : List Text).Nodup := by decide

mutual

theorem exact_nodeToJson : (n : Node) → Exact (nodeToJson n)
  | .file ⟨name, path, content⟩ => by
    cases content with
    | none =>
      exact ⟨nodup_fileFields.sublist (List.sublist_append_left _ _), trivial, trivial, trivial,
        trivial⟩
    | some t => exact ⟨nodup_fileFields, trivial, trivial, trivial, trivial, trivial⟩
  | .directory name path children =>
    ⟨nodup_directoryFields, trivial, trivial, trivial, exact_nodesToJson children, trivial⟩

theorem exact_nodesToJson : (ns : List Node) → ExactItems (nodesToJson ns)
  | [] => trivial
  | n :: ns => ⟨exact_nodeToJson n, exact_nodesToJson ns⟩

end

theorem isScalar_join {parent name : Text} (hp : IsScalar parent) (hn : IsScalar name) :
    IsScalar (Path.join parent name) := by
  unfold Path.join
  split
  · exact Text.isScalar_append.2 ⟨Text.isScalar_ofString _, hn⟩
  · exact Text.isScalar_append.2 ⟨Text.isScalar_append.2 ⟨hp, Text.isScalar_ofString _⟩, hn⟩

mutual

theorem scalar_nodeToJson {parent : Text} (hp : IsScalar parent) :
    (n : Node) → WellPlaced parent n → n.IsScalar → Scalar (nodeToJson n)
  | .file f, hw, hs => by
    obtain ⟨hn, hc⟩ := hs
    have hpath : IsScalar f.path := by
      rw [hw.2]
      exact isScalar_join hp hn
    obtain ⟨name, path, content⟩ := f
    cases content with
    | none =>
      exact ⟨Text.isScalar_ofString _, hn, Text.isScalar_ofString _, Text.isScalar_ofString _,
        Text.isScalar_ofString _, hpath, trivial⟩
    | some t =>
      exact ⟨Text.isScalar_ofString _, hn, Text.isScalar_ofString _, Text.isScalar_ofString _,
        Text.isScalar_ofString _, hpath, Text.isScalar_ofString _, hc t rfl, trivial⟩
  | .directory name path children, hw, hs => by
    obtain ⟨-, rfl, hw⟩ := hw
    obtain ⟨hn, hs⟩ := hs
    have hpath := isScalar_join hp hn
    exact ⟨Text.isScalar_ofString _, hn, Text.isScalar_ofString _, Text.isScalar_ofString _,
      Text.isScalar_ofString _, hpath, Text.isScalar_ofString _,
      scalar_nodesToJson hpath children hw hs, trivial⟩

theorem scalar_nodesToJson {parent : Text} (hp : IsScalar parent) :
    (ns : List Node) → WellPlacedAll parent ns → Node.IsScalarAll ns →
      ScalarItems (nodesToJson ns)
  | [], _, _ => trivial
  | n :: ns, hw, hs =>
    ⟨scalar_nodeToJson hp n hw.1 hs.1, scalar_nodesToJson hp ns hw.2.2 hs.2⟩

end

theorem exact_number {n : Number} (h : n.IsWritable) : Exact (.number n) := by
  obtain ⟨k, rfl, hk⟩ := h
  exact hk

theorem exact_lines {lines : List Line} (h : ∀ l ∈ lines, Exact (.number l.timestamp)) :
    ExactItems (lines.map lineToJson) := by
  induction lines with
  | nil => trivial
  | cons l lines ih =>
    obtain ⟨hl, hlines⟩ := List.forall_mem_cons.1 h
    exact ⟨⟨nodup_lineFields, trivial, trivial, trivial, hl, trivial⟩, ih hlines⟩

theorem isScalar_kind (k : LineKind) : IsScalar k.toText := by
  cases k <;> exact Text.isScalar_ofString _

theorem scalar_lines {lines : List Line} (h : ∀ l ∈ lines, l.id.IsScalar ∧ l.text.IsScalar) :
    ScalarItems (lines.map lineToJson) := by
  induction lines with
  | nil => trivial
  | cons l lines ih =>
    obtain ⟨⟨hi, ht⟩, hlines⟩ := List.forall_mem_cons.1 h
    exact ⟨⟨Text.isScalar_ofString _, hi, Text.isScalar_ofString _, isScalar_kind l.kind,
      Text.isScalar_ofString _, ht, Text.isScalar_ofString _, trivial, trivial⟩, ih hlines⟩

theorem exact_toJson {s : Snapshot} (h : ∀ n ∈ s.times, Exact (.number n)) : Exact s.toJson := by
  obtain ⟨ht, hl⟩ := List.forall_mem_cons.1 h
  exact ⟨nodup_snapshotFields, trivial, ht, exact_nodesToJson _,
    exact_lines fun l hm => hl _ (List.mem_map_of_mem hm), trivial⟩

theorem scalar_toJson {s : Snapshot} (hv : s.version.IsScalar) (hw : s.tree.WellFormed)
    (hs : Node.IsScalarAll s.tree.children) (hl : ∀ l ∈ s.lines, l.id.IsScalar ∧ l.text.IsScalar) :
    Scalar s.toJson :=
  ⟨Text.isScalar_ofString _, hv, Text.isScalar_ofString _, trivial, Text.isScalar_ofString _,
    scalar_nodesToJson (Text.isScalar_ofString _) _ hw hs, Text.isScalar_ofString _,
    scalar_lines hl, trivial⟩

/-! ## What is read -/

theorem nodeOf_file {fields : Json.Fields} {place name : Text}
    (hname : field Json.text? fields "name" place = .ok name) (hn : Path.isName name = true)
    (hkind : field Json.text? fields "type" place = .ok "file") :
    nodeOf place (.object fields) =
      (content fields (place ++ "/" ++ name)).map (Node.newFile name) := by
  rw [nodeOf]
  simp only [hname, hn, hkind]
  rfl

theorem nodeOf_directory {fields : Json.Fields} {place name : Text} {items : List Json}
    (hname : field Json.text? fields "name" place = .ok name) (hn : Path.isName name = true)
    (hkind : field Json.text? fields "type" place = .ok "directory")
    (hget : Json.Fields.get? "children" fields = some (.array items)) :
    nodeOf place (.object fields) =
      (nodesOf (place ++ "/" ++ name) (Path.join Path.root name) [] items).map
        (.directory name (Path.join Path.root name)) := by
  rw [nodeOf]
  simp only [hname, hn, hkind]
  rw [if_neg (by decide), if_neg (by decide), if_pos trivial]
  split
  · next h =>
    rw [hget] at h
    exact absurd h (by simp)
  · next h =>
    rw [hget] at h
    obtain rfl := Json.array.inj (Option.some.inj h)
    rfl
  · next v hv h =>
    rw [hget] at h
    exact absurd (Option.some.inj h).symm (hv items)

mutual

theorem nodeOf_nodeToJson {parent : Text} (place : Text) :
    (n : Node) → WellPlaced parent n → nodeOf place (nodeToJson n) = .ok (n.rebase Path.root)
  | .file ⟨name, path, content⟩, hw => by
    rw [nodeToJson, nodeOf_file rfl hw.1 rfl]
    cases content <;> rfl
  | .directory name path children, hw => by
    obtain ⟨hn, -, hc⟩ := hw
    have hread := nodesOf_nodesToJson (place ++ "/" ++ name) (Path.join Path.root name) children hc
      [] (by simp)
    rw [nodeToJson, nodeOf_directory rfl hn rfl rfl, hread, List.nil_append]
    rfl

theorem nodesOf_nodesToJson {p : Text} (place parent : Text) :
    (ns : List Node) → WellPlacedAll p ns → (read : List Node) →
      (∀ n ∈ ns, n.name ∉ read.map Node.name) →
      nodesOf place parent read (nodesToJson ns) = .ok (read ++ Node.rebaseAll parent ns)
  | [], _, read, _ => by
    rw [nodesToJson, nodesOf, Node.rebaseAll, List.append_nil]
  | n :: ns, hw, read, hd => by
    obtain ⟨hn, hne, hns⟩ := hw
    obtain ⟨hread, hd⟩ := List.forall_mem_cons.1 hd
    have hnode := nodeOf_nodeToJson place n hn
    have hup : Nodes.upsert parent (n.rebase Path.root) read = read ++ [n.rebase parent] := by
      rw [Nodes.upsert_of_not_mem, Node.rebase_rebase]
      rw [Node.name_rebase]
      exact hread
    have hrest := nodesOf_nodesToJson place parent ns hns (read ++ [n.rebase parent]) (by
      intro m hm
      rw [List.map_append, List.mem_append, not_or, List.map_singleton, List.mem_singleton,
        Node.name_rebase]
      exact ⟨hd m hm, hne m hm⟩)
    rw [nodesToJson, nodesOf]
    simp only [hnode, hup, hrest, Node.rebaseAll, List.append_assoc, List.singleton_append]

end

theorem lineOf_lineToJson (index : Nat) (l : Line) : lineOf index (lineToJson l) = .ok l := by
  obtain ⟨id, kind, text, timestamp⟩ := l
  cases kind <;> rfl

theorem linesOf_lineToJson (index : Nat) (lines : List Line) :
    linesOf index (lines.map lineToJson) = .ok lines := by
  induction lines generalizing index with
  | nil => rfl
  | cons l lines ih =>
    rw [List.map_cons, linesOf, lineOf_lineToJson, ih]
    rfl

theorem ofJson_toJson_eq (s : Snapshot) :
    ofJson s.toJson = (bump s.version).bind fun _ =>
      (nodesOf "files" Path.root [] (nodesToJson s.tree.children)).bind fun children =>
        .ok ⟨s.version, s.timestamp, ⟨children⟩, s.lines⟩ := by
  have hbody : ofJson s.toJson = (bump s.version).bind fun _ =>
      (nodesOf "files" Path.root [] (nodesToJson s.tree.children)).bind fun children =>
        (linesOf 0 (s.lines.map lineToJson)).bind fun lines =>
          .ok ⟨s.version, s.timestamp, ⟨children⟩, lines⟩ := rfl
  rw [hbody, linesOf_lineToJson]
  rfl

theorem ofJson_toJson {s : Snapshot} (hv : (Version.bump? s.version).isSome = true)
    (hw : s.tree.WellFormed) : ofJson s.toJson = .ok s := by
  obtain ⟨bumped, hb⟩ := Option.isSome_iff_exists.1 hv
  have hbump : bump s.version = .ok bumped := by
    rw [bump, hb]
  have hnodes := nodesOf_nodesToJson "files" Path.root s.tree.children hw [] (by simp)
  rw [List.nil_append, WellPlacedAll.rebaseAll_eq hw] at hnodes
  rw [ofJson_toJson_eq, hbump, hnodes]
  rfl

/-! ## There and back -/

theorem written_of_isWritable {n : Number} (h : n.IsWritable) : ∃ text, n.written = .ok text := by
  obtain ⟨k, rfl, hk⟩ := h
  exact ⟨Text.ofInt k, by rw [Number.written, Integer.toText, if_pos hk]⟩

theorem written_times {times : List Number} (h : ∀ n ∈ times, ∃ text, n.written = .ok text) :
    ∃ texts, times.mapM Number.written = (.ok texts : Except Integer.Fault (List Text)) := by
  induction times with
  | nil => exact ⟨[], rfl⟩
  | cons n times ih =>
    obtain ⟨⟨text, hn⟩, htimes⟩ := List.forall_mem_cons.1 h
    obtain ⟨texts, ht⟩ := ih htimes
    refine ⟨text :: texts, ?_⟩
    rw [List.mapM_cons, hn, ht]
    rfl

theorem restore_of_hasSource {ε : Type} (t : Session) {s : Snapshot}
    (h : Baseline.hasSource s.tree = true) (modules : Except ε (List Baseline.Module)) :
    restore t s modules =
      .ok ({ t with
        tree := s.tree
        lines := s.lines
        version := s.version
        cwd := Path.root
        state := .idle
        activeFile := none }, false) := by
  rw [restore, Baseline.reconcile, if_pos h]
  rfl

/-- A session goes through its document: the bytes are read back as its snapshot, and restoring that
replaces what a session shows by the tree and the lines of the first one. -/
theorem restore_read_written {s : Session} (hs : s.Portable) {v : Text} (hne : v ≠ [])
    (hv : v.IsScalar) (hb : (Version.bump? v).isSome = true) {now : Int}
    (hnow : Number.IsWritable (.integer now))
    (hn : (ofSession s v now).toJson.nesting ≤ Json.nestingLimit) :
    ∃ bytes snapshot, (ofSession s v now).toBytes = .ok bytes ∧ ofBytes bytes = .ok snapshot ∧
      ∀ (t : Session) {ε : Type} (modules : Except ε (List Baseline.Module)),
        restore t snapshot modules =
          .ok ({ t with
            tree := s.tree
            lines := s.lines
            version := v
            cwd := Path.root
            state := .idle
            activeFile := none }, false) := by
  have hversion : (ofSession s v now).version = v := by
    rw [ofSession, if_neg (by simpa using hne)]
  have hscalar : Scalar (ofSession s v now).toJson :=
    scalar_toJson (by rw [hversion]; exact hv) hs.wellFormed hs.scalar
      fun l hl => ⟨(hs.lines l hl).1, (hs.lines l hl).2.1⟩
  have htimes : ∀ n ∈ (ofSession s v now).times, n.IsWritable := by
    intro n hn
    rcases List.mem_cons.1 hn with rfl | hn
    · exact hnow
    · obtain ⟨l, hl, rfl⟩ := List.mem_map.1 hn
      exact (hs.lines l hl).2.2
  have hexact : Exact (ofSession s v now).toJson :=
    exact_toJson fun n hn => exact_number (htimes n hn)
  obtain ⟨bytes, he, hr⟩ := Json.ofBytes_toDocument hexact hscalar hn
  obtain ⟨texts, ht⟩ := written_times fun n hn => written_of_isWritable (htimes n hn)
  have hjson := ofJson_toJson (s := ofSession s v now) (by rw [hversion]; exact hb) hs.wellFormed
  refine ⟨bytes, ofSession s v now, ?_, ?_, ?_⟩
  · rw [toBytes, if_neg (Nat.not_lt.2 hn), ht, toText]
    simp only [toJson, he]
    rfl
  · rw [ofBytes, hr, read, ← toJson, hjson]
    rfl
  · intro t ε modules
    rw [restore_of_hasSource t hs.source, hversion]
    rfl

theorem isWritable_integer {k : Int} (h : k.natAbs < 10) : Number.IsWritable (.integer k) := by
  have hten : tenTo Integer.digitLimit = tenTo 1 * tenTo 4299 := tenTo_add 1 4299
  have hone : tenTo 1 = 10 := rfl
  refine ⟨k, rfl, ?_⟩
  rw [hten, hone]
  exact Nat.lt_of_lt_of_le h (Nat.le_mul_of_pos_right 10 (tenTo_pos 4299))

theorem restore_read_written_sample :
    ∃ bytes snapshot,
      (ofSession ((Session.withoutHistory
        ⟨[.file ⟨"a", "/a", none⟩, .directory "src" "/src" [.file ⟨"b\"", "/src/b\"", some []⟩]]⟩
        "1.0.0").say 5 .error "\t\\") "1.0.1" 6).toBytes = .ok bytes ∧
      ofBytes bytes = .ok snapshot ∧
      ∀ (t : Session) {ε : Type} (modules : Except ε (List Baseline.Module)),
        restore t snapshot modules =
          .ok ({ t with
            tree := ⟨[.file ⟨"a", "/a", none⟩,
              .directory "src" "/src" [.file ⟨"b\"", "/src/b\"", some []⟩]]⟩
            lines := [⟨"00000001", .error, "\t\\", .integer 5⟩]
            version := "1.0.1"
            cwd := Path.root
            state := .idle
            activeFile := none }, false) := by
  have hscalar (s : String) : IsScalar s := Text.isScalar_ofString s
  have hline : Line.IsPortable ⟨"00000001", .error, "\t\\", .integer 5⟩ :=
    ⟨hscalar _, hscalar _, isWritable_integer (by decide)⟩
  have hnow : Number.IsWritable (.integer 6) := isWritable_integer (by decide)
  have hbump : (Version.bump? "1.0.1").isSome = true := by decide +kernel
  refine restore_read_written ⟨?_, by decide, ?_, ?_⟩ (by decide) (hscalar _) hbump hnow
    (by decide)
  · exact ⟨⟨by decide, rfl⟩, List.forall_mem_singleton.2 (by decide),
      ⟨by decide, rfl, ⟨by decide, rfl⟩, by simp, trivial⟩, by simp, trivial⟩
  · exact ⟨⟨hscalar _, by simp⟩, ⟨hscalar _, ⟨hscalar _, by simp [IsScalar]⟩, trivial⟩, trivial⟩
  · exact List.forall_mem_singleton.2 hline

end Snapshot

end ThreatDesk
