import ThreatDesk.Proofs.Results
import ThreatDesk.Snapshot.Basic

/-!
# What a snapshot is read from

Where a document is a snapshot, each part of the snapshot comes from a field of the document.
-/

namespace ThreatDesk

namespace Snapshot

theorem eq_ok_of_field {α : Type} {convert : Json → Option α} {fields : Json.Fields}
    {name place : Text} {a : α} (h : field convert fields name place = .ok a) :
    ∃ v, Json.Fields.get? name fields = some v ∧ convert v = some a := by
  unfold field at h
  split at h
  · exact nomatch h
  · next v hv =>
    split at h
    · next b hb => exact ⟨v, hv, Except.ok.inj h ▸ hb⟩
    · exact nomatch h

theorem get?_of_text {fields : Json.Fields} {name place t : Text}
    (h : field Json.text? fields name place = .ok t) :
    Json.Fields.get? name fields = some (.text t) := by
  obtain ⟨v, hv, ht⟩ := eq_ok_of_field h
  cases v with
  | text u => exact Option.some.inj ht ▸ hv
  | null | bool | number | array | object => cases ht

theorem get?_of_number {fields : Json.Fields} {name place : Text} {n : Number}
    (h : field number? fields name place = .ok n) :
    Json.Fields.get? name fields = some (.number n) := by
  obtain ⟨v, hv, hn⟩ := eq_ok_of_field h
  cases v with
  | number m => exact Option.some.inj hn ▸ hv
  | null | bool | text | array | object => cases hn

theorem get?_of_array {fields : Json.Fields} {name place : Text} {items : List Json}
    (h : field array? fields name place = .ok items) :
    Json.Fields.get? name fields = some (.array items) := by
  obtain ⟨v, hv, hi⟩ := eq_ok_of_field h
  cases v with
  | array vs => exact Option.some.inj hi ▸ hv
  | null | bool | number | text | object => cases hi

theorem nodeOf_cases {place : Text} {v : Json} {n : Node} (h : nodeOf place v = .ok n) :
    ∃ fields name, v = .object fields ∧ Json.Fields.get? "name" fields = some (.text name) ∧
      Path.isName name = true ∧
      ((∃ text, content fields (place ++ "/" ++ name) = .ok text ∧ n = Node.newFile name text) ∨
        n = Node.newDirectory name [] ∨
        ∃ items children, Json.Fields.get? "children" fields = some (.array items) ∧
          nodesOf (place ++ "/" ++ name) (Path.join Path.root name) [] items = .ok children ∧
          n = .directory name (Path.join Path.root name) children) := by
  cases v with
  | object fields =>
    rw [nodeOf] at h
    split at h
    · cases h
    · next name hname =>
      split at h
      · cases h
      · next hn =>
        rw [Bool.not_eq_true', Bool.not_eq_false] at hn
        refine ⟨fields, name, rfl, get?_of_text hname, hn, ?_⟩
        split at h
        · cases h
        · next kind hkind =>
          split at h
          · obtain ⟨text, ht, hc⟩ := exists_of_map_ok h
            exact .inl ⟨text, ht, hc.symm⟩
          · split at h
            · split at h
              · exact .inr (.inl (Except.ok.inj h).symm)
              · next items hget =>
                obtain ⟨children, hc, hn⟩ := exists_of_map_ok h
                exact .inr (.inr ⟨items, children, hget, hc, hn.symm⟩)
              · cases h
            · cases h
  | null | bool | number | text | array => exact absurd h (by simp [nodeOf])

theorem get?_of_content {fields : Json.Fields} {place t : Text}
    (h : content fields place = .ok (some t)) :
    Json.Fields.get? "content" fields = some (.text t) := by
  unfold content at h
  split at h
  · exact nomatch h
  · exact nomatch h
  · next u hu => exact hu.trans (by rw [Option.some.inj (Except.ok.inj h)])
  · exact nomatch h

theorem sizeOf_items {name : Text} {fields : Json.Fields} {items : List Json}
    (h : Json.Fields.get? name fields = some (.array items)) :
    sizeOf items < sizeOf (Json.object fields) := by
  have hlt := sizeOf_get? h
  rw [Json.array.sizeOf_spec] at hlt
  rw [Json.object.sizeOf_spec]
  omega

theorem lineOf_cases {index : Nat} {v : Json} {l : Line} (h : lineOf index v = .ok l) :
    ∃ fields id, v = .object fields ∧
      Json.Fields.get? "id" fields = some id ∧ identifier? id = some l.id ∧
      Json.Fields.get? "text" fields = some (.text l.text) ∧
      Json.Fields.get? "timestamp" fields = some (.number l.timestamp) := by
  cases v with
  | object fields =>
    rw [lineOf] at h
    split at h
    · cases h
    · split at h
      · cases h
      · obtain ⟨id, hid, h⟩ := exists_of_bind_ok h
        obtain ⟨text, htext, h⟩ := exists_of_bind_ok h
        obtain ⟨timestamp, htime, h⟩ := exists_of_bind_ok h
        obtain rfl := Except.ok.inj h
        obtain ⟨w, hw, hid⟩ := eq_ok_of_field hid
        exact ⟨fields, w, rfl, hw, hid, get?_of_text htext, get?_of_number htime⟩
  | null | bool | number | text | array => cases h

theorem mem_of_linesOf {index : Nat} {vs : List Json} {lines : List Line}
    (h : linesOf index vs = .ok lines) {l : Line} (hl : l ∈ lines) :
    ∃ v ∈ vs, ∃ index, lineOf index v = .ok l := by
  induction vs generalizing index lines with
  | nil =>
    obtain rfl := Except.ok.inj h
    exact nomatch hl
  | cons v vs ih =>
    obtain ⟨first, hfirst, h⟩ := exists_of_bind_ok h
    obtain ⟨rest, hrest, h⟩ := exists_of_bind_ok h
    obtain rfl := Except.ok.inj h
    rcases List.mem_cons.1 hl with rfl | hl
    · exact ⟨v, List.mem_cons_self, index, hfirst⟩
    · obtain ⟨w, hw, hline⟩ := ih hrest hl
      exact ⟨w, List.mem_cons_of_mem _ hw, hline⟩

theorem ofJson_cases {v : Json} {s : Snapshot} (h : ofJson v = .ok s) :
    ∃ fields files lines, v = .object fields ∧
      Json.Fields.get? "version" fields = some (.text s.version) ∧
      (Version.bump? s.version).isSome = true ∧
      Json.Fields.get? "timestamp" fields = some (.number s.timestamp) ∧
      Json.Fields.get? "files" fields = some (.array files) ∧
      nodesOf "files" Path.root [] files = .ok s.tree.children ∧
      Json.Fields.get? "terminalLines" fields = some (.array lines) ∧
      linesOf 0 lines = .ok s.lines := by
  cases v with
  | object fields =>
    obtain ⟨version, hversion, h⟩ := exists_of_bind_ok h
    obtain ⟨bumped, hbump, h⟩ := exists_of_bind_ok h
    obtain ⟨timestamp, htime, h⟩ := exists_of_bind_ok h
    obtain ⟨files, hfiles, h⟩ := exists_of_bind_ok h
    obtain ⟨items, hitems, h⟩ := exists_of_bind_ok h
    obtain ⟨children, hchildren, h⟩ := exists_of_bind_ok h
    obtain ⟨lines, hlines, h⟩ := exists_of_bind_ok h
    obtain rfl := Except.ok.inj h
    refine ⟨fields, files, items, rfl, get?_of_text hversion, ?_, get?_of_number htime,
      get?_of_array hfiles, hchildren, get?_of_array hitems, hlines⟩
    unfold bump at hbump
    split at hbump
    · next hb => rw [hb, Option.isSome_some]
    · exact nomatch hbump
  | null | bool | number | text | array => exact nomatch h

theorem eq_ok_of_read {document : Except Json.Fault Json} {s : Snapshot}
    (h : read document = .ok s) : ∃ v, document = .ok v ∧ ofJson v = .ok s := by
  unfold read at h
  split at h
  · next v => exact ⟨v, rfl, eq_ok_of_mapError_ok h⟩
  · exact nomatch h
  · exact nomatch h
  · exact nomatch h

end Snapshot

end ThreatDesk
