import Mathlib.Data.List.Forall2
import ThreatDesk.Fault
import ThreatDesk.Proofs.Json.Surrogates
import ThreatDesk.Proofs.Snapshot.ReadBack
import ThreatDesk.Proofs.Tree.Relative

/-!
# Snapshots that differ in how a directory is written

A line can show the working directory, and a fault of encoding the position of a surrogate in a document
that has such lines. Snapshots that differ in nothing else beside the identifiers that are drawn for their
lines are written together or objected to alike (`Alike.toBytes`), and what is read from their bytes goes
together as well (`BytesAlike.ofBytes`).
-/

namespace ThreatDesk

theorem map_eq_of_forall₂ {α β γ : Type} {R : α → β → Prop} {f : α → γ} {g : β → γ}
    (hR : ∀ a b, R a b → f a = g b) {as : List α} {bs : List β} (h : List.Forall₂ R as bs) :
    as.map f = bs.map g := by
  have hmap : List.Forall₂ (· = ·) (as.map f) (bs.map g) := List.rel_map hR h
  rwa [List.forall₂_eq_eq_eq] at hmap

/-! ## Lines -/

/-- Texts that lines of a kind can have where the working directory is written in two ways. -/
inductive LineKind.TextsAlike : LineKind → Text → Text → Prop
  | same (kind : LineKind) (t : Text) : TextsAlike kind t t
  | directory {p q : Text} (h : Path.Respells p q) :
    TextsAlike .output ("CWD: " ++ p) ("CWD: " ++ q)
  | lost {p q : Text} (h : Path.Respells p q) :
    TextsAlike .error ("mkdir: no such directory: " ++ p) ("mkdir: no such directory: " ++ q)
  /-- Only the position of the surrogates differs. -/
  | unencodable {f g : Encoding.EncodeFault} (h : f.Alike g) :
    TextsAlike .error ("CRITICAL ERROR: " ++ f.message) ("CRITICAL ERROR: " ++ g.message)

/-- Lines of one kind and time, with texts that are the same but for how the working directory is
written. -/
structure Line.Respells (l m : Line) : Prop where
  kind : l.kind = m.kind
  text : l.kind.TextsAlike l.text m.text
  timestamp : l.timestamp = m.timestamp

/-- Identifiers that are the same, or have been drawn. -/
inductive Line.IdsAlike : Text → Text → Prop
  | same (t : Text) : IdsAlike t t
  | drawn (m n : Nat) : IdsAlike (Session.lineId m) (Session.lineId n)

structure Line.Alike (l m : Line) : Prop extends Line.Respells l m where
  id : Line.IdsAlike l.id m.id

theorem Line.Alike.refl (l : Line) : l.Alike l := ⟨⟨rfl, .same _ _, rfl⟩, .same _⟩

abbrev Line.AllAlike : List Line → List Line → Prop := List.Forall₂ Line.Alike

theorem Line.AllAlike.refl (lines : List Line) : AllAlike lines lines :=
  List.forall₂_same.2 fun l _ => Line.Alike.refl l

theorem Line.AllAlike.respells {ls ms : List Line} (h : AllAlike ls ms) :
    List.Forall₂ Line.Respells ls ms :=
  List.Forall₂.imp (fun _ _ hlm => hlm.toRespells) h

theorem LineKind.TextsAlike.surrogates?_eq {kind : LineKind} {t u : Text}
    (h : kind.TextsAlike t u) : t.surrogates? = u.surrogates? := by
  have hs (s : String) (t : Text) : Text.surrogates? (s ++ t) = t.surrogates? :=
    Text.surrogates?_scalar_append (Text.isScalar_ofString s) t
  cases h with
  | same => rfl
  | directory h | lost h => rw [hs, hs, h.surrogates?_eq]
  | unencodable h =>
    rw [hs, hs, Text.surrogates?_of_isScalar (Encoding.EncodeFault.isScalar_message _),
      Text.surrogates?_of_isScalar (Encoding.EncodeFault.isScalar_message _)]

theorem Line.IdsAlike.surrogates?_eq {t u : Text} (h : IdsAlike t u) :
    t.surrogates? = u.surrogates? := by
  cases h with
  | same => rfl
  | drawn m n =>
    have hs (n : Nat) : (Session.lineId n).IsScalar := Text.isScalar_hex 8 n
    rw [Text.surrogates?_of_isScalar (hs m), Text.surrogates?_of_isScalar (hs n)]

/-! ## Faults -/

inductive Fault.Alike : Fault → Fault → Prop
  | same (fault : Fault) : Alike fault fault
  | unencodable {f g : Encoding.EncodeFault} (h : f.Alike g) :
    Alike (.unencodable f) (.unencodable g)

namespace Snapshot

/-- Snapshots that are the same but for the identifiers of their lines and how these write the working
directory. -/
structure Alike (s t : Snapshot) : Prop where
  version : s.version = t.version
  timestamp : s.timestamp = t.timestamp
  tree : s.tree = t.tree
  lines : Line.AllAlike s.lines t.lines

theorem Alike.refl (s : Snapshot) : s.Alike s := ⟨rfl, rfl, rfl, Line.AllAlike.refl s.lines⟩

inductive BytesAlike : Bytes → Bytes → Prop
  | same (bytes : Bytes) : BytesAlike bytes bytes
  | written {s t : Snapshot} (h : s.Alike t) (hs : ∀ n ∈ s.times, n.IsCanonical) {b c : Bytes}
    (hb : s.toBytes = .ok b) (hc : t.toBytes = .ok c) : BytesAlike b c

/-! ## Written -/

theorem nesting_lines {ls ms : List Line} (h : Line.AllAlike ls ms) :
    Json.nestingItems (ls.map lineToJson) = Json.nestingItems (ms.map lineToJson) := by
  induction h with
  | nil => rfl
  | cons h hs ih =>
    rw [List.map_cons, List.map_cons, Json.nestingItems, Json.nestingItems, ih]
    rfl

theorem surrogates?_lineToJson {l m : Line} (h : l.Alike m) :
    (lineToJson l).surrogates? = (lineToJson m).surrogates? := by
  obtain ⟨⟨hkind, htext, -⟩, hid⟩ := h
  simp only [lineToJson, Json.surrogates?, Json.surrogatesOfFields?, hid.surrogates?_eq, ← hkind,
    htext.surrogates?_eq]

theorem surrogates?_lines {ls ms : List Line} (h : Line.AllAlike ls ms) :
    Json.surrogatesOfItems? (ls.map lineToJson) = Json.surrogatesOfItems? (ms.map lineToJson) := by
  induction h with
  | nil => rfl
  | cons h hs ih =>
    rw [List.map_cons, List.map_cons, Json.surrogatesOfItems?, Json.surrogatesOfItems?,
      surrogates?_lineToJson h, ih]

namespace Alike

variable {s t : Snapshot}

theorem times (h : s.Alike t) : s.times = t.times := by
  have hlines := map_eq_of_forall₂ (fun _ _ hlm => hlm.timestamp) h.lines
  rw [Snapshot.times, Snapshot.times, h.timestamp, hlines]

theorem nesting (h : s.Alike t) : s.toJson.nesting = t.toJson.nesting := by
  simp only [toJson, Json.nesting, Json.nestingFields, h.tree, nesting_lines h.lines]

theorem surrogates? (h : s.Alike t) : s.toJson.surrogates? = t.toJson.surrogates? := by
  simp only [toJson, Json.surrogates?, Json.surrogatesOfFields?, h.version, h.tree,
    surrogates?_lines h.lines]

theorem toBytes (h : s.Alike t) (hs : ∀ n ∈ s.times, n.IsCanonical) :
    Agree Fault.Alike BytesAlike (s.toBytes.mapError Fault.ofWrite)
      (t.toBytes.mapError Fault.ofWrite) := by
  have hsb := Snapshot.toBytes.eq_def s
  have htb := Snapshot.toBytes.eq_def t
  rw [← h.nesting, ← h.times] at htb
  by_cases hn : s.toJson.nesting > Json.nestingLimit
  · rw [if_pos hn] at hsb htb
    rw [hsb, htb]
    exact .error (.same _)
  · rw [if_neg hn] at hsb htb
    -- The lines differ in their texts alone, so the times are written alike.
    cases hw : s.times.mapM Number.written with
    | error fault =>
      rw [hw] at hsb htb
      rw [hsb, htb]
      exact .error (.same _)
    | ok texts =>
      rw [hw] at hsb htb
      have htext : s.toText.surrogates? = t.toText.surrogates? := by
        rw [toText, toText, Json.surrogates?_toDocument, Json.surrogates?_toDocument, h.surrogates?]
      rcases Utf8.encode_together htext with ⟨b, c, hb, hc⟩ | ⟨f, g, hf, hg, hfg⟩
      · rw [hb] at hsb
        rw [hc] at htb
        rw [hsb, htb]
        exact .ok (.written h hs hsb htb)
      · rw [hf] at hsb
        rw [hg] at htb
        rw [hsb, htb]
        exact .error (.unencodable hfg)

end Alike

/-! ## Read -/

theorem Alike.ofJson {s t : Snapshot} (h : s.Alike t) :
    Agree Eq Alike (Snapshot.ofJson s.toJson) (Snapshot.ofJson t.toJson) := by
  rw [ofJson_toJson_eq, ofJson_toJson_eq, ← h.version, ← h.tree, ← h.timestamp]
  refine (Agree.refl (fun _ => rfl) (fun _ => rfl) (bump s.version)).bind ?_
  rintro bumped _ rfl
  refine (Agree.refl (fun _ => rfl) (fun _ => rfl) (nodesOf _ _ _ _)).bind ?_
  rintro children _ rfl
  exact .ok ⟨rfl, rfl, rfl, h.lines⟩

namespace BytesAlike

variable {b c : Bytes}

theorem ofBytes (h : BytesAlike b c) :
    Agree Eq Alike (Snapshot.ofBytes b) (Snapshot.ofBytes c) := by
  cases h with
  | same => exact Agree.refl (fun _ => rfl) Alike.refl _
  | written h hs hb hc =>
    have ht := hs
    rw [h.times] at ht
    rw [Snapshot.ofBytes, Snapshot.ofBytes, value_of_toBytes hs hb, value_of_toBytes ht hc]
    exact h.ofJson.mapError fun _ _ he => congrArg ReadFault.rejected he

theorem strict_of_toBytes {s : Snapshot} (h : s.toBytes = .ok b) :
    ∃ rest, Utf8.scheme.strict b = .ok (('{' : CodePoint) :: rest) := by
  unfold Snapshot.toBytes at h
  split at h
  · exact nomatch h
  · split at h
    · exact nomatch h
    · obtain ⟨hscalar, rfl⟩ := Utf8.encode_eq_ok (eq_ok_of_mapError_ok h)
      exact ⟨_, Utf8.strict_encoded hscalar⟩

end BytesAlike

end Snapshot

end ThreatDesk
