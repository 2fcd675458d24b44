import ThreatDesk.Proofs.Text.Pieces
import ThreatDesk.Tree.Path

/-!
# Paths of names

A path that ends in a name is split there, and the name is its last segment (`split_join`,
`segments_join`); names are the segments of the path that is made of them (`segments_ofSegments`).
-/

namespace ThreatDesk

namespace Path

theorem isName_iff {name : Text} :
    isName name = true ↔ name ≠ [] ∧ separator ∉ name ∧ name ≠ "." ∧ name ≠ ".." := by
  simp only [isName, Bool.and_eq_true, Bool.not_eq_true', List.isEmpty_eq_false_iff,
    List.contains_eq_mem, decide_eq_false_iff_not, decide_eq_true_eq, and_assoc, ne_eq]

theorem join_eq {parent : Text} (h : parent ≠ root) (name : Text) :
    join parent name = parent ++ separator :: name := by
  rw [join, if_neg h, List.append_assoc]
  rfl

theorem segments_of_not_mem {name : Text} (hne : name ≠ []) (hs : separator ∉ name) :
    segments name = [name] := by
  rw [segments, List.splitOn_eq_singleton hs, List.filter_cons_of_pos (by simpa using hne)]
  rfl

theorem segments_append (s t : Text) :
    segments (s ++ separator :: t) = segments s ++ segments t := by
  rw [segments, List.splitOn_append_cons_self, List.filter_append]
  rfl

theorem segments_leaf (before : Text) {leaf : Text} (hne : leaf ≠ []) (hs : separator ∉ leaf) :
    segments (before ++ separator :: leaf) = segments before ++ [leaf] := by
  rw [segments_append, segments_of_not_mem hne hs]

theorem segments_join (parent : Text) {name : Text} (h : isName name = true) :
    segments (join parent name) = segments parent ++ [name] := by
  obtain ⟨hne, hs, -⟩ := isName_iff.1 h
  by_cases hp : parent = root
  · subst hp
    have hr : join root name = [] ++ separator :: name := by
      rw [join, if_pos rfl]
      rfl
    rw [hr, segments_leaf [] hne hs]
    rfl
  · rw [join_eq hp, segments_leaf parent hne hs]

theorem split_join {parent name : Text} (hp : parent ≠ []) (h : isName name = true) :
    split (join parent name) = (parent, name) := by
  obtain ⟨-, hs, -⟩ := isName_iff.1 h
  have hsplit (before : Text) := Text.splitAtLast?_append before hs
  by_cases hr : parent = root
  · subst hr
    have hj : join root name = [] ++ separator :: name := by
      rw [join, if_pos rfl]
      rfl
    rw [hj, split, hsplit]
    rfl
  · rw [join_eq hr, split, hsplit]
    simp only [List.isEmpty_eq_false_iff.2 hp, Bool.false_eq_true, if_false]

/-! ## Paths made of names -/

def IsPiece (s : Text) : Prop := s ≠ [] ∧ separator ∉ s

theorem isPiece_of_isName {name : Text} (h : isName name = true) : IsPiece name :=
  ⟨(isName_iff.1 h).1, (isName_iff.1 h).2.1⟩

theorem isPiece_of_mem_segments {path s : Text} (h : s ∈ segments path) : IsPiece s := by
  obtain ⟨hs, hne⟩ := List.mem_filter.1 h
  exact ⟨by simpa using hne, Text.not_mem_of_mem_splitOn hs⟩

theorem segments_ofPieces {pieces : List Text} (h : ∀ s ∈ pieces, IsPiece s) :
    segments (ofSegments pieces) = pieces := by
  have hroot : ofSegments pieces = [] ++ separator :: Text.intercalate "/" pieces := rfl
  rw [hroot, segments_append]
  show segments (Text.intercalate "/" pieces) = pieces
  cases pieces with
  | nil => rfl
  | cons piece pieces =>
    have hsplit : (Text.intercalate "/" (piece :: pieces)).splitOn separator = piece :: pieces :=
      List.splitOn_intercalate separator (fun s hs => (h s hs).2) (List.cons_ne_nil _ _)
    rw [segments, hsplit, List.filter_eq_self]
    intro s hs
    simpa using (h s hs).1

theorem segments_ofSegments {names : List Text} (h : ∀ s ∈ names, isName s = true) :
    segments (ofSegments names) = names :=
  segments_ofPieces fun s hs => isPiece_of_isName (h s hs)

theorem ofSegments_ne_nil (names : List Text) : ofSegments names ≠ [] := by
  simp [ofSegments, root, Text.ofString]

theorem intercalate_singleton (name : Text) : Text.intercalate "/" [name] = name := by
  rw [Text.intercalate, List.intercalate_singleton]

theorem intercalate_append_singleton {names : List Text} (h : names ≠ []) (name : Text) :
    Text.intercalate "/" (names ++ [name]) = Text.intercalate "/" names ++ separator :: name := by
  rw [Text.intercalate_append_singleton "/" h, List.append_assoc]
  rfl

theorem ofSegments_append {names : List Text} (h : ∀ s ∈ names, isName s = true) (name : Text) :
    ofSegments (names ++ [name]) = join (ofSegments names) name := by
  cases names with
  | nil =>
    have hroot : ofSegments [] = root := rfl
    rw [hroot, join, if_pos rfl, List.nil_append, ofSegments, intercalate_singleton]
  | cons s names =>
    have hroot : ofSegments (s :: names) ≠ root := by
      intro hr
      have hs := segments_ofSegments h
      rw [hr] at hs
      exact absurd hs (by simp [show segments root = [] from rfl])
    rw [join_eq hroot, ofSegments, intercalate_append_singleton (List.cons_ne_nil s names),
      ← List.append_assoc]
    rfl

/-- The path of a file: made of names, one at least. -/
def IsFile (path : Text) : Prop :=
  ∃ folders name, (∀ s ∈ folders ++ [name], isName s = true) ∧ path = ofSegments (folders ++ [name])

theorem isFile_join {folders : List Text} (h : ∀ s ∈ folders, isName s = true) {name : Text}
    (hn : isName name = true) : IsFile (join (ofSegments folders) name) := by
  refine ⟨folders, name, ?_, (ofSegments_append h name).symm⟩
  intro s hs
  rcases List.mem_append.1 hs with hs | hs
  · exact h s hs
  · rwa [List.mem_singleton.1 hs]

theorem isFile_cases {path : Text} (h : IsFile path) :
    ∃ folders name, (∀ s ∈ folders, isName s = true) ∧ isName name = true ∧
      segments path = folders ++ [name] ∧ split path = (ofSegments folders, name) ∧
      segments (ofSegments folders) = folders := by
  obtain ⟨folders, name, hnames, rfl⟩ := h
  have hfolders : ∀ s ∈ folders, isName s = true :=
    fun s hs => hnames s (List.mem_append_left _ hs)
  have hname : isName name = true := hnames name (by simp)
  refine ⟨folders, name, hfolders, hname, segments_ofSegments hnames, ?_,
    segments_ofSegments hfolders⟩
  rw [ofSegments_append hfolders]
  exact split_join (ofSegments_ne_nil folders) hname

theorem IsFile.isName_split {path : Text} (h : IsFile path) : isName (split path).2 = true := by
  obtain ⟨folders, name, -, hname, -, hsplit, -⟩ := isFile_cases h
  rw [hsplit]
  exact hname

theorem IsFile.eq_of_segments {p q : Text} (hp : IsFile p) (hq : IsFile q)
    (h : segments p = segments q) : p = q := by
  obtain ⟨folders, name, hnames, rfl⟩ := hp
  obtain ⟨folders', name', hnames', rfl⟩ := hq
  rw [segments_ofSegments hnames, segments_ofSegments hnames'] at h
  rw [h]

theorem absolute_resolve {cwd : Text} (h : cwd.head? = some separator) (target : Text) :
    (resolve cwd target).head? = some separator := by
  cases target with
  | nil => exact h
  | cons c rest =>
    rw [resolve]
    split
    · next hc =>
      split
      · next hr =>
        rw [List.dropLast_cons_of_ne_nil hr.1]
        exact congrArg some hc
      · exact congrArg some hc
    · rfl

end Path

end ThreatDesk
