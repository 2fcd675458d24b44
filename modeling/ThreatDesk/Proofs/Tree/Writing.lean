import ThreatDesk.Proofs.Tree.Changes
import ThreatDesk.Proofs.Tree.Resolve

/-!
# Writing one file

A write is turned away by its name, by what should be the directories on the way, or by a directory of
that name, and otherwise changes one child of one directory. Whatever another path names is what it
named before, but for a new name at the end of that directory. Main statement:
`write_changes_one_path`.
-/

namespace ThreatDesk

open Nodes (get? upsert)

/-- A node that is what it was, but for names that are new behind those of its children. -/
structure Node.Kept (added : List Text) (m n : Node) : Prop where
  kind : n.isDirectory = m.isDirectory
  name : n.name = m.name
  path : n.path = m.path
  file : n.file? = m.file?
  order : n.children.map Node.name = m.children.map Node.name ++ added

theorem Node.Kept.refl (n : Node) : Node.Kept [] n n :=
  ⟨rfl, rfl, rfl, rfl, (List.append_nil _).symm⟩

namespace Container

variable {c : Container} {name : Text} {way folders rest : List Text}

/-- The name that a file at the end of the folders adds to the children of the directory at `place`. -/
def added (c : Container) (folders : List Text) (name : Text) (place : List Text) : List Text :=
  if place = folders ∧ c.at? folders name = none then [name] else []

theorem added_of_ne {place : List Text} (c : Container) (name : Text) (h : place ≠ folders) :
    c.added folders name place = [] :=
  if_neg fun hp => h hp.1

def putAt (c : Container) (folders : List Text) (name content : Text) : Container :=
  c.changeAt (fun p ns => upsert p (Node.newFile name (some content)) ns) folders

theorem names_putAt {e : Container} (content : Text) (he : c.descend way = some e)
    (hf : folders = way ++ rest) :
    (e.putAt rest name content).children.map Node.name =
      e.children.map Node.name ++ c.added folders name way := by
  cases rest with
  | nil =>
    rw [List.append_nil] at hf
    subst hf
    rw [added, at?_of_descend he]
    simp only [true_and]
    exact Nodes.names_upsert e.path (Node.newFile name (some content)) e.children
  | cons s rest =>
    have hne : way ≠ folders := by
      rw [hf]
      exact fun h => absurd (congrArg List.length h) (by simp)
    rw [added_of_ne c name hne, List.append_nil]
    exact Nodes.names_changeAt e.path

section

variable {d : Container} (hd : c.descend folders = some d)
  (hfile : ∀ n, get? name d.children = some n → n.isDirectory = false) (content : Text)

include hd

theorem kept_on_way {s : Text} (hway : way ++ [s] <+: folders) :
    Option.Rel (Node.Kept (c.added folders name (way ++ [s]))) (c.at? way s)
      ((c.putAt folders name content).at? way s) := by
  obtain ⟨rest, rfl⟩ := hway
  obtain ⟨n, q, cs, hn⟩ := passable_iff.2 ⟨d, hd⟩ way s (List.prefix_append _ _)
  have he : c.descend (way ++ [s]) = some ⟨q, cs⟩ := by
    rw [descend_concat_eq, hn]
    rfl
  have hput : (c.putAt (way ++ [s] ++ rest) name content).at? way s =
      some (.directory n q (putAt ⟨q, cs⟩ rest name content).children) := by
    rw [List.append_assoc, putAt, List.singleton_append, at?_changeAt, hn]
    rfl
  rw [hn, hput]
  exact .some ⟨rfl, rfl, rfl, rfl, names_putAt content he rfl⟩

theorem descend_putAt_self : (c.putAt folders name content).descend folders =
    some (d.putAt [] name content) := by
  rw [putAt, descend_changeAt_self, hd]
  rfl

variable (name) in
theorem at?_putAt_self :
    ∃ q, (c.putAt folders name content).at? folders name = some (.file ⟨name, q, some content⟩) := by
  refine ⟨Path.join d.path name, ?_⟩
  rw [at?_of_descend (descend_putAt_self hd content)]
  exact (get?_upsert d.path (Node.newFile name (some content)) d.children name).trans (if_pos rfl)

include hfile

theorem at?_putAt_elsewhere {s : Text} (h : ¬ way ++ [s] <+: folders ++ [name]) :
    (c.putAt folders name content).at? way s = c.at? way s := by
  refine at?_changeAt_elsewhere ?_ h
  intro e he
  obtain rfl := Option.some.inj (hd.symm.trans he)
  have hget := get?_upsert d.path (Node.newFile name (some content)) d.children
  refine ⟨hfile, ?_, ?_⟩
  · intro n hn
    rw [hget, if_pos (by rfl)] at hn
    obtain rfl := Option.some.inj hn
    rfl
  · intro x hx
    rw [hget]
    exact if_neg hx

theorem kept_putAt {s : Text} (h : way ++ [s] ≠ folders ++ [name]) :
    Option.Rel (Node.Kept (c.added folders name (way ++ [s]))) (c.at? way s)
      ((c.putAt folders name content).at? way s) := by
  by_cases hway : way ++ [s] <+: folders
  · exact kept_on_way hd content hway
  · have hno : ¬ way ++ [s] <+: folders ++ [name] := fun hp =>
      (List.prefix_concat_iff.1 hp).elim h hway
    rw [at?_putAt_elsewhere hd hfile content hno,
      added_of_ne c name fun heq => hway ⟨[], (List.append_nil _).trans heq⟩]
    cases c.at? way s with
    | none => exact .none
    | some n => exact .some (Node.Kept.refl n)

theorem descend_putAt (place : List Text) :
    Option.Rel
      (fun e f => f.path = e.path ∧
        f.children.map Node.name = e.children.map Node.name ++ c.added folders name place)
      (c.descend place) ((c.putAt folders name content).descend place) := by
  by_cases hway : place <+: folders
  · obtain ⟨rest, rfl⟩ := hway
    rw [putAt, descend_changeAt]
    cases he : c.descend place with
    | none => exact .none
    | some e => exact .some ⟨rfl, names_putAt content he rfl⟩
  · obtain ⟨way, s, rfl⟩ := List.eq_nil_or_concat place |>.resolve_left
      fun h => hway (h ▸ List.nil_prefix)
    rw [List.concat_eq_append] at hway ⊢
    rw [added_of_ne c name fun heq => hway ⟨[], (List.append_nil _).trans heq⟩, descend_concat_eq,
      descend_concat_eq]
    by_cases hself : way ++ [s] = folders ++ [name]
    · -- A file before, if anything, and a file after.
      obtain ⟨rfl, hs⟩ := List.append_inj' hself rfl
      obtain rfl := List.singleton_inj.1 hs
      obtain ⟨q, hq⟩ := at?_putAt_self s hd content
      have hold : (c.at? way s).bind ofNode? = none := by
        rw [at?_of_descend hd]
        cases hg : get? s d.children with
        | none => simp
        | some n => simp [ofNode?_eq_none (hfile n hg)]
      rw [hold, hq]
      exact .none
    · have hno : ¬ way ++ [s] <+: folders ++ [name] := fun hp =>
        (List.prefix_concat_iff.1 hp).elim hself hway
      rw [at?_putAt_elsewhere hd hfile content hno]
      cases (c.at? way s).bind ofNode? with
      | none => exact .none
      | some e => exact .some ⟨rfl, (List.append_nil _).symm⟩

omit hfile

theorem position_putAt :
    (d.putAt [] name content).children.map Node.name =
      if name ∈ d.children.map Node.name then d.children.map Node.name
      else d.children.map Node.name ++ [name] := by
  rw [names_putAt content hd (List.append_nil _).symm, added, at?_of_descend hd]
  by_cases hm : name ∈ d.children.map Node.name
  · rw [if_pos hm, if_neg, List.append_nil]
    exact fun hg => Nodes.get?_eq_none_iff.1 hg.2 hm
  · rw [if_neg hm, if_pos ⟨rfl, Nodes.get?_eq_none_iff.2 hm⟩]

end

end Container

namespace Path

theorem exists_leaf {path : Text} (h : path.head? = some separator) :
    ∃ before leaf, path = before ++ separator :: leaf ∧ separator ∉ leaf := by
  cases hs : Text.splitAtLast? separator path with
  | some r => exact ⟨r.1, r.2, Text.eq_of_splitAtLast? hs⟩
  | none =>
    obtain ⟨rest, rfl⟩ := List.head?_eq_some_iff.1 h
    exact absurd List.mem_cons_self (Text.not_mem_of_splitAtLast? hs)

def IsMarker (s : Text) : Prop := s = [] ∨ s = "." ∨ s = ".."

theorem isName_eq_false_iff {s : Text} (hs : separator ∉ s) : isName s = false ↔ IsMarker s := by
  rw [← Bool.not_eq_true, isName_iff, IsMarker]
  simp only [hs, not_false_eq_true, true_and, ne_eq, Decidable.not_and_iff_not_or_not, Decidable.not_not]

end Path

namespace Tree

variable {t u : Tree} {before leaf : Text}

/-! ## What a path names -/

theorem node?_leaf (t : Tree) (before : Text) (hs : Path.separator ∉ leaf) :
    t.node? (before ++ Path.separator :: leaf) =
      if leaf = [] then none else t.root.at? (Path.segments before) leaf := by
  obtain ⟨hlast, hfront⟩ := Path.split_append before hs
  simp only [node?, hlast, directory?, hfront, Container.at?]
  cases t.root.descend (Path.segments before) with
  | none => simp
  | some c => simp [List.isEmpty_iff]

theorem node?_cases {path : Text} (hp : path.head? = some Path.separator) :
    (∀ t : Tree, t.node? path = none) ∨ ∃ way s, Path.segments path = way ++ [s] ∧
      ∀ t : Tree, t.node? path = t.root.at? way s := by
  obtain ⟨before, leaf, rfl, hs⟩ := Path.exists_leaf hp
  by_cases hnil : leaf = []
  · refine .inl fun t => ?_
    rw [node?_leaf t before hs, if_pos hnil]
  · refine .inr ⟨Path.segments before, leaf, Path.segments_leaf before hnil hs, fun t => ?_⟩
    rw [node?_leaf t before hs, if_neg hnil]

theorem file?_leaf (t : Tree) (before : Text) (hs : Path.separator ∉ leaf) :
    t.file? (before ++ Path.separator :: leaf) =
      (t.root.at? (Path.segments before) leaf).bind Node.file? := by
  obtain ⟨hlast, hfront⟩ := Path.split_append before hs
  rw [file?_eq_at?, hlast, hfront]

/-! ## Writing -/

/-- What a write to `leaf` behind `before` comes to: the first of three things that turn it away, if
there is one. -/
structure Outcomes (t : Tree) (before leaf : Text) (outcome : WriteOutcome) : Prop where
  invalidName : outcome = .invalidName ↔ Path.IsMarker leaf
  noParent : outcome = .noParent ↔
    ¬ Path.IsMarker leaf ∧ ¬ t.root.Passable (Path.segments before)
  isDirectory : outcome = .isDirectory ↔
    ¬ Path.IsMarker leaf ∧ t.root.Passable (Path.segments before) ∧
      ∃ n q cs, t.root.at? (Path.segments before) leaf = some (.directory n q cs)
  written : outcome = .written ↔
    ¬ Path.IsMarker leaf ∧ t.root.Passable (Path.segments before) ∧
      ¬ ∃ n q cs, t.root.at? (Path.segments before) leaf = some (.directory n q cs)

theorem outcomes_writeOutcome (t : Tree) (before : Text) (hs : Path.separator ∉ leaf) :
    t.Outcomes before leaf (t.writeOutcome (before ++ Path.separator :: leaf)) := by
  obtain ⟨hlast, hfront⟩ := Path.split_append before hs
  rw [writeOutcome]
  simp only [hlast, directory?, hfront]
  cases hn : Path.isName leaf with
  | false =>
    have hm : Path.IsMarker leaf := (Path.isName_eq_false_iff hs).1 hn
    constructor <;> simp [hm]
  | true =>
    have hm : ¬ Path.IsMarker leaf := fun hm => by
      rw [(Path.isName_eq_false_iff hs).2 hm] at hn
      cases hn
    cases hd : t.root.descend (Path.segments before) with
    | none =>
      have hp : ¬ t.root.Passable (Path.segments before) := by
        rw [Container.passable_iff, hd]
        simp
      constructor <;> simp [hm, hp]
    | some d =>
      have hp : t.root.Passable (Path.segments before) := Container.passable_iff.2 ⟨d, hd⟩
      have hat := Container.at?_of_descend hd leaf
      cases hg : get? leaf d.children with
      | none => constructor <;> simp [hm, hp, hat, hg]
      | some n => cases n <;> constructor <;> simp [hm, hp, hat, hg]

/-- What has become of a tree where a file has been written to `leaf` behind `before`. -/
structure Written (t u : Tree) (before leaf content : Text) : Prop where
  wellFormed : u.WellFormed
  /-- The file is found by the path that was given and by the one that its segments make. -/
  file : ∃ f, u.file? (before ++ Path.separator :: leaf) = some f ∧
    u.file? (Path.ofSegments (Path.segments (before ++ Path.separator :: leaf))) = some f ∧
    f.content = some content
  /-- One of that name is replaced in its position, and a new one comes last. -/
  position : ∃ c d, t.directory? before = some c ∧ u.directory? before = some d ∧
    d.children.map Node.name =
      if leaf ∈ c.children.map Node.name then c.children.map Node.name
      else c.children.map Node.name ++ [leaf]
  /-- Other paths name what they named; the directory that holds the file may have a new name last. -/
  others : ∀ q, q.head? = some Path.separator →
    Path.segments q ≠ Path.segments (before ++ Path.separator :: leaf) →
    Option.Rel
      (Node.Kept (t.root.added (Path.segments before) leaf (Path.segments q))) (t.node? q) (u.node? q)
  directories : ∀ q, Option.Rel
    (fun c d => d.path = c.path ∧ d.children.map Node.name =
      c.children.map Node.name ++ t.root.added (Path.segments before) leaf (Path.segments q))
    (t.directory? q) (u.directory? q)
  /-- What is not on the way to the file is the same with all that is below it. -/
  elsewhere : ∀ q, q.head? = some Path.separator →
    ¬ Path.segments q <+: Path.segments (before ++ Path.separator :: leaf) → u.node? q = t.node? q

theorem write_outcome (t : Tree) (path content : Text) :
    (t.write path content).2 = t.writeOutcome path := by
  rw [write_eq]
  split
  · next hw => exact hw.symm
  · rfl

theorem write_of_written {path : Text} (content : Text) (h : t.writeOutcome path = .written) :
    (t.write path content).1.root =
      t.root.putAt (Path.segments (Path.split path).1) (Path.split path).2 content := by
  rw [write_eq, h]
  rfl

theorem file?_write {path : Text} (content : Text) (h : t.writeOutcome path = .written) :
    ∃ f, (t.write path content).1.file? path = some f ∧ f.content = some content := by
  have hroot := write_of_written content h
  obtain ⟨d, hd⟩ : ∃ d, t.root.descend (Path.segments (Path.split path).1) = some d := by
    cases hd : t.directory? (Path.split path).1 with
    | some d => exact ⟨d, hd⟩
    | none =>
      rw [writeOutcome] at h
      simp [hd, isName_of_written h] at h
  obtain ⟨q, hq⟩ := Container.at?_putAt_self (Path.split path).2 hd content
  refine ⟨⟨(Path.split path).2, q, some content⟩, ?_, rfl⟩
  rw [file?_eq_at?, hroot, hq]
  rfl

theorem written_write (ht : t.WellFormed) (hs : Path.separator ∉ leaf) (content : Text)
    (h : t.writeOutcome (before ++ Path.separator :: leaf) = .written) :
    t.Written (t.write (before ++ Path.separator :: leaf) content).1 before leaf content := by
  obtain ⟨hlast, hfront⟩ := Path.split_append before hs
  obtain ⟨hmarker, hpass, hfree⟩ := (outcomes_writeOutcome t before hs).written.1 h
  obtain ⟨d, hd⟩ := Container.passable_iff.1 hpass
  have hsegments := Path.segments_leaf before (fun hnil => hmarker (.inl hnil)) hs
  have hfile : ∀ n, get? leaf d.children = some n → n.isDirectory = false := by
    intro n hn
    cases n with
    | file f => rfl
    | directory m q cs => exact absurd ⟨m, q, cs, (Container.at?_of_descend hd leaf).trans hn⟩ hfree
  obtain ⟨q, hq⟩ := Container.at?_putAt_self leaf hd content
  -- From here on the tree is known by its root alone.
  have hwf := wellFormed_write ht (before ++ Path.separator :: leaf) content
  have hroot := write_of_written content h
  rw [hlast, hfront] at hroot
  generalize (t.write (before ++ Path.separator :: leaf) content).1 = u at hroot hwf
  rw [← hroot] at hq
  constructor
  case wellFormed => exact hwf
  case file =>
    obtain ⟨front, hpath, hfront⟩ := Path.ofSegments_append_singleton
      (fun s (hs : s ∈ Path.segments before) => Path.isPiece_of_mem_segments hs) leaf
    refine ⟨⟨leaf, q, some content⟩, ?_, ?_, rfl⟩
    · rw [file?_leaf u before hs, hq]
      rfl
    · rw [hsegments, hpath, file?_leaf u front hs, hfront, hq]
      rfl
  case position =>
    refine ⟨d, d.putAt [] leaf content, hd, ?_, Container.position_putAt hd content⟩
    rw [directory?, hroot]
    exact Container.descend_putAt_self hd content
  case others =>
    intro r hr hne
    rcases node?_cases hr with hnone | ⟨way, s, hway, hnode⟩
    · rw [hnone, hnone]
      exact .none
    · rw [hnode, hnode, hroot, hway]
      rw [hway, hsegments] at hne
      exact Container.kept_putAt hd hfile content hne
  case directories =>
    intro r
    rw [directory?, directory?, hroot]
    exact Container.descend_putAt hd hfile content (Path.segments r)
  case elsewhere =>
    intro r hr hno
    rcases node?_cases hr with hnone | ⟨way, s, hway, hnode⟩
    · rw [hnone, hnone]
    · rw [hnode, hnode, hroot]
      rw [hway, hsegments] at hno
      exact Container.at?_putAt_elsewhere hd hfile content hno

/-- A write changes one path. Its outcome is the first thing that turns it away, if there is one, and then
nothing changes; otherwise the file is there, and every other path names what it named before. -/
theorem write_changes_one_path (ht : t.WellFormed) {path : Text}
    (hp : path.head? = some Path.separator) (content : Text) :
    ∃ before leaf, path = before ++ Path.separator :: leaf ∧ Path.separator ∉ leaf ∧
      t.Outcomes before leaf (t.write path content).2 ∧
      ((t.write path content).2 ≠ .written → (t.write path content).1 = t) ∧
      ((t.write path content).2 = .written →
        t.Written (t.write path content).1 before leaf content) := by
  obtain ⟨before, leaf, rfl, hs⟩ := Path.exists_leaf hp
  refine ⟨before, leaf, rfl, hs, ?_, ?_, ?_⟩
  · rw [write_outcome]
    exact outcomes_writeOutcome t before hs
  · intro hne
    rw [write_outcome] at hne
    rw [write_eq]
    split
    · next hw => exact absurd hw hne
    · rfl
  · intro hw
    rw [write_outcome] at hw
    exact written_write ht hs content hw

theorem write_changes_one_path_replaced :
    let t := Baseline.initialTree
    let path : Text := "//readme.txt"
    (t.WellFormed ∧ path.head? = some Path.separator ∧ (t.write path "new").2 = .written) ∧
      ∃ before leaf, path = before ++ Path.separator :: leaf ∧ Path.separator ∉ leaf ∧
        t.Outcomes before leaf (t.write path "new").2 ∧
        ((t.write path "new").2 ≠ .written → (t.write path "new").1 = t) ∧
        ((t.write path "new").2 = .written →
          t.Written (t.write path "new").1 before leaf "new") := by
  intro t path
  have ht : t.WellFormed := Baseline.wellFormed_initialTree
  have hp : path.head? = some Path.separator := by decide
  exact ⟨⟨ht, hp, by decide +kernel⟩, write_changes_one_path ht hp "new"⟩

end Tree

end ThreatDesk
