import ThreatDesk.Proofs.Tree.Store

/-!
# Trees that only grow

A tree grows if every directory is still one, with the names it had in front of any others, and every
file is still one. Whatever extends a tree grows it (`keeps_of_extends`), and so do writing and making
a directory. In a well-formed tree a file is found by its own path (`file?_path`), and in whatever that
grows into by the same path under the same name (`Keeps.file?`).
-/

namespace ThreatDesk

open Node (WellPlacedAll)
open Nodes (get? upsert changeAt)

namespace Container

abbrev Grows (c d : Container) : Prop := Extends (fun _ _ => True) c d

theorem grows_of {c d : Container}
    (hkinds : ∀ folders name m, c.at? folders name = some m →
      ∃ n, d.at? folders name = some n ∧ n.isDirectory = m.isDirectory)
    (horders : ∀ folders e, c.descend folders = some e → ∃ f, d.descend folders = some f ∧
      f.path = e.path ∧ e.children.map Node.name <+: f.children.map Node.name) : Grows c d where
  kinds := hkinds
  files _ _ _ _ hno := absurd trivial hno
  orders := horders
  fresh folders name n _ _ := by
    cases hn : n.isDirectory with
    | false => exact Or.inl ⟨trivial, rfl⟩
    | true => exact Or.inr ⟨rfl, folders ++ [name], name, trivial, List.prefix_refl _⟩

theorem grows_changeAt {change : Change} {folders : List Text} {p : Text} {nodes : List Node}
    (h : ∀ e, descend ⟨p, nodes⟩ folders = some e → Grows e ⟨e.path, change e.path e.children⟩) :
    Grows ⟨p, nodes⟩ ⟨p, changeAt change p nodes folders⟩ := by
  induction folders generalizing p nodes with
  | nil => exact h ⟨p, nodes⟩ rfl
  | cons s rest ih =>
    rw [changeAt]
    split
    · next n q cs hg =>
      have hname : n = s := (Nodes.get?_eq_some hg).2
      have hkeep : ∀ m : Node, m.name = s →
          (Node.directory n q (changeAt change q cs rest)).name = s := fun _ _ => hname
      have hinner : Grows ⟨q, cs⟩ ⟨q, changeAt change q cs rest⟩ := ih fun e he =>
        h e ((descend_directory (c := ⟨p, nodes⟩) hg rest).trans he)
      refine (extends_child (n := n) (q := q) ?_ ?_ (Or.inl hg) hinner).mono fun _ _ _ => trivial
      · intro x
        rw [Nodes.get?_modify hkeep, hg, Option.map_some]
      · exact (Nodes.map_name_modify hkeep).symm ▸ List.prefix_refl _
    · exact Extends.refl _ _

theorem grows_append (p : Text) (nodes more : List Node) :
    Grows ⟨p, nodes⟩ ⟨p, nodes ++ more⟩ := by
  have hget {x : Text} {n : Node} (h : get? x nodes = some n) :
      get? x (nodes ++ more) = some n := by
    rw [Nodes.get?_append, h, Option.some_or]
  have hdescend {s : Text} {rest : List Text} {e : Container}
      (h : descend ⟨p, nodes⟩ (s :: rest) = some e) :
      descend ⟨p, nodes ++ more⟩ (s :: rest) = some e := by
    cases hg : get? s nodes with
    | none => exact absurd ((descend_none (c := ⟨p, nodes⟩) hg rest).symm.trans h) (by simp)
    | some n =>
      refine (descend_congr ?_ rest).symm.trans h
      exact hg.trans (hget hg).symm
  refine grows_of ?_ ?_
  · intro folders name m hm
    refine ⟨m, ?_, rfl⟩
    cases folders with
    | nil => exact hget hm
    | cons s rest =>
      obtain ⟨e, he, hm⟩ := Option.bind_eq_some_iff.1 hm
      exact Option.bind_eq_some_iff.2 ⟨e, hdescend he, hm⟩
  · intro folders e he
    cases folders with
    | nil =>
      obtain rfl := Option.some.inj he
      exact ⟨_, rfl, rfl, by simp⟩
    | cons s rest => exact ⟨e, hdescend he, rfl, List.prefix_refl _⟩

theorem placed_descend {c d : Container} {way folders : List Text}
    (hway : ∀ s ∈ way, Path.isName s = true) (hpath : c.path = Path.ofSegments way)
    (hc : WellPlacedAll c.path c.children) (h : c.descend folders = some d) :
    (∀ s ∈ way ++ folders, Path.isName s = true) ∧ d.path = Path.ofSegments (way ++ folders) ∧
      WellPlacedAll d.path d.children := by
  induction folders generalizing c way with
  | nil =>
    obtain rfl := Option.some.inj h
    rw [List.append_nil]
    exact ⟨hway, hpath, hc⟩
  | cons s rest ih =>
    rw [descend_cons] at h
    split at h
    · next n q cs hg =>
      obtain ⟨rfl, hn, hq, hcs⟩ := Nodes.wellPlaced_directory hc hg
      rw [hpath, ← Path.ofSegments_append hway] at hq
      rw [List.append_cons]
      exact ih (c := ⟨q, cs⟩) (List.forall_mem_append.2 ⟨hway, List.forall_mem_singleton.2 hn⟩) hq
        hcs h
    · exact absurd h (by simp)

end Container

namespace Tree

open Container (Extends Grows)

/-- Every path that names a directory or a file goes on to do so, and what stood in a directory stands
there in the same order, in front of what is new. -/
structure Keeps (t u : Tree) : Prop where
  directories : ∀ path c, t.directory? path = some c →
    ∃ d, u.directory? path = some d ∧ c.children.map Node.name <+: d.children.map Node.name
  files : ∀ path, (t.file? path).isSome = true → (u.file? path).isSome = true

theorem file?_eq_at? (t : Tree) (path : Text) :
    t.file? path =
      (t.root.at? (Path.segments (Path.split path).1) (Path.split path).2).bind Node.file? := by
  simp only [file?, directory?, Container.at?]
  cases t.root.descend (Path.segments (Path.split path).1) <;> rfl

theorem keeps_of_extends {targets : List Text → Text → Prop} {t u : Tree}
    (h : Extends targets t.root u.root) : t.Keeps u where
  directories path c hc := by
    obtain ⟨d, hd, -, hp⟩ := h.orders _ c hc
    exact ⟨d, hd, hp⟩
  files path hf := by
    rw [file?_eq_at?] at hf ⊢
    obtain ⟨f, hf⟩ := Option.isSome_iff_exists.1 hf
    obtain ⟨m, hm, hmf⟩ := Option.bind_eq_some_iff.1 hf
    obtain rfl := file?_eq_some hmf
    obtain ⟨n, hn, hkind⟩ := h.kinds _ _ _ hm
    rw [hn]
    cases n with
    | file g => rfl
    | directory _ _ _ => exact absurd hkind (by simp [Node.isDirectory])

theorem grows_write (t : Tree) (path content : Text) :
    Grows t.root (t.write path content).1.root := by
  rw [write_eq]
  split
  · next hw =>
    refine Container.grows_changeAt fun e he => ?_
    refine (Container.extends_upsert ?_ e.path _).mono fun _ _ _ => trivial
    have he : t.directory? (Path.split path).1 = some e := he
    intro n hn
    cases n with
    | file f => rfl
    | directory m q cs =>
      -- A directory of that name would have turned the write away.
      have hname := isName_of_written hw
      rw [writeOutcome] at hw
      simp only [hname, he, hn] at hw
      exact nomatch hw
  · exact Extends.refl _ _

theorem grows_makeDirectory (t : Tree) (path name : Text) :
    Grows t.root (t.makeDirectory path name).root := by
  refine Container.grows_changeAt fun e _ => ?_
  unfold Nodes.add?
  split
  · exact Extends.refl _ _
  · exact Container.grows_append ..

/-! ## Where files stand -/

theorem file?_name {t : Tree} {path : Text} {f : File} (h : t.file? path = some f) :
    f.name = (Path.split path).2 := by
  rw [file?_eq_at?] at h
  obtain ⟨n, hn, hnf⟩ := Option.bind_eq_some_iff.1 h
  obtain rfl := file?_eq_some hnf
  obtain ⟨c, -, hg⟩ := Option.bind_eq_some_iff.1 hn
  exact (Nodes.get?_eq_some hg).2

theorem file?_path {t : Tree} (ht : t.WellFormed) {path : Text} {f : File}
    (h : t.file? path = some f) : t.file? f.path = some f := by
  rw [file?_eq_at?] at h
  obtain ⟨n, hn, hnf⟩ := Option.bind_eq_some_iff.1 h
  obtain rfl := file?_eq_some hnf
  obtain ⟨c, hc, hg⟩ := Option.bind_eq_some_iff.1 hn
  have hroot : t.root.path = Path.ofSegments [] := rfl
  obtain ⟨hnames, hpath, hplaced⟩ :=
    Container.placed_descend (List.forall_mem_nil _) hroot ht hc
  obtain ⟨hname, hf⟩ := Nodes.wellPlaced_of_get? hplaced hg
  rw [← (Nodes.get?_eq_some hg).2] at hg
  rw [hpath] at hf
  rw [hf, file?_eq (Path.split_join (Path.ofSegments_ne_nil _) hname)
    (Path.segments_ofSegments hnames)]
  exact Option.bind_eq_some_iff.2 ⟨.file f, Option.bind_eq_some_iff.2 ⟨c, hc, hg⟩, rfl⟩

namespace Keeps

variable {t u : Tree}

theorem file? (h : t.Keeps u) {path : Text} {f : File} (hf : t.file? path = some f) :
    ∃ g, u.file? path = some g ∧ g.name = f.name := by
  obtain ⟨g, hg⟩ := Option.isSome_iff_exists.1 (h.files path (by rw [hf]; rfl))
  exact ⟨g, hg, (file?_name hg).trans (file?_name hf).symm⟩

theorem hasSource (h : t.Keeps u) (ht : Baseline.hasSource t = true) :
    Baseline.hasSource u = true := by
  obtain ⟨c, hc, hnames⟩ := h.directories Path.root t.root rfl
  obtain rfl : u.root = c := Option.some.inj hc
  exact Nodes.has_eq_true_iff.2 (hnames.subset (Nodes.has_eq_true_iff.1 ht))

end Keeps

end Tree

end ThreatDesk
