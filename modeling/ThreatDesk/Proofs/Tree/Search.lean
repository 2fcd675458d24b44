import ThreatDesk.Proofs.Tree.Writing
import Mathlib.Data.List.Infix

/-!
# Searching and looking up

The nodes of a tree in order, each before what is below it, are what a search goes through. Every one of
them is found at its own path and at no other place (`node?_path`, `path_of_at?`), and no two have the
same (`nodup_paths`). Main statement: `search_agrees`.
-/

namespace ThreatDesk

open Nodes (get?)

namespace Text

theorem occurs_iff {needle t : Text} : occurs needle t = true ↔ needle <:+: t := by
  induction t with
  | nil => rw [occurs, List.isEmpty_iff, List.infix_nil]
  | cons c t ih => rw [occurs, Bool.or_eq_true, startsWith_iff, ih, List.infix_cons_iff]

end Text

namespace Node

/-! ## All nodes -/

mutual

def preorder : Node → List Node
  | .file f => [.file f]
  | .directory name path children => .directory name path children :: preorderAll children

def preorderAll : List Node → List Node
  | [] => []
  | n :: ns => preorder n ++ preorderAll ns

end

mutual

theorem files_eq : (n : Node) → files n = (preorder n).filterMap file?
  | .file f => rfl
  | .directory name path children => by
    rw [files, preorder, List.filterMap_cons_none rfl, allFiles_eq children]

theorem allFiles_eq : (ns : List Node) → allFiles ns = (preorderAll ns).filterMap file?
  | [] => rfl
  | n :: ns => by rw [allFiles, preorderAll, List.filterMap_append, files_eq n, allFiles_eq ns]

end

def named (needle : Text) (ns : List Node) : List Node :=
  ns.filter fun n => decide (needle <:+: n.name)

theorem map_path_named_cons (needle : Text) (n : Node) (ns : List Node) :
    (named needle (n :: ns)).map path =
      (if Text.occurs needle n.name then [n.path] else []) ++ (named needle ns).map path := by
  rw [named, List.filter_cons]
  by_cases h : needle <:+: n.name
  · rw [if_pos (decide_eq_true h), if_pos (Text.occurs_iff.2 h)]
    rfl
  · rw [if_neg (by simpa using h), if_neg (fun ho => h (Text.occurs_iff.1 ho))]
    rfl

mutual

theorem matching_eq (needle : Text) {parent : Text} :
    {n : Node} → WellPlaced parent n → matching needle parent n = (named needle (preorder n)).map path
  | .file f, h => by
    rw [matching, preorder, map_path_named_cons, ← h.2]
    exact (List.append_nil _).symm
  | .directory name p children, h => by
    obtain ⟨-, rfl, hc⟩ := h
    rw [matching, preorder, map_path_named_cons]
    exact congrArg _ (matchingAll_eq needle hc)

theorem matchingAll_eq (needle : Text) {parent : Text} :
    {ns : List Node} → WellPlacedAll parent ns →
      matchingAll needle parent ns = (named needle (preorderAll ns)).map path
  | [], _ => rfl
  | n :: ns, h => by
    rw [matchingAll, matching_eq needle h.1, matchingAll_eq needle h.2.2, ← List.map_append, named,
      named, ← List.filter_append]
    rfl

end

/-! ## Where they stand -/

/-- The node is another one, or at a place behind it. -/
inductive Leads (m : Node) : Node → Prop
  | self : Leads m m
  | below {name path : Text} {children : List Node} {folders : List Text}
    (h : Container.at? ⟨path, children⟩ folders m.name = some m) :
    Leads m (.directory name path children)

theorem Leads.exists_at? {m n : Node} (h : Leads m n) {parent : Text} {ns : List Node}
    (hns : WellPlacedAll parent ns) (hn : n ∈ ns) :
    ∃ folders, Container.at? ⟨parent, ns⟩ folders m.name = some m := by
  have hget := Nodes.get?_of_mem hns hn
  cases h with
  | self => exact ⟨[], hget⟩
  | @below name path children folders hat =>
    exact ⟨name :: folders, (Container.at?_directory hget folders m.name).trans hat⟩

mutual

theorem leads_of_mem {parent : Text} {m : Node} :
    {n : Node} → WellPlaced parent n → m ∈ preorder n → Leads m n
  | .file f, _, hm => List.mem_singleton.1 hm ▸ .self
  | .directory name path children, h, hm => by
    rcases List.mem_cons.1 hm with rfl | hm
    · exact .self
    · obtain ⟨n, hn, hleads⟩ := exists_leads h.2.2 hm
      obtain ⟨folders, hat⟩ := hleads.exists_at? h.2.2 hn
      exact .below hat

theorem exists_leads {parent : Text} {m : Node} :
    {ns : List Node} → WellPlacedAll parent ns → m ∈ preorderAll ns → ∃ n ∈ ns, Leads m n
  | n :: ns, h, hm => by
    rcases List.mem_append.1 hm with hm | hm
    · exact ⟨n, List.mem_cons_self, leads_of_mem h.1 hm⟩
    · obtain ⟨k, hk, hleads⟩ := exists_leads h.2.2 hm
      exact ⟨k, List.mem_cons_of_mem n hk, hleads⟩

end

theorem exists_at?_of_mem {parent : Text} {ns : List Node} (h : WellPlacedAll parent ns) {m : Node}
    (hm : m ∈ preorderAll ns) : ∃ folders, Container.at? ⟨parent, ns⟩ folders m.name = some m := by
  obtain ⟨n, hn, hleads⟩ := exists_leads h hm
  exact hleads.exists_at? h hn

theorem mem_preorder_self (n : Node) : n ∈ preorder n := by
  cases n <;> exact List.mem_cons_self

theorem preorder_subset {n : Node} {ns : List Node} (hn : n ∈ ns) : preorder n ⊆ preorderAll ns := by
  induction ns with
  | nil => exact nomatch hn
  | cons k ns ih =>
    rcases List.mem_cons.1 hn with rfl | hn
    · exact List.subset_append_left _ _
    · exact fun m hm => List.mem_append_right _ (ih hn hm)

theorem mem_preorderAll_of_at? {c : Container} {folders : List Text} {name : Text} {n : Node}
    (h : c.at? folders name = some n) : n ∈ preorderAll c.children := by
  obtain ⟨d, hd, hn⟩ := Option.bind_eq_some_iff.1 h
  clear h
  induction folders generalizing c with
  | nil =>
    obtain rfl := Option.some.inj hd
    exact preorder_subset (Nodes.get?_eq_some hn).1 (mem_preorder_self n)
  | cons s rest ih =>
    rw [Container.descend_cons] at hd
    split at hd
    · next k path children hk =>
      exact preorder_subset (Nodes.get?_eq_some hk).1 (List.mem_cons_of_mem _ (ih hd))
    · exact nomatch hd

theorem not_under_both {way path : List Text} {s u : Text} (hne : u ≠ s)
    (hs : way ++ [s] <+: path) : ¬ way ++ [u] <+: path := by
  intro hu
  have heq := List.prefix_of_prefix_length_le hu hs (by simp)
  have := heq.eq_of_length (by simp)
  exact hne (List.singleton_inj.1 (List.append_cancel_left this))

theorem segments_path {way : List Text} (hway : ∀ s ∈ way, Path.isName s = true) {n : Node}
    (h : WellPlaced (Path.ofSegments way) n) : Path.segments n.path = way ++ [n.name] := by
  rw [h.path_eq, Path.segments_join _ h.isName, Path.segments_ofSegments hway]

mutual

/-- No two nodes have one path, for each path goes on from the node's own place. -/
theorem nodup_preorder {way : List Text} (hway : ∀ s ∈ way, Path.isName s = true) :
    {n : Node} → WellPlaced (Path.ofSegments way) n → ((preorder n).map path).Nodup ∧
      ∀ m ∈ preorder n, way ++ [n.name] <+: Path.segments m.path
  | .file f, h => by
    refine ⟨List.pairwise_singleton _ _, List.forall_mem_singleton.2 ?_⟩
    exact segments_path hway h ▸ List.prefix_refl _
  | .directory name p children, h => by
    have hself := segments_path hway h
    obtain ⟨hname, rfl, hc⟩ := h
    have hnames : ∀ s ∈ way ++ [name], Path.isName s = true :=
      List.forall_mem_append.2 ⟨hway, List.forall_mem_singleton.2 hname⟩
    rw [← Path.ofSegments_append hway] at hc hself ⊢
    obtain ⟨hnodup, hunder⟩ := nodup_preorderAll hnames hc
    refine ⟨List.nodup_cons.2 ⟨?_, hnodup⟩, List.forall_mem_cons.2 ⟨?_, ?_⟩⟩
    · intro hmem
      obtain ⟨m, hm, hpath⟩ := List.mem_map.1 hmem
      obtain ⟨n, -, hprefix⟩ := hunder m hm
      have hlen := hprefix.length_le
      rw [hpath, hself, List.length_append] at hlen
      exact absurd hlen (Nat.not_succ_le_self _)
    · exact ⟨[], (List.append_nil _).trans hself.symm⟩
    · intro m hm
      obtain ⟨n, -, hprefix⟩ := hunder m hm
      exact (List.prefix_append _ _).trans hprefix

theorem nodup_preorderAll {way : List Text} (hway : ∀ s ∈ way, Path.isName s = true) :
    {ns : List Node} → WellPlacedAll (Path.ofSegments way) ns → ((preorderAll ns).map path).Nodup ∧
      ∀ m ∈ preorderAll ns, ∃ n ∈ ns, way ++ [n.name] <+: Path.segments m.path
  | [], _ => ⟨List.nodup_nil, List.forall_mem_nil _⟩
  | n :: ns, h => by
    obtain ⟨hn, hfresh, hns⟩ := h
    obtain ⟨hfirst, hunder⟩ := nodup_preorder hway hn
    obtain ⟨hrest, hothers⟩ := nodup_preorderAll hway hns
    refine ⟨?_, List.forall_mem_append.2 ⟨?_, ?_⟩⟩
    · rw [preorderAll, List.map_append, List.nodup_append]
      refine ⟨hfirst, hrest, ?_⟩
      intro a ha b hb heq
      obtain ⟨m, hm, rfl⟩ := List.mem_map.1 ha
      obtain ⟨k, hk, rfl⟩ := List.mem_map.1 hb
      obtain ⟨l, hl, hprefix⟩ := hothers k hk
      exact not_under_both (hfresh l hl) (hunder m hm) (heq ▸ hprefix)
    · exact fun m hm => ⟨n, List.mem_cons_self, hunder m hm⟩
    · intro m hm
      obtain ⟨k, hk, hprefix⟩ := hothers m hm
      exact ⟨k, List.mem_cons_of_mem n hk, hprefix⟩

end

end Node

namespace Tree

variable {t : Tree}

def nodes (t : Tree) : List Node := Node.preorderAll t.children

theorem find_eq (ht : t.WellFormed) (needle : Text) :
    t.find needle = (Node.named needle t.nodes).map Node.path :=
  Node.matchingAll_eq needle ht

theorem nodup_paths (ht : t.WellFormed) : (t.nodes.map Node.path).Nodup := by
  have hroot : Node.WellPlacedAll (Path.ofSegments []) t.children := ht
  exact (Node.nodup_preorderAll (List.forall_mem_nil _) hroot).1

theorem path_of_at? (ht : t.WellFormed) {folders : List Text} {name : Text} {n : Node}
    (h : t.root.at? folders name = some n) :
    (∀ s ∈ folders, Path.isName s = true) ∧ Path.isName name = true ∧
      n.path = Path.ofSegments (folders ++ [name]) := by
  obtain ⟨c, hc, hg⟩ := Option.bind_eq_some_iff.1 h
  have hroot : t.root.path = Path.ofSegments [] := rfl
  obtain ⟨hnames, hpath, hplaced⟩ := Container.placed_descend (List.forall_mem_nil _) hroot ht hc
  rw [List.nil_append] at hnames hpath
  have hn := Nodes.wellPlaced_of_get? hplaced hg
  obtain ⟨-, rfl⟩ := Nodes.get?_eq_some hg
  exact ⟨hnames, hn.isName, by rw [hn.path_eq, hpath, Path.ofSegments_append hnames]⟩

theorem node?_path (ht : t.WellFormed) {n : Node} (hn : n ∈ t.nodes) : t.node? n.path = some n := by
  obtain ⟨folders, hat⟩ := Node.exists_at?_of_mem ht hn
  obtain ⟨hnames, hname, hpath⟩ := path_of_at? ht hat
  obtain ⟨before, heq, hbefore⟩ := Path.ofSegments_append_singleton
    (fun s hs => Path.isPiece_of_isName (hnames s hs)) n.name
  have hpiece := Path.isPiece_of_isName hname
  rw [hpath, heq, node?_leaf t before hpiece.2, if_neg hpiece.1, hbefore]
  exact hat

theorem at?_of_node? {path : Text} (hp : path.head? = some Path.separator) {n : Node}
    (h : t.node? path = some n) :
    ∃ folders name, Path.segments path = folders ++ [name] ∧ t.root.at? folders name = some n ∧
      t.file? path = n.file? ∧ t.directory? path = Container.ofNode? n := by
  obtain ⟨before, leaf, rfl, hs⟩ := Path.exists_leaf hp
  rw [node?_leaf t before hs] at h
  split at h
  · exact nomatch h
  · next hne =>
    have hsegments := Path.segments_leaf before hne hs
    refine ⟨Path.segments before, leaf, hsegments, h, ?_, ?_⟩
    · rw [file?_leaf t before hs, h]
      rfl
    · rw [directory?, hsegments, Container.descend_concat_eq, h]
      rfl

/-- What a search, a walk and looking up have to do with one another. -/
structure Agreeing (t : Tree) : Prop where
  /-- A search finds the paths of the nodes whose names contain the needle, each once and in order. -/
  found : ∀ needle, t.find needle = (Node.named needle t.nodes).map Node.path ∧ (t.find needle).Nodup
  /-- What has been found is there. -/
  there : ∀ n ∈ t.nodes, t.node? n.path = some n
  /-- What a path from the root names has the path of its segments, and is a file there or a directory. -/
  named : ∀ path n, path.head? = some Path.separator → t.node? path = some n →
    n ∈ t.nodes ∧ Path.ofSegments (Path.segments path) = n.path ∧
      t.file? path = n.file? ∧ t.directory? path = Container.ofNode? n
  /-- A walk meets the files among what is found where anything is looked for. -/
  walked : Node.allFiles t.children = (t.find []).filterMap t.file?

/-- Search, walk and lookup agree in every well-formed tree. -/
theorem search_agrees (ht : t.WellFormed) : t.Agreeing where
  found needle := by
    rw [find_eq ht]
    exact ⟨rfl, (nodup_paths ht).sublist (List.filter_sublist.map _)⟩
  there n hn := node?_path ht hn
  named path n hp hn := by
    obtain ⟨folders, name, hsegments, hat, hfile, hdirectory⟩ := at?_of_node? hp hn
    refine ⟨Node.mem_preorderAll_of_at? hat, ?_, hfile, hdirectory⟩
    rw [hsegments, (path_of_at? ht hat).2.2]
  walked := by
    have hall : Node.named [] t.nodes = t.nodes :=
      List.filter_eq_self.2 fun n _ => decide_eq_true (List.nil_infix)
    have hfile : ∀ n ∈ t.nodes, t.file? n.path = n.file? := by
      intro n hn
      have hpath : n.path.head? = some Path.separator := by
        obtain ⟨folders, hat⟩ := Node.exists_at?_of_mem ht hn
        rw [(path_of_at? ht hat).2.2]
        rfl
      obtain ⟨-, -, -, -, hfile, -⟩ := at?_of_node? hpath (node?_path ht hn)
      exact hfile
    rw [Node.allFiles_eq, find_eq ht, hall, List.filterMap_map]
    exact (List.filterMap_congr hfile).symm

theorem search_agrees_written :
    (Baseline.initialTree.write "/docs/a.py" "x").1.WellFormed ∧
      (Baseline.initialTree.write "/docs/a.py" "x").1.Agreeing := by
  have ht := wellFormed_write Baseline.wellFormed_initialTree "/docs/a.py" "x"
  exact ⟨ht, search_agrees ht⟩

end Tree

end ThreatDesk
