import ThreatDesk.Tree.Lookup

/-!
# Nodes in their places

What is placed well stays so when siblings are changed, and a node that is put somewhere else is given
the paths of its new place. Main statement: children are placed well if each one is and their names
differ (`wellPlacedAll_iff`).
-/

namespace ThreatDesk

namespace Node

/-! ## Giving paths -/

theorem name_rebase (parent : Text) (n : Node) : (n.rebase parent).name = n.name := by
  cases n <;> rfl

theorem rebaseAll_eq_map (parent : Text) (ns : List Node) :
    rebaseAll parent ns = ns.map (rebase parent) := by
  induction ns with
  | nil => rfl
  | cons n ns ih => rw [rebaseAll, ih, List.map_cons]

mutual

theorem rebase_rebase (p q : Text) : (n : Node) → (n.rebase p).rebase q = n.rebase q
  | .file _ => rfl
  | .directory name path children => by
    rw [rebase, rebase, rebase, rebaseAll_rebaseAll]

theorem rebaseAll_rebaseAll (p q : Text) :
    (ns : List Node) → rebaseAll q (rebaseAll p ns) = rebaseAll q ns
  | [] => rfl
  | n :: ns => by
    rw [rebaseAll, rebaseAll, rebaseAll, rebase_rebase, rebaseAll_rebaseAll]

end

/-! ## One node -/

theorem WellPlaced.isName {parent : Text} {n : Node} (h : WellPlaced parent n) :
    Path.isName n.name = true := by
  cases n with
  | file f => exact h.1
  | directory name path children => exact h.1

theorem WellPlaced.path_eq {parent : Text} {n : Node} (h : WellPlaced parent n) :
    n.path = Path.join parent n.name := by
  cases n with
  | file f => exact h.2
  | directory name path children => exact h.2.1

/-! ## Children of one directory -/

theorem wellPlacedAll_iff {parent : Text} {ns : List Node} :
    WellPlacedAll parent ns ↔ (∀ n ∈ ns, WellPlaced parent n) ∧ (ns.map name).Nodup := by
  induction ns with
  | nil => simp [WellPlacedAll]
  | cons n ns ih =>
    have hne : (∀ m ∈ ns, m.name ≠ n.name) ↔ n.name ∉ ns.map name := by
      simp only [List.mem_map, not_exists, not_and]
    rw [WellPlacedAll, ih, hne, List.forall_mem_cons, List.map_cons, List.nodup_cons]
    constructor
    · rintro ⟨hn, hm, hns, hd⟩
      exact ⟨⟨hn, hns⟩, hm, hd⟩
    · rintro ⟨⟨hn, hns⟩, hm, hd⟩
      exact ⟨hn, hm, hns, hd⟩

theorem WellPlacedAll.of_mem {parent : Text} {ns : List Node} (h : WellPlacedAll parent ns)
    {n : Node} (hn : n ∈ ns) : WellPlaced parent n :=
  (wellPlacedAll_iff.1 h).1 n hn

theorem wellPlacedAll_append_singleton {parent : Text} {ns : List Node} {n : Node}
    (h : WellPlacedAll parent ns) (hn : WellPlaced parent n) (hd : n.name ∉ ns.map name) :
    WellPlacedAll parent (ns ++ [n]) := by
  obtain ⟨hall, hnodup⟩ := wellPlacedAll_iff.1 h
  refine wellPlacedAll_iff.2 ⟨?_, ?_⟩
  · intro m hm
    rcases List.mem_append.1 hm with hm | hm
    · exact hall m hm
    · rw [List.mem_singleton.1 hm]
      exact hn
  · rw [List.map_append, List.nodup_append]
    refine ⟨hnodup, by simp, ?_⟩
    intro a ha b hb
    rw [List.mem_singleton.1 hb]
    rintro rfl
    exact hd ha

/-! ## Subtrees without a place -/

mutual

/-- Whether the subtree can be placed well: its names are valid, and those of siblings differ. Its paths
may be anything. -/
def Fit : Node → Prop
  | .file f => Path.isName f.name
  | .directory name _ children => Path.isName name ∧ FitAll children

def FitAll : List Node → Prop
  | [] => True
  | n :: ns => Fit n ∧ (∀ m ∈ ns, m.name ≠ n.name) ∧ FitAll ns

end

mutual

theorem WellPlaced.fit {p : Text} : {n : Node} → WellPlaced p n → n.Fit
  | .file _, h => h.1
  | .directory _ _ _, h => ⟨h.1, h.2.2.fitAll⟩

theorem WellPlacedAll.fitAll {p : Text} : {ns : List Node} → WellPlacedAll p ns → FitAll ns
  | [], _ => trivial
  | _ :: _, h => ⟨h.1.fit, h.2.1, h.2.2.fitAll⟩

end

mutual

theorem Fit.rebase (q : Text) : {n : Node} → n.Fit → WellPlaced q (n.rebase q)
  | .file _, h => ⟨h, rfl⟩
  | .directory name _ _, h => ⟨h.1, rfl, h.2.rebaseAll (Path.join q name)⟩

theorem FitAll.rebaseAll (q : Text) :
    {ns : List Node} → FitAll ns → WellPlacedAll q (Node.rebaseAll q ns)
  | [], _ => trivial
  | n :: ns, h => by
    refine ⟨h.1.rebase q, ?_, h.2.2.rebaseAll q⟩
    rw [rebaseAll_eq_map]
    intro m hm
    obtain ⟨k, hk, rfl⟩ := List.mem_map.1 hm
    rw [name_rebase, name_rebase]
    exact h.2.1 k hk

end

theorem WellPlaced.rebase {p : Text} (q : Text) {n : Node} (h : WellPlaced p n) :
    WellPlaced q (n.rebase q) :=
  h.fit.rebase q

theorem WellPlacedAll.rebaseAll {p : Text} (q : Text) {ns : List Node} (h : WellPlacedAll p ns) :
    WellPlacedAll q (Node.rebaseAll q ns) :=
  h.fitAll.rebaseAll q

mutual

theorem WellPlaced.rebase_eq {p : Text} : {n : Node} → WellPlaced p n → n.rebase p = n
  | .file f, h => by
    obtain ⟨-, hp⟩ := h
    rw [rebase, ← hp]
  | .directory name path children, h => by
    obtain ⟨-, rfl, hc⟩ := h
    rw [rebase, hc.rebaseAll_eq]

theorem WellPlacedAll.rebaseAll_eq {p : Text} :
    {ns : List Node} → WellPlacedAll p ns → Node.rebaseAll p ns = ns
  | [], _ => rfl
  | n :: ns, h => by rw [rebaseAll, h.1.rebase_eq, h.2.2.rebaseAll_eq]

end

end Node

namespace Nodes

open Node (WellPlaced WellPlacedAll)

/-! ## Finding -/

theorem get?_eq_some {name : Text} {ns : List Node} {n : Node} (h : get? name ns = some n) :
    n ∈ ns ∧ n.name = name := by
  induction ns with
  | nil => exact absurd h (by simp [get?])
  | cons m ns ih =>
    rw [get?] at h
    split at h
    · next hm =>
      obtain rfl := Option.some.inj h
      exact ⟨List.mem_cons_self, hm⟩
    · obtain ⟨hn, he⟩ := ih h
      exact ⟨List.mem_cons_of_mem m hn, he⟩

theorem get?_eq_none_iff {name : Text} {ns : List Node} :
    get? name ns = none ↔ name ∉ ns.map Node.name := by
  induction ns with
  | nil => simp [get?]
  | cons m ns ih =>
    rw [get?, List.map_cons, List.mem_cons, not_or]
    split
    · next hm => simp [hm]
    · next hm => rw [ih, and_iff_right (Ne.symm hm)]

theorem has_eq_false_iff {name : Text} {ns : List Node} :
    has name ns = false ↔ name ∉ ns.map Node.name := by
  rw [← get?_eq_none_iff, has, Option.isSome_eq_false_iff, Option.isNone_iff_eq_none]

theorem has_eq_true_iff {name : Text} {ns : List Node} :
    has name ns = true ↔ name ∈ ns.map Node.name := by
  rw [← Bool.not_eq_false, has_eq_false_iff, Decidable.not_not]

theorem get?_append (name : Text) (ns ms : List Node) :
    get? name (ns ++ ms) = (get? name ns).or (get? name ms) := by
  induction ns with
  | nil => rfl
  | cons n ns ih =>
    rw [List.cons_append, get?, get?]
    split
    · rfl
    · exact ih

theorem get?_concat {n : Node} {ns : List Node} (h : get? n.name ns = none) (name : Text) :
    get? name (ns ++ [n]) = if name = n.name then some n else get? name ns := by
  rw [get?_append]
  by_cases hname : name = n.name
  · rw [if_pos hname, hname, h, Option.none_or]
    exact if_pos rfl
  · rw [if_neg hname, get?, if_neg (Ne.symm hname)]
    exact Option.or_none

theorem wellPlaced_of_get? {parent name : Text} {ns : List Node} {n : Node}
    (h : WellPlacedAll parent ns) (hg : get? name ns = some n) : WellPlaced parent n :=
  h.of_mem (get?_eq_some hg).1

theorem get?_of_mem {parent : Text} {ns : List Node} (h : WellPlacedAll parent ns)
    {n : Node} (hn : n ∈ ns) : get? n.name ns = some n := by
  induction ns with
  | nil => exact absurd hn List.not_mem_nil
  | cons m ns ih =>
    obtain ⟨-, hfresh, hns⟩ := h
    rcases List.mem_cons.1 hn with rfl | hn
    · exact if_pos rfl
    · rw [get?, if_neg (hfresh n hn).symm, ih hns hn]

/-! ## Changing -/

theorem map_name_modify {name : Text} {change : Node → Node} {ns : List Node}
    (h : ∀ n, n.name = name → (change n).name = name) :
    (modify name change ns).map Node.name = ns.map Node.name := by
  induction ns with
  | nil => rfl
  | cons n ns ih =>
    rw [modify]
    split
    · next hn => rw [List.map_cons, List.map_cons, h n hn, hn]
    · rw [List.map_cons, List.map_cons, ih]

theorem get?_modify_self {name : Text} {change : Node → Node} {ns : List Node}
    (h : ∀ n, n.name = name → (change n).name = name) :
    get? name (modify name change ns) = (get? name ns).map change := by
  induction ns with
  | nil => rfl
  | cons n ns ih =>
    rw [modify, get?]
    split
    · next hn => rw [get?, if_pos (h n hn), Option.map_some]
    · next hn => rw [get?, if_neg hn, ih]

theorem get?_modify_of_ne {name other : Text} (hne : other ≠ name) {change : Node → Node}
    {ns : List Node} (h : ∀ n, n.name = name → (change n).name = name) :
    get? other (modify name change ns) = get? other ns := by
  induction ns with
  | nil => rfl
  | cons n ns ih =>
    rw [modify]
    split
    · next hn =>
      rw [get?, get?, if_neg, if_neg]
      · rw [hn]
        exact Ne.symm hne
      · rw [h n hn]
        exact Ne.symm hne
    · rw [get?, get?, ih]

theorem get?_modify {name : Text} {change : Node → Node} {ns : List Node}
    (h : ∀ n, n.name = name → (change n).name = name) (other : Text) :
    get? other (modify name change ns) =
      if other = name then (get? name ns).map change else get? other ns := by
  split
  · next heq => rw [heq, get?_modify_self h]
  · next hne => exact get?_modify_of_ne hne h

theorem modify_concat {n : Node} {ns : List Node} (h : get? n.name ns = none)
    (change : Node → Node) : modify n.name change (ns ++ [n]) = ns ++ [change n] := by
  induction ns with
  | nil => exact if_pos rfl
  | cons m ns ih =>
    rw [get?] at h
    split at h
    · exact nomatch h
    · next hm => rw [List.cons_append, modify, if_neg hm, ih h, List.cons_append]

theorem wellPlacedAll_modify {parent name : Text} {ns : List Node} {m : Node}
    (h : WellPlacedAll parent ns) (hm : WellPlaced parent m) (hname : m.name = name) :
    WellPlacedAll parent (modify name (fun _ => m) ns) := by
  obtain ⟨hall, hnodup⟩ := Node.wellPlacedAll_iff.1 h
  refine Node.wellPlacedAll_iff.2 ⟨?_, ?_⟩
  · clear h hnodup
    induction ns with
    | nil => exact hall
    | cons n ns ih =>
      obtain ⟨hn, hns⟩ := List.forall_mem_cons.1 hall
      rw [modify]
      split
      · exact List.forall_mem_cons.2 ⟨hm, hns⟩
      · exact List.forall_mem_cons.2 ⟨hn, ih hns⟩
  · rw [map_name_modify fun _ _ => hname]
    exact hnodup

theorem upsert_of_not_mem {parent : Text} {node : Node} {ns : List Node}
    (h : node.name ∉ ns.map Node.name) : upsert parent node ns = ns ++ [node.rebase parent] := by
  induction ns with
  | nil => rfl
  | cons n ns ih =>
    rw [List.map_cons, List.mem_cons, not_or] at h
    rw [upsert, if_neg (Ne.symm h.1), ih h.2, List.cons_append]

theorem upsert_of_mem {parent : Text} {node : Node} {ns : List Node}
    (h : node.name ∈ ns.map Node.name) :
    upsert parent node ns = modify node.name (fun _ => node.rebase parent) ns := by
  induction ns with
  | nil => exact absurd h List.not_mem_nil
  | cons n ns ih =>
    rw [upsert, modify]
    split
    · rfl
    · next hn =>
      rw [List.map_cons, List.mem_cons] at h
      rw [ih (h.resolve_left (Ne.symm hn))]

theorem mem_upsert {parent : Text} {node n : Node} {ns : List Node}
    (h : n ∈ upsert parent node ns) : n = node.rebase parent ∨ n ∈ ns := by
  induction ns with
  | nil => exact .inl (List.mem_singleton.1 h)
  | cons m ns ih =>
    rw [upsert] at h
    split at h
    · exact (List.mem_cons.1 h).imp_right (List.mem_cons_of_mem m)
    · rcases List.mem_cons.1 h with rfl | h
      · exact .inr List.mem_cons_self
      · exact (ih h).imp_right (List.mem_cons_of_mem m)

theorem wellPlacedAll_upsert {parent : Text} {node : Node} {ns : List Node}
    (h : WellPlacedAll parent ns) (hn : node.Fit) :
    WellPlacedAll parent (upsert parent node ns) := by
  have hr := hn.rebase parent
  by_cases hm : node.name ∈ ns.map Node.name
  · rw [upsert_of_mem hm]
    exact wellPlacedAll_modify h hr (node.name_rebase parent)
  · rw [upsert_of_not_mem hm]
    refine Node.wellPlacedAll_append_singleton h hr ?_
    rw [Node.name_rebase]
    exact hm

theorem wellPlacedAll_add? {parent : Text} {node : Node} {ns ms : List Node}
    (h : WellPlacedAll parent ns) (hn : node.Fit)
    (ha : add? parent node ns = some ms) : WellPlacedAll parent ms := by
  unfold add? at ha
  split at ha
  · exact absurd ha (by simp)
  · next hf =>
    obtain rfl := Option.some.inj ha
    rw [Bool.not_eq_true, has_eq_false_iff] at hf
    refine Node.wellPlacedAll_append_singleton h (hn.rebase parent) ?_
    rw [Node.name_rebase]
    exact hf

end Nodes

end ThreatDesk
