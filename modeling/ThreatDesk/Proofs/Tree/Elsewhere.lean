import ThreatDesk.Proofs.Tree.Changes
import ThreatDesk.Proofs.Tree.Store

/-!
# What is kept elsewhere

Where a tree extends another one up to some targets, every place that is neither a target nor on the way
to one has the node that it had, with all that is below (`at?_elsewhere`). A directory on the way keeps
its children in order and gets nothing but what is a target or leads to one.
-/

namespace ThreatDesk

open Node (WellPlacedAll)
open Nodes (get?)

theorem Nodes.eq_of_get? {p q : Text} {ns ms : List Node} (hns : WellPlacedAll p ns)
    (hms : WellPlacedAll q ms) (hnames : ns.map Node.name <+: ms.map Node.name)
    (h : ∀ x, get? x ms = get? x ns) : ms = ns := by
  induction ns generalizing ms with
  | nil =>
    cases ms with
    | nil => rfl
    | cons m ms =>
      have hm := h m.name
      simp [get?] at hm
  | cons n ns ih =>
    cases ms with
    | nil => exact absurd (List.prefix_nil.1 hnames) (by simp)
    | cons m ms =>
      rw [List.map_cons, List.map_cons, List.cons_prefix_cons] at hnames
      obtain ⟨hname, hnames⟩ := hnames
      have hhead := h n.name
      rw [get?, get?, if_pos rfl, if_pos hname.symm] at hhead
      obtain rfl := Option.some.inj hhead
      refine congrArg _ (ih hns.2.2 hms.2.2 hnames fun x => ?_)
      by_cases hx : m.name = x
      · subst hx
        have hnone {ls : List Node} (hls : ∀ l ∈ ls, l.name ≠ m.name) : get? m.name ls = none := by
          rw [get?_eq_none_iff, List.mem_map]
          rintro ⟨l, hl, hname⟩
          exact hls l hl hname
        rw [hnone hns.2.1, hnone hms.2.1]
      · have hrest := h x
        rwa [get?, get?, if_neg hx, if_neg hx] at hrest

namespace Container

/-- The place is neither a target nor on the way to one. -/
def Off (targets : List Text → Text → Prop) (folders : List Text) (name : Text) : Prop :=
  ∀ fs x, targets fs x → ¬ folders ++ [name] <+: fs ++ [x]

variable {targets : List Text → Text → Prop} {c d : Container} {folders : List Text} {name : Text}

theorem Off.below (h : Off targets folders name) (s : Text) :
    Off targets (folders ++ [name]) s :=
  fun fs x ht hp => h fs x ht ((List.prefix_append _ _).trans hp)

theorem Extends.at?_none (h : Extends targets c d) (hoff : Off targets folders name)
    (hc : c.at? folders name = none) : d.at? folders name = none := by
  cases hd : d.at? folders name with
  | none => rfl
  | some n =>
    rcases h.fresh folders name n hc hd with ⟨ht, -⟩ | ⟨-, fs, x, ht, hp⟩
    · exact absurd (List.prefix_refl _) (hoff folders name ht)
    · exact absurd (hp.trans (List.prefix_append _ _)) (hoff fs x ht)

theorem descend_of_at? {n q : Text} {cs : List Node}
    (h : c.at? folders name = some (.directory n q cs)) :
    c.descend (folders ++ [name]) = some ⟨q, cs⟩ := by
  rw [descend_concat_eq, h]
  rfl

theorem name_of_at? {n : Node} (h : c.at? folders name = some n) : n.name = name := by
  obtain ⟨e, -, he⟩ := Option.bind_eq_some_iff.1 h
  exact (Nodes.get?_eq_some he).2

end Container

namespace Tree

open Container (Extends Off)

variable {targets : List Text → Text → Prop} {t u : Tree}

theorem placed_of_descend {c : Container} {folders : List Text} (ht : t.WellFormed)
    (h : t.root.descend folders = some c) : WellPlacedAll c.path c.children :=
  (Container.placed_descend (List.forall_mem_nil _) (c := t.root) rfl ht h).2.2

theorem at?_of_off (ht : t.WellFormed) (hu : u.WellFormed) (h : t.root.Extends targets u.root)
    {folders : List Text} {name : Text} (hoff : Off targets folders name) :
    (n : Node) → t.root.at? folders name = some n → u.root.at? folders name = some n
  | .file f, hn => h.files folders name f hn fun htarget => hoff folders name htarget (List.prefix_refl _)
  | .directory x q cs, hn => by
    obtain ⟨m, hm, hkind⟩ := h.kinds folders name _ hn
    cases m with
    | file => cases hkind
    | directory y r ds =>
      have hbefore := Container.descend_of_at? hn
      have hafter := Container.descend_of_at? hm
      obtain ⟨e, he, hpath, hnames⟩ := h.orders _ _ hbefore
      obtain rfl := Option.some.inj (hafter.symm.trans he)
      have hx : x = name := Container.name_of_at? hn
      have hy : y = name := Container.name_of_at? hm
      have hchildren : ds = cs := by
        refine Nodes.eq_of_get? (placed_of_descend ht hbefore) (placed_of_descend hu hafter) hnames ?_
        intro s
        rw [← Container.at?_of_descend hbefore s, ← Container.at?_of_descend hafter s]
        cases hs : t.root.at? (folders ++ [name]) s with
        | none => exact h.at?_none (hoff.below s) hs
        | some l =>
          have hmem : l ∈ cs := by
            rw [Container.at?_of_descend hbefore] at hs
            exact (Nodes.get?_eq_some hs).1
          exact at?_of_off ht hu h (hoff.below s) l hs
      rw [hm, hx, hy, hchildren, show r = q from hpath]
termination_by n => sizeOf n
decreasing_by
  have hlt := List.sizeOf_lt_of_mem hmem
  simp only [Node.directory.sizeOf_spec]
  omega

theorem at?_elsewhere (ht : t.WellFormed) (hu : u.WellFormed) (h : t.root.Extends targets u.root)
    {folders : List Text} {name : Text} (hoff : Off targets folders name) :
    u.root.at? folders name = t.root.at? folders name := by
  cases hn : t.root.at? folders name with
  | none => exact h.at?_none hoff hn
  | some n => exact at?_of_off ht hu h hoff n hn

end Tree

end ThreatDesk
