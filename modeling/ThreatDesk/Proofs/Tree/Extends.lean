import ThreatDesk.Proofs.Tree.Placed
import ThreatDesk.Tree.Edit

/-!
# What grows in a tree

A tree extends another one up to some targets if every node is still there, of its kind and in its
order, files that are no targets hold what they held, and what is new is a target or a directory that
leads to one. Main statements: this goes on from step to step (`Extends.trans`), and putting a file into
a directory is such a step (`extends_upsert`), which is one for the directories around it as well
(`extends_child`).
-/

namespace ThreatDesk

open Nodes (get? modify upsert)

namespace Container

def at? (c : Container) (folders : List Text) (name : Text) : Option Node :=
  (c.descend folders).bind fun d => get? name d.children

/-- What becomes of a directory when files are put at targets in and below it. -/
structure Extends (targets : List Text → Text → Prop) (c d : Container) : Prop where
  kinds : ∀ folders name m, c.at? folders name = some m →
    ∃ n, d.at? folders name = some n ∧ n.isDirectory = m.isDirectory
  files : ∀ folders name f, c.at? folders name = some (.file f) → ¬ targets folders name →
    d.at? folders name = some (.file f)
  orders : ∀ folders e, c.descend folders = some e → ∃ f, d.descend folders = some f ∧
    f.path = e.path ∧ e.children.map Node.name <+: f.children.map Node.name
  fresh : ∀ folders name n, c.at? folders name = none → d.at? folders name = some n →
    (targets folders name ∧ n.isDirectory = false) ∨
      (n.isDirectory = true ∧ ∃ fs x, targets fs x ∧ folders ++ [name] <+: fs)

theorem Extends.refl (targets : List Text → Text → Prop) (c : Container) :
    Extends targets c c where
  kinds _ _ m hm := ⟨m, hm, rfl⟩
  files _ _ _ hf _ := hf
  orders _ e he := ⟨e, he, rfl, List.prefix_refl _⟩
  fresh _ _ n hc hd := absurd (hc.symm.trans hd) (by simp)

theorem Extends.mono {targets others : List Text → Text → Prop} {c d : Container}
    (h : Extends targets c d) (hsub : ∀ fs x, targets fs x → others fs x) :
    Extends others c d where
  kinds := h.kinds
  files folders name f hf hno := h.files folders name f hf fun ht => hno (hsub _ _ ht)
  orders := h.orders
  fresh folders name n hc hd := by
    rcases h.fresh folders name n hc hd with ⟨ht, hn⟩ | ⟨hn, fs, x, ht, hp⟩
    · exact Or.inl ⟨hsub _ _ ht, hn⟩
    · exact Or.inr ⟨hn, fs, x, hsub _ _ ht, hp⟩

theorem Extends.trans {targets : List Text → Text → Prop} {c d e : Container}
    (h : Extends targets c d) (k : Extends targets d e) : Extends targets c e where
  kinds folders name m hm := by
    obtain ⟨n, hn, hkind⟩ := h.kinds folders name m hm
    obtain ⟨l, hl, hkind'⟩ := k.kinds folders name n hn
    exact ⟨l, hl, hkind'.trans hkind⟩
  files folders name f hf hno := k.files folders name f (h.files folders name f hf hno) hno
  orders folders x hx := by
    obtain ⟨y, hy, hpath, hp⟩ := h.orders folders x hx
    obtain ⟨z, hz, hpath', hp'⟩ := k.orders folders y hy
    exact ⟨z, hz, hpath'.trans hpath, hp.trans hp'⟩
  fresh folders name n hc he := by
    cases hd : d.at? folders name with
    | none => exact k.fresh folders name n hd he
    | some m =>
      -- What the first step has made keeps its kind in the second one.
      obtain ⟨l, hl, hkind⟩ := k.kinds folders name m hd
      obtain rfl : l = n := Option.some.inj (hl.symm.trans he)
      rw [hkind]
      exact h.fresh folders name m hc hd

/-! ## Looking below a child -/

theorem descend_cons (c : Container) (s : Text) (rest : List Text) :
    c.descend (s :: rest) =
      match get? s c.children with
      | some (.directory _ path children) => descend ⟨path, children⟩ rest
      | _ => none := rfl

theorem descend_directory {c : Container} {s n q : Text} {cs : List Node}
    (h : get? s c.children = some (.directory n q cs)) (rest : List Text) :
    c.descend (s :: rest) = descend ⟨q, cs⟩ rest := by
  rw [descend_cons, h]

theorem at?_directory {c : Container} {s n q : Text} {cs : List Node}
    (h : get? s c.children = some (.directory n q cs)) (rest : List Text) (name : Text) :
    c.at? (s :: rest) name = at? ⟨q, cs⟩ rest name := by
  rw [at?, descend_directory h]
  rfl

theorem descend_none {c : Container} {s : Text} (h : get? s c.children = none)
    (rest : List Text) : c.descend (s :: rest) = none := by
  rw [descend_cons, h]

theorem at?_none {c : Container} {s : Text} (h : get? s c.children = none) (rest : List Text)
    (name : Text) : c.at? (s :: rest) name = none := by
  rw [at?, descend_none h]
  rfl

theorem at?_empty (q : Text) (folders : List Text) (name : Text) :
    at? ⟨q, []⟩ folders name = none := by
  cases folders <;> rfl

theorem at?_below {s n q p : Text} {cs nodes : List Node}
    (hold : get? s nodes = some (.directory n q cs) ∨ (get? s nodes = none ∧ cs = []))
    (rest : List Text) (name : Text) : at? ⟨p, nodes⟩ (s :: rest) name = at? ⟨q, cs⟩ rest name := by
  rcases hold with hg | ⟨hg, rfl⟩
  · exact at?_directory hg rest name
  · rw [at?_none hg, at?_empty]

theorem descend_congr {c d : Container} {s : Text} (h : get? s c.children = get? s d.children)
    (rest : List Text) : c.descend (s :: rest) = d.descend (s :: rest) := by
  rw [descend_cons, descend_cons, h]

theorem at?_cases (s : Text) (folders : List Text) (name : Text) :
    (folders = [] ∧ name = s) ∨ (∃ rest, folders = s :: rest) ∨
      ∀ c d : Container, (∀ x, x ≠ s → get? x c.children = get? x d.children) →
        c.at? folders name = d.at? folders name := by
  cases folders with
  | nil =>
    by_cases hs : name = s
    · exact Or.inl ⟨rfl, hs⟩
    · exact Or.inr (Or.inr fun c d h => h name hs)
  | cons x rest =>
    by_cases hs : x = s
    · exact Or.inr (Or.inl ⟨rest, by rw [hs]⟩)
    · refine Or.inr (Or.inr ?_)
      intro c d h
      rw [at?, at?, descend_congr (h x hs)]

/-- Where one child directory is changed or made, a place is that child, or below it, or elsewhere, where
nothing changes. -/
theorem at?_child_cases {s n q p : Text} {cs ds nodes nodes' : List Node}
    (hget : ∀ x, get? x nodes' = if x = s then some (.directory n q ds) else get? x nodes)
    (hold : get? s nodes = some (.directory n q cs) ∨ (get? s nodes = none ∧ cs = []))
    (folders : List Text) (name : Text) :
    (folders = [] ∧ name = s ∧ at? ⟨p, nodes'⟩ folders name = some (.directory n q ds)) ∨
      (∃ rest, folders = s :: rest ∧ at? ⟨p, nodes⟩ folders name = at? ⟨q, cs⟩ rest name ∧
        at? ⟨p, nodes'⟩ folders name = at? ⟨q, ds⟩ rest name) ∨
      ((∀ rest, folders ≠ s :: rest) ∧
        at? ⟨p, nodes⟩ folders name = at? ⟨p, nodes'⟩ folders name) := by
  have hself : get? s nodes' = some (.directory n q ds) := (hget s).trans (if_pos rfl)
  have hother (x : Text) (hx : x ≠ s) : get? x nodes = get? x nodes' :=
    ((hget x).trans (if_neg hx)).symm
  cases folders with
  | nil =>
    by_cases hs : name = s
    · exact .inl ⟨rfl, hs, hs ▸ hself⟩
    · exact .inr (.inr ⟨nofun, hother name hs⟩)
  | cons x rest =>
    by_cases hs : x = s
    · subst hs
      exact .inr (.inl ⟨rest, rfl, at?_below hold rest name,
        at?_directory (c := ⟨p, nodes'⟩) hself rest name⟩)
    · refine .inr (.inr ⟨fun _ heq => hs (List.cons.inj heq).1, ?_⟩)
      rw [at?, at?, descend_congr (d := ⟨p, nodes'⟩) (hother x hs)]

theorem extends_child {targets : List Text → Text → Prop} {s n q p : Text}
    {cs ds nodes nodes' : List Node}
    (hget : ∀ x, get? x nodes' = if x = s then some (.directory n q ds) else get? x nodes)
    (hnames : nodes.map Node.name <+: nodes'.map Node.name)
    (hold : get? s nodes = some (.directory n q cs) ∨
      (get? s nodes = none ∧ cs = [] ∧ ∃ fs x, targets fs x))
    (h : Extends targets ⟨q, cs⟩ ⟨q, ds⟩) :
    Extends (fun fs x => ∃ rest, fs = s :: rest ∧ targets rest x) ⟨p, nodes⟩ ⟨p, nodes'⟩ := by
  have hself : get? s nodes' = some (.directory n q ds) := by
    rw [hget, if_pos rfl]
  have hother (x : Text) (hx : x ≠ s) : get? x nodes = get? x nodes' := by
    rw [hget, if_neg hx]
  have hplace := at?_child_cases (p := p) hget (hold.imp_right fun hnew => ⟨hnew.1, hnew.2.1⟩)
  constructor
  · intro folders name m hm
    rcases hplace folders name with ⟨rfl, rfl, hd⟩ | ⟨rest, rfl, hbelow, hbelow'⟩ | ⟨-, hsame⟩
    · refine ⟨.directory n q ds, hd, ?_⟩
      rcases hold with hg | ⟨hg, -⟩
      · obtain rfl := Option.some.inj (hg.symm.trans hm)
        rfl
      · exact absurd (hg.symm.trans hm) (by simp)
    · rw [hbelow] at hm
      rw [hbelow']
      exact h.kinds rest name m hm
    · exact ⟨m, hsame.symm.trans hm, rfl⟩
  · intro folders name f hf hno
    rcases hplace folders name with ⟨rfl, rfl, -⟩ | ⟨rest, rfl, hbelow, hbelow'⟩ | ⟨-, hsame⟩
    · rcases hold with hg | ⟨hg, -⟩
      · exact absurd (hg.symm.trans hf) (by simp)
      · exact absurd (hg.symm.trans hf) (by simp)
    · rw [hbelow] at hf
      rw [hbelow']
      exact h.files rest name f hf fun ht => hno ⟨rest, rfl, ht⟩
    · exact hsame.symm.trans hf
  · intro folders e he
    cases folders with
    | nil =>
      obtain rfl := Option.some.inj he
      exact ⟨⟨p, nodes'⟩, rfl, rfl, hnames⟩
    | cons x rest =>
      by_cases hx : x = s
      · subst hx
        rcases hold with hg | ⟨hg, -⟩
        · rw [descend_directory hg] at he
          rw [descend_directory (c := ⟨p, nodes'⟩) hself]
          exact h.orders rest e he
        · exact absurd ((descend_none hg rest).symm.trans he) (by simp)
      · exact ⟨e, (descend_congr (hother x hx) rest).symm.trans he, rfl, List.prefix_refl _⟩
  · intro folders name m hm hn
    rcases hplace folders name with ⟨rfl, rfl, hd⟩ | ⟨rest, rfl, hbelow, hbelow'⟩ | ⟨-, hsame⟩
    · obtain rfl := Option.some.inj (hd.symm.trans hn)
      rcases hold with hg | ⟨-, -, fs, x, ht⟩
      · exact absurd (hg.symm.trans hm) (by simp)
      · exact Or.inr ⟨rfl, name :: fs, x, ⟨fs, rfl, ht⟩, List.prefix_append [name] fs⟩
    · rw [hbelow] at hm
      rw [hbelow'] at hn
      rcases h.fresh rest name m hm hn with ⟨ht, hk⟩ | ⟨hk, fs, y, ht, hp⟩
      · exact Or.inl ⟨⟨rest, rfl, ht⟩, hk⟩
      · exact Or.inr ⟨hk, s :: fs, y, ⟨fs, rfl, ht⟩, List.cons_prefix_cons.2 ⟨rfl, hp⟩⟩
    · exact absurd (hm.symm.trans (hsame.trans hn)) (by simp)

/-! ## Putting a file -/

theorem get?_upsert (parent : Text) (node : Node) (nodes : List Node) (x : Text) :
    get? x (upsert parent node nodes) =
      if x = node.name then some (node.rebase parent) else get? x nodes := by
  cases hg : get? node.name nodes with
  | some n =>
    have hm : node.name ∈ nodes.map Node.name := by
      rw [← Nodes.has_eq_true_iff, Nodes.has, hg]
      rfl
    rw [Nodes.upsert_of_mem hm, Nodes.get?_modify fun _ _ => node.name_rebase parent, hg,
      Option.map_some]
  | none =>
    have hname := node.name_rebase parent
    have hlast := Nodes.get?_concat (n := node.rebase parent) (hname ▸ hg) x
    rwa [hname, ← Nodes.upsert_of_not_mem (Nodes.get?_eq_none_iff.1 hg)] at hlast

theorem prefix_upsert (parent : Text) (node : Node) (nodes : List Node) :
    nodes.map Node.name <+: (upsert parent node nodes).map Node.name := by
  by_cases hm : node.name ∈ nodes.map Node.name
  · have hnames : (upsert parent node nodes).map Node.name = nodes.map Node.name := by
      rw [Nodes.upsert_of_mem hm, Nodes.map_name_modify fun _ _ => node.name_rebase parent]
    exact ⟨[], (List.append_nil _).trans hnames.symm⟩
  · rw [Nodes.upsert_of_not_mem hm, List.map_append]
    exact List.prefix_append _ _

theorem descend_file {c : Container} {s : Text}
    (h : ∀ n, get? s c.children = some n → n.isDirectory = false) (rest : List Text) :
    c.descend (s :: rest) = none := by
  rw [descend_cons]
  split
  · next n q cs hg => exact absurd (h _ hg) (by simp [Node.isDirectory])
  · rfl

theorem extends_upsert {name : Text} {nodes : List Node}
    (h : ∀ n, get? name nodes = some n → n.isDirectory = false) (p : Text)
    (content : Option Text) :
    Extends (fun fs x => fs = [] ∧ x = name) ⟨p, nodes⟩
      ⟨p, upsert p (Node.newFile name content) nodes⟩ := by
  have hget := get?_upsert p (Node.newFile name content) nodes
  have hself : get? name (upsert p (Node.newFile name content) nodes) =
      some ((Node.newFile name content).rebase p) := by
    rw [hget]
    exact if_pos rfl
  have hother (x : Text) (hx : x ≠ name) :
      get? x nodes = get? x (upsert p (Node.newFile name content) nodes) := by
    rw [hget]
    exact (if_neg hx).symm
  have hfile : ∀ n, get? name (upsert p (Node.newFile name content) nodes) = some n →
      n.isDirectory = false := by
    intro n hn
    obtain rfl := Option.some.inj (hself.symm.trans hn)
    rfl
  have hnothing := descend_file (c := ⟨p, nodes⟩) h
  have hnothing' := descend_file (c := ⟨p, upsert p (Node.newFile name content) nodes⟩) hfile
  constructor
  · intro folders y m hm
    rcases at?_cases name folders y with ⟨rfl, rfl⟩ | ⟨rest, rfl⟩ | hsame
    · exact ⟨_, hself, (h m hm).symm⟩
    · rw [at?, hnothing] at hm
      exact absurd hm (by simp)
    · exact ⟨m, (hsame _ _ hother).symm.trans hm, rfl⟩
  · intro folders y f hf hno
    rcases at?_cases name folders y with hself | ⟨rest, rfl⟩ | hsame
    · exact absurd hself hno
    · rw [at?, hnothing] at hf
      exact absurd hf (by simp)
    · exact (hsame _ _ hother).symm.trans hf
  · intro folders e he
    cases folders with
    | nil =>
      obtain rfl := Option.some.inj he
      exact ⟨_, rfl, rfl, prefix_upsert ..⟩
    | cons x rest =>
      by_cases hx : x = name
      · subst hx
        exact absurd ((hnothing rest).symm.trans he) (by simp)
      · exact ⟨e, (descend_congr (hother x hx) rest).symm.trans he, rfl, List.prefix_refl _⟩
  · intro folders y n hn hy
    rcases at?_cases name folders y with ⟨rfl, rfl⟩ | ⟨rest, rfl⟩ | hsame
    · exact Or.inl ⟨⟨rfl, rfl⟩, hfile n hy⟩
    · rw [at?, hnothing'] at hy
      exact absurd hy (by simp)
    · exact absurd (hn.symm.trans ((hsame _ _ hother).trans hy)) (by simp)

end Container

end ThreatDesk
