import ThreatDesk.Proofs.Tree.Growth

/-!
# Changes of one directory

A change of the directory that some segments lead to is a change of every directory on the way in one
child alone (`changeAt_cons`). Where it changes one child, every place keeps its node but those on the way,
the child and what is below it (`at?_changeAt_off`).
-/

namespace ThreatDesk

open Nodes (get? modify upsert changeAt)

namespace Nodes

variable {change : Change} {s name : Text} {nodes : List Node} {rest : List Text}

theorem modify_of_get?_none {f : Node → Node} (h : get? s nodes = none) :
    modify s f nodes = nodes := by
  induction nodes with
  | nil => rfl
  | cons n nodes ih =>
    rw [get?] at h
    split at h
    · cases h
    · next hn => rw [modify, if_neg hn, ih h]

theorem modify_congr {f g : Node → Node} {n : Node} (h : get? s nodes = some n) (hfg : f n = g n) :
    modify s f nodes = modify s g nodes := by
  induction nodes with
  | nil => rfl
  | cons m nodes ih =>
    rw [get?] at h
    rw [modify, modify]
    split
    · next hm =>
      rw [if_pos hm] at h
      rw [Option.some.inj h, hfg]
    · next hm =>
      rw [if_neg hm] at h
      rw [ih h]

theorem modify_eq_self {f : Node → Node} {n : Node} (h : get? s nodes = some n) (hf : f n = n) :
    modify s f nodes = nodes := by
  rw [modify_congr (g := id) h hf]
  clear h
  induction nodes with
  | nil => rfl
  | cons m nodes ih =>
    rw [modify]
    split
    · rfl
    · rw [ih]

def changeBelow (change : Change) (rest : List Text) : Node → Node
  | .file f => .file f
  | .directory name path children => .directory name path (changeAt change path children rest)

theorem name_changeBelow (n : Node) : (changeBelow change rest n).name = n.name := by
  cases n <;> rfl

theorem changeAt_cons (change : Change) (p s : Text) (nodes : List Node) (rest : List Text) :
    changeAt change p nodes (s :: rest) = modify s (changeBelow change rest) nodes := by
  rw [changeAt]
  split
  · next hg => exact modify_congr hg rfl
  · next hno =>
    cases hg : get? s nodes with
    | none => exact (modify_of_get?_none hg).symm
    | some n =>
      cases n with
      | file f => exact (modify_eq_self hg rfl).symm
      | directory n q cs => exact absurd hg (hno n q cs)

theorem changeBelow_named (n : Node) (h : n.name = s) : (changeBelow change rest n).name = s :=
  (name_changeBelow n).trans h

theorem get?_changeAt_self (p : Text) :
    get? s (changeAt change p nodes (s :: rest)) =
      (get? s nodes).map (changeBelow change rest) := by
  rw [changeAt_cons]
  exact get?_modify_self changeBelow_named

theorem get?_changeAt_of_ne (p : Text) (h : name ≠ s) :
    get? name (changeAt change p nodes (s :: rest)) = get? name nodes := by
  rw [changeAt_cons]
  exact get?_modify_of_ne h changeBelow_named

theorem names_changeAt (p : Text) :
    (changeAt change p nodes (s :: rest)).map Node.name = nodes.map Node.name := by
  rw [changeAt_cons]
  exact map_name_modify changeBelow_named

theorem names_upsert (parent : Text) (node : Node) (nodes : List Node) :
    (upsert parent node nodes).map Node.name =
      nodes.map Node.name ++ if get? node.name nodes = none then [node.name] else [] := by
  by_cases hm : node.name ∈ nodes.map Node.name
  · rw [upsert_of_mem hm, map_name_modify fun _ _ => node.name_rebase parent, if_neg, List.append_nil]
    exact fun hg => get?_eq_none_iff.1 hg hm
  · rw [upsert_of_not_mem hm, List.map_append, if_pos (get?_eq_none_iff.2 hm), List.map_singleton,
      node.name_rebase]

end Nodes

namespace Container

variable {c : Container} {change : Change} {name : Text} {way folders rest : List Text}

/-- Every one of the segments names a directory, each in the one before it. -/
def Passable (c : Container) (folders : List Text) : Prop :=
  ∀ way s, way ++ [s] <+: folders → ∃ n q cs, c.at? way s = some (.directory n q cs)

theorem passable_iff : c.Passable folders ↔ ∃ d, c.descend folders = some d := by
  induction folders generalizing c with
  | nil =>
    refine iff_of_true ?_ ⟨c, rfl⟩
    intro way s h
    exact absurd (List.prefix_nil.1 h) (by simp)
  | cons s rest ih =>
    constructor
    · intro h
      obtain ⟨n, q, cs, hg⟩ := h [] s (by simp)
      rw [descend_directory hg]
      refine ih.1 fun way x hx => ?_
      have := h (s :: way) x (List.cons_prefix_cons.2 ⟨rfl, hx⟩)
      rwa [at?_directory hg] at this
    · rintro ⟨d, hd⟩ way x hx
      rw [descend_cons] at hd
      split at hd
      · next n q cs hg =>
        cases way with
        | nil =>
          obtain ⟨rfl, -⟩ := List.cons_prefix_cons.1 hx
          exact ⟨n, q, cs, hg⟩
        | cons y way =>
          obtain ⟨rfl, hx'⟩ := List.cons_prefix_cons.1 hx
          rw [at?_directory hg]
          exact ih.2 ⟨d, hd⟩ way x hx'
      · exact nomatch hd

def changeAt (c : Container) (change : Change) (folders : List Text) : Container :=
  ⟨c.path, Nodes.changeAt change c.path c.children folders⟩

theorem descend_changeAt (c : Container) (change : Change) (way rest : List Text) :
    (c.changeAt change (way ++ rest)).descend way =
      (c.descend way).map fun e => e.changeAt change rest := by
  induction way generalizing c with
  | nil => rfl
  | cons s way ih =>
    have hs : get? s (c.changeAt change (s :: way ++ rest)).children =
        (get? s c.children).map (Nodes.changeBelow change (way ++ rest)) :=
      Nodes.get?_changeAt_self c.path
    rw [descend_cons, descend_cons, hs]
    cases get? s c.children with
    | none => rfl
    | some n =>
      cases n with
      | file f => rfl
      | directory n q cs => exact ih ⟨q, cs⟩

theorem at?_changeAt (c : Container) (change : Change) (way : List Text) (s : Text)
    (rest : List Text) :
    (c.changeAt change (way ++ s :: rest)).at? way s =
      (c.at? way s).map (Nodes.changeBelow change rest) := by
  rw [at?, at?, descend_changeAt]
  cases c.descend way with
  | none => rfl
  | some e => exact Nodes.get?_changeAt_self e.path

theorem descend_append (c : Container) (way rest : List Text) :
    c.descend (way ++ rest) = (c.descend way).bind fun e => e.descend rest := by
  induction way generalizing c with
  | nil => rfl
  | cons s way ih =>
    rw [List.cons_append, descend_cons, descend_cons]
    split
    · exact ih _
    · rfl

theorem at?_file {f : File} {s : Text} (h : get? s c.children = some (.file f)) (rest : List Text)
    (name : Text) : c.at? (s :: rest) name = none := by
  rw [at?, descend_cons, h]
  rfl

theorem at?_changeAt_off {s : Text}
    (hchild : ∀ e, c.descend folders = some e →
      ∀ x, x ≠ name → get? x (change e.path e.children) = get? x e.children)
    (hway : ¬ way ++ [s] <+: folders) (hbelow : ¬ folders ++ [name] <+: way ++ [s]) :
    (c.changeAt change folders).at? way s = c.at? way s := by
  -- Both ways are followed as long as they are one.
  induction folders generalizing c way with
  | nil =>
    rcases at?_cases name way s with ⟨rfl, rfl⟩ | ⟨rest, rfl⟩ | hsame
    · exact absurd (List.prefix_refl _) hbelow
    · exact absurd (List.prefix_append [name] (rest ++ [s])) hbelow
    · exact hsame _ _ (hchild c rfl)
  | cons x folders ih =>
    rcases at?_cases x way s with ⟨rfl, rfl⟩ | ⟨rest, rfl⟩ | hsame
    · exact absurd (List.cons_prefix_cons.2 ⟨rfl, List.nil_prefix⟩) hway
    · have hs : get? x (c.changeAt change (x :: folders)).children =
          (get? x c.children).map (Nodes.changeBelow change folders) :=
        Nodes.get?_changeAt_self c.path
      cases hg : get? x c.children with
      | none => rw [at?_none hg, at?_none (hs.trans (by rw [hg]; rfl))]
      | some n =>
        rw [hg] at hs
        cases n with
        | file f => rw [at?_file hg, at?_file hs]
        | directory n q cs =>
          rw [at?_directory hg, at?_directory hs]
          refine ih (c := ⟨q, cs⟩) ?_ ?_ ?_
          · intro e he
            exact hchild e ((descend_directory hg folders).trans he)
          · exact fun hp => hway (List.cons_prefix_cons.2 ⟨rfl, hp⟩)
          · exact fun hp => hbelow (List.cons_prefix_cons.2 ⟨rfl, hp⟩)
    · exact hsame _ _ fun y hy => Nodes.get?_changeAt_of_ne c.path hy

theorem descend_changeAt_self (c : Container) (change : Change) (folders : List Text) :
    (c.changeAt change folders).descend folders =
      (c.descend folders).map fun e => ⟨e.path, change e.path e.children⟩ := by
  have h := descend_changeAt c change folders []
  rwa [List.append_nil] at h

/-- A change of one child, which is no directory before it or after it, is one of a single place: at every
place that is neither the child nor on the way to it stands the same node. -/
theorem at?_changeAt_elsewhere {s : Text}
    (hchild : ∀ e, c.descend folders = some e →
      (∀ n, get? name e.children = some n → n.isDirectory = false) ∧
      (∀ n, get? name (change e.path e.children) = some n → n.isDirectory = false) ∧
      ∀ x, x ≠ name → get? x (change e.path e.children) = get? x e.children)
    (h : ¬ way ++ [s] <+: folders ++ [name]) :
    (c.changeAt change folders).at? way s = c.at? way s := by
  by_cases hbelow : folders ++ [name] <+: way ++ [s]
  · -- Below the child there is nothing.
    obtain ⟨rest, rfl⟩ : ∃ rest, way = folders ++ name :: rest := by
      rcases List.prefix_concat_iff.1 hbelow with heq | ⟨rest, hrest⟩
      · exact absurd (heq ▸ List.prefix_refl _) h
      · exact ⟨rest, by rw [← hrest, List.append_assoc, List.singleton_append]⟩
    rw [at?, at?, descend_append, descend_append, descend_changeAt_self]
    cases he : c.descend folders with
    | none => rfl
    | some e =>
      obtain ⟨hold, hnew, -⟩ := hchild e he
      rw [Option.map_some, Option.bind_some, Option.bind_some, descend_file hold, descend_file hnew]
  · exact at?_changeAt_off (fun e he => (hchild e he).2.2)
      (fun hp => h (hp.trans (List.prefix_append _ _))) hbelow

/-! ## Looking further -/

theorem at?_of_descend {d : Container} (h : c.descend folders = some d) (name : Text) :
    c.at? folders name = get? name d.children := by
  rw [at?, h]
  rfl

def ofNode? : Node → Option Container
  | .file _ => none
  | .directory _ path children => some ⟨path, children⟩

theorem descend_concat_eq (c : Container) (way : List Text) (s : Text) :
    c.descend (way ++ [s]) = (c.at? way s).bind ofNode? := by
  rw [descend_append, at?]
  cases c.descend way with
  | none => rfl
  | some e =>
    rw [Option.bind_some, Option.bind_some, descend_cons]
    split
    · next hg => rw [hg]; rfl
    · next hno =>
      cases hg : get? s e.children with
      | none => rfl
      | some n =>
        cases n with
        | file f => rfl
        | directory n q cs => exact absurd hg (hno n q cs)

theorem ofNode?_eq_none {n : Node} (h : n.isDirectory = false) : ofNode? n = none := by
  cases n with
  | file f => rfl
  | directory _ _ _ => exact nomatch h

end Container

end ThreatDesk
