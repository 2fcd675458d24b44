import ThreatDesk.Proofs.Tree.Changes
import ThreatDesk.Proofs.Tree.Edit

/-!
# Moving subtrees

Subtrees are taken out of directories and put into others, in any order. One that has been taken out
keeps the paths that it had, and gets those of its new place when it is put back. What an action does to
the children of its directory is all that it does to the tree (`rearranged_changeAt`), and every action
leaves the tree well-formed (`sound_perform`). Main statement: `moves_keep_wellFormed`.
-/

namespace ThreatDesk

open Node (WellPlaced WellPlacedAll)
open Nodes (get? add? upsert remove)

namespace Node

mutual

/-- The same subtree, whatever the paths are. -/
def Same : Node → Node → Prop
  | .file f, .file g => g.name = f.name ∧ g.content = f.content
  | .directory a _ ms, .directory b _ ns => b = a ∧ SameAll ms ns
  | .file _, .directory .. => False
  | .directory .., .file _ => False

def SameAll : List Node → List Node → Prop
  | [], [] => True
  | m :: ms, n :: ns => Same m n ∧ SameAll ms ns
  | [], _ :: _ => False
  | _ :: _, [] => False

end

mutual

theorem same_rebase (parent : Text) : (n : Node) → n.Same (n.rebase parent)
  | .file _ => ⟨rfl, rfl⟩
  | .directory name _ children => ⟨rfl, sameAll_rebaseAll (Path.join parent name) children⟩

theorem sameAll_rebaseAll (parent : Text) : (ns : List Node) → SameAll ns (rebaseAll parent ns)
  | [] => trivial
  | n :: ns => ⟨same_rebase parent n, sameAll_rebaseAll parent ns⟩

end

/-- `m` is the subtree `n` with every path as it is right under the directory at `parent`. -/
structure Rerooted (parent : Text) (n m : Node) : Prop where
  same : n.Same m
  placed : WellPlaced parent m

theorem Fit.rerooted {n : Node} (h : n.Fit) (parent : Text) : Rerooted parent n (n.rebase parent) :=
  ⟨same_rebase parent n, h.rebase parent⟩

end Node

/-! ## Children of one directory -/

namespace Nodes

variable {parent name : Text} {before after ns : List Node} {old : Node}

theorem not_mem_before (h : ((before ++ old :: after).map Node.name).Nodup) :
    old.name ∉ before.map Node.name := by
  rw [List.map_append, List.map_cons] at h
  exact fun hmem => (List.nodup_append.1 h).2.2 _ hmem _ List.mem_cons_self rfl

theorem get?_middle (h : old.name ∉ before.map Node.name) :
    get? old.name (before ++ old :: after) = some old := by
  rw [get?_append, get?_eq_none_iff.2 h, Option.none_or]
  exact if_pos rfl

theorem upsert_middle {node : Node} (h : node.name ∉ before.map Node.name)
    (hname : old.name = node.name) :
    upsert parent node (before ++ old :: after) = before ++ node.rebase parent :: after := by
  induction before with
  | nil => exact if_pos hname
  | cons m before ih =>
    rw [List.map_cons, List.mem_cons, not_or] at h
    rw [List.cons_append, upsert, if_neg (Ne.symm h.1), ih h.2, List.cons_append]

theorem remove_middle (h : old.name ∉ before.map Node.name) :
    remove old.name (before ++ old :: after) = before ++ after := by
  induction before with
  | nil => exact if_pos rfl
  | cons m before ih =>
    rw [List.map_cons, List.mem_cons, not_or] at h
    rw [List.cons_append, remove, if_neg (Ne.symm h.1), ih h.2, List.cons_append]

theorem remove_of_not_mem (h : name ∉ ns.map Node.name) : remove name ns = ns := by
  induction ns with
  | nil => rfl
  | cons m ns ih =>
    rw [List.map_cons, List.mem_cons, not_or] at h
    rw [remove, if_neg (Ne.symm h.1), ih h.2]

theorem get?_remove_of_ne {x : Text} (hx : x ≠ name) (ns : List Node) :
    get? x (remove name ns) = get? x ns := by
  induction ns with
  | nil => rfl
  | cons m ns ih =>
    rw [remove]
    split
    · next hm => rw [get?, if_neg (hm ▸ Ne.symm hx)]
    · rw [get?, get?, ih]

theorem sublist_remove (name : Text) (ns : List Node) : (remove name ns).Sublist ns := by
  induction ns with
  | nil => exact List.Sublist.refl _
  | cons m ns ih =>
    rw [remove]
    split
    · exact List.sublist_cons_self m ns
    · exact ih.cons_cons m

theorem wellPlacedAll_remove (h : WellPlacedAll parent ns) (name : Text) :
    WellPlacedAll parent (remove name ns) := by
  obtain ⟨hall, hnodup⟩ := Node.wellPlacedAll_iff.1 h
  have hsub := sublist_remove name ns
  exact Node.wellPlacedAll_iff.2
    ⟨fun n hn => hall n (hsub.subset hn), hnodup.sublist (hsub.map Node.name)⟩

theorem add?_eq_none_iff {node : Node} :
    add? parent node ns = none ↔ node.name ∈ ns.map Node.name := by
  rw [add?, ← has_eq_true_iff]
  split <;> simp_all

theorem add?_of_not_mem {node : Node} (h : node.name ∉ ns.map Node.name) (parent : Text) :
    add? parent node ns = some (ns ++ [node.rebase parent]) := by
  rw [add?, if_neg]
  rw [has_eq_true_iff]
  exact h

theorem get?_append_of_ne {x : Text} {node : Node} (hx : x ≠ node.name) (ns : List Node) :
    get? x (ns ++ [node]) = get? x ns := by
  rw [get?_append, get?, if_neg (Ne.symm hx)]
  exact Option.or_none

end Nodes

/-! ## One directory of a tree -/

/-- The tree `u` is the tree `t` but for the directory at `place`, which has those children, and of them
at most what is called `name` is new or changed. -/
structure Tree.Rearranged (t u : Tree) (place : Text) (c : Container) (name : Text)
    (children : List Node) : Prop where
  directory : u.directory? place = some ⟨c.path, children⟩
  /-- The directories around it have the paths and the children that they had. -/
  around : ∀ way rest, rest ≠ [] → way ++ rest = Path.segments place →
    Option.Rel (fun d e => e.path = d.path ∧ e.children.map Node.name = d.children.map Node.name)
      (t.root.descend way) (u.root.descend way)
  elsewhere : ∀ way s, ¬ way ++ [s] <+: Path.segments place →
    ¬ Path.segments place ++ [name] <+: way ++ [s] → u.root.at? way s = t.root.at? way s

theorem Container.changeAt_eq_self {c : Container} {change : Change} {folders : List Text}
    (h : ∀ e, c.descend folders = some e → change e.path e.children = e.children) :
    c.changeAt change folders = c := by
  induction folders generalizing c with
  | nil =>
    have hc : change c.path c.children = c.children := h c rfl
    rw [changeAt, Nodes.changeAt, hc]
  | cons s rest ih =>
    rw [changeAt, Nodes.changeAt_cons]
    have hchildren : Nodes.modify s (Nodes.changeBelow change rest) c.children = c.children := by
      cases hg : get? s c.children with
      | none => exact Nodes.modify_of_get?_none hg
      | some n =>
        refine Nodes.modify_eq_self hg ?_
        cases n with
        | file f => rfl
        | directory n q cs =>
          have hsame := ih (c := ⟨q, cs⟩) fun e he => h e ((descend_directory hg rest).trans he)
          exact congrArg (Node.directory n q) (congrArg Container.children hsame)
    rw [hchildren]

theorem Tree.rearranged_changeAt {t : Tree} {place name : Text} {c : Container}
    (hc : t.directory? place = some c) (change : Change)
    (h : ∀ x, x ≠ name → get? x (change c.path c.children) = get? x c.children) :
    t.Rearranged (t.changeAt place change) place c name (change c.path c.children) where
  directory := by
    have hself := Container.descend_changeAt_self t.root change (Path.segments place)
    rwa [show t.root.descend (Path.segments place) = some c from hc] at hself
  around way rest hne hway := by
    have hdescend := Container.descend_changeAt t.root change way rest
    rw [hway] at hdescend
    rw [show (t.changeAt place change).root = t.root.changeAt change (Path.segments place) from rfl,
      hdescend]
    cases t.root.descend way with
    | none => exact .none
    | some d =>
      obtain ⟨s, rest, rfl⟩ := List.exists_cons_of_ne_nil hne
      exact .some ⟨rfl, Nodes.names_changeAt d.path⟩
  elsewhere way s hway hbelow := by
    refine @Container.at?_changeAt_off t.root change name way (Path.segments place) s ?_ hway hbelow
    intro e he
    obtain rfl := Option.some.inj (hc.symm.trans he)
    exact h

/-! ## Actions -/

/-- A tree that is being rearranged, and the subtrees that have been taken out of it and not been put
back. They keep the paths that they had. -/
structure Workbench where
  tree : Tree
  loose : List Node

inductive Origin
  | fresh (node : Node)
  | loose (i : Nat)

inductive Action
  | add (place : Text) (origin : Origin)
  | upsert (place : Text) (origin : Origin)
  | remove (place name : Text)

def Origin.Fit : Origin → Prop
  | .fresh n => n.Fit
  | .loose _ => True

/-- What is put anywhere for the first time could stand there. -/
def Action.Fit : Action → Prop
  | .add _ origin => origin.Fit
  | .upsert _ origin => origin.Fit
  | .remove _ _ => True

namespace Workbench

/-- The subtree, and the loose ones that are left without it. -/
def take? (w : Workbench) : Origin → Option (Node × List Node)
  | .fresh n => some (n, w.loose)
  | .loose i => w.loose[i]?.map fun n => (n, w.loose.eraseIdx i)

/-- The workbench after the action, and the name that the action complains about if it is taken. An action
that has no directory, or nothing to put there, is none. -/
def perform (w : Workbench) : Action → Workbench × Option Text
  | .add place origin =>
    match w.tree.directory? place, w.take? origin with
    | some c, some (n, rest) =>
      match add? c.path n c.children with
      | none => (w, some n.name)
      | some _ => (⟨w.tree.changeAt place fun p ns => (add? p n ns).getD ns, rest⟩, none)
    | _, _ => (w, none)
  | .upsert place origin =>
    match w.tree.directory? place, w.take? origin with
    | some c, some (n, rest) =>
      (⟨w.tree.changeAt place fun p ns => upsert p n ns, (get? n.name c.children).toList ++ rest⟩,
        none)
    | _, _ => (w, none)
  | .remove place name =>
    match w.tree.directory? place with
    | some c =>
      (⟨w.tree.changeAt place fun _ ns => remove name ns, (get? name c.children).toList ++ w.loose⟩,
        none)
    | none => (w, none)

def run (w : Workbench) (actions : List Action) : Workbench :=
  actions.foldl (fun w a => (w.perform a).1) w

/-! ### One action -/

variable {w : Workbench} {place name : Text} {c : Container} {n old : Node}
  {before after rest : List Node} {origin : Origin}

structure Adds (w : Workbench) (place : Text) (c : Container) (n : Node) (rest : List Node)
    (r : Workbench × Option Text) : Prop where
  taken : ∀ x, r.2 = some x ↔ x = n.name ∧ n.name ∈ c.children.map Node.name
  unchanged : n.name ∈ c.children.map Node.name → r.1 = w
  added : n.name ∉ c.children.map Node.name → r.1.loose = rest ∧
    ∃ m, n.Rerooted c.path m ∧ w.tree.Rearranged r.1.tree place c n.name (c.children ++ [m])

/-- What upserting `n` into the directory `c` comes to: it takes the position of the child of its name,
which is loose then, or the last one. -/
structure Upserts (w : Workbench) (place : Text) (c : Container) (n : Node) (rest : List Node)
    (r : Workbench × Option Text) : Prop where
  quiet : r.2 = none
  replaced : ∀ before old after, c.children = before ++ old :: after → old.name = n.name →
    r.1.loose = old :: rest ∧ ∃ m, n.Rerooted c.path m ∧
      w.tree.Rearranged r.1.tree place c n.name (before ++ m :: after)
  added : n.name ∉ c.children.map Node.name → r.1.loose = rest ∧
    ∃ m, n.Rerooted c.path m ∧ w.tree.Rearranged r.1.tree place c n.name (c.children ++ [m])

/-- What removing a name from the directory `c` comes to: the child of that name is loose then. -/
structure Removes (w : Workbench) (place : Text) (c : Container) (name : Text)
    (r : Workbench × Option Text) : Prop where
  quiet : r.2 = none
  removed : ∀ before old after, c.children = before ++ old :: after → old.name = name →
    r.1.loose = old :: w.loose ∧ w.tree.Rearranged r.1.tree place c name (before ++ after)
  absent : name ∉ c.children.map Node.name → r.1 = w

/-- What an action comes to if there is a directory at its place and something to put there. -/
def Performs (w : Workbench) (a : Action) (r : Workbench × Option Text) : Prop :=
  match a with
  | .add place origin => ∀ c n rest, w.tree.directory? place = some c →
      w.take? origin = some (n, rest) → w.Adds place c n rest r
  | .upsert place origin => ∀ c n rest, w.tree.directory? place = some c →
      w.take? origin = some (n, rest) → w.Upserts place c n rest r
  | .remove place name => ∀ c, w.tree.directory? place = some c → w.Removes place c name r

structure Sound (w : Workbench) : Prop where
  tree : w.tree.WellFormed
  loose : ∀ n ∈ w.loose, n.Fit

theorem Sound.take? (h : w.Sound) (hfit : origin.Fit)
    (ht : w.take? origin = some (n, rest)) : n.Fit ∧ ∀ m ∈ rest, m.Fit := by
  cases origin with
  | fresh m =>
    obtain ⟨rfl, rfl⟩ := Prod.mk.inj (Option.some.inj ht)
    exact ⟨hfit, h.loose⟩
  | loose i =>
    obtain ⟨m, hm, heq⟩ := Option.map_eq_some_iff.1 ht
    obtain ⟨rfl, rfl⟩ := Prod.mk.inj heq
    exact ⟨h.loose m (List.mem_of_getElem? hm), fun k hk => h.loose k (List.mem_of_mem_eraseIdx hk)⟩

theorem Sound.children (h : w.Sound) (hc : w.tree.directory? place = some c) :
    WellPlacedAll c.path c.children :=
  (Container.placed_descend (List.forall_mem_nil _) (c := w.tree.root) rfl h.tree hc).2.2

theorem adds_perform (hc : w.tree.directory? place = some c)
    (ht : w.take? origin = some (n, rest)) (hn : n.Fit) :
    w.Adds place c n rest (w.perform (.add place origin)) := by
  rw [perform, hc, ht]
  by_cases hmem : n.name ∈ c.children.map Node.name
  · have hnone : add? c.path n c.children = none := Nodes.add?_eq_none_iff.2 hmem
    simp only [hnone]
    refine ⟨fun x => ?_, fun _ => rfl, fun hno => absurd hmem hno⟩
    simp only [Option.some.injEq, hmem, and_true]
    exact eq_comm
  · have hadd := Nodes.add?_of_not_mem hmem c.path
    simp only [hadd]
    have hothers : ∀ x, x ≠ n.name →
        get? x ((add? c.path n c.children).getD c.children) = get? x c.children := by
      intro x hx
      rw [hadd]
      exact Nodes.get?_append_of_ne (n.name_rebase c.path ▸ hx) _
    have hchanged := Tree.rearranged_changeAt hc (fun p ns => (add? p n ns).getD ns) hothers
    rw [hadd] at hchanged
    refine ⟨fun x => ?_, fun h => absurd h hmem, fun _ => ⟨rfl, _, hn.rerooted c.path, hchanged⟩⟩
    simp [hmem]

theorem upserts_perform (h : w.Sound) (hc : w.tree.directory? place = some c)
    (ht : w.take? origin = some (n, rest)) (hn : n.Fit) :
    w.Upserts place c n rest (w.perform (.upsert place origin)) := by
  have hchanged := Tree.rearranged_changeAt hc (fun p ns => upsert p n ns) fun x hx =>
    (Container.get?_upsert c.path n c.children x).trans (if_neg hx)
  rw [perform, hc, ht]
  refine ⟨rfl, ?_, ?_⟩
  · intro before old after hsplit hname
    have hfirst : old.name ∉ before.map Node.name :=
      Nodes.not_mem_before (hsplit ▸ (Node.wellPlacedAll_iff.1 (h.children hc)).2)
    have hget : get? n.name c.children = some old := by
      rw [hsplit, ← hname]
      exact Nodes.get?_middle hfirst
    refine ⟨by simp only [hget, Option.toList_some, List.singleton_append], _,
      hn.rerooted c.path, ?_⟩
    rwa [← Nodes.upsert_middle (hname ▸ hfirst) hname, ← hsplit]
  · intro hno
    refine ⟨by simp only [Nodes.get?_eq_none_iff.2 hno, Option.toList_none, List.nil_append], _,
      hn.rerooted c.path, ?_⟩
    rwa [← Nodes.upsert_of_not_mem hno]

theorem removes_perform (h : w.Sound) (hc : w.tree.directory? place = some c) (name : Text) :
    w.Removes place c name (w.perform (.remove place name)) := by
  have hchanged := Tree.rearranged_changeAt hc (fun _ ns => remove name ns) fun x hx =>
    Nodes.get?_remove_of_ne hx c.children
  rw [perform, hc]
  refine ⟨rfl, ?_, ?_⟩
  · rintro before old after hsplit rfl
    have hfirst : old.name ∉ before.map Node.name :=
      Nodes.not_mem_before (hsplit ▸ (Node.wellPlacedAll_iff.1 (h.children hc)).2)
    have hget : get? old.name c.children = some old := by
      rw [hsplit]
      exact Nodes.get?_middle hfirst
    refine ⟨by simp only [hget, Option.toList_some, List.singleton_append], ?_⟩
    rwa [← Nodes.remove_middle hfirst, ← hsplit]
  · intro hno
    -- Nothing is removed, and a directory that keeps its children leaves the whole tree as it is.
    have hsame : w.tree.root.changeAt (fun _ ns => remove name ns) (Path.segments place) =
        w.tree.root := by
      refine Container.changeAt_eq_self fun e he => ?_
      obtain rfl := Option.some.inj (hc.symm.trans he)
      exact Nodes.remove_of_not_mem hno
    have htree : w.tree.changeAt place (fun _ ns => remove name ns) = w.tree :=
      congrArg Tree.mk (congrArg Container.children hsame)
    simp only [htree, Nodes.get?_eq_none_iff.2 hno, Option.toList_none, List.nil_append]

theorem performs_perform (h : w.Sound) {a : Action} (ha : a.Fit) : w.Performs a (w.perform a) := by
  cases a with
  | add place origin => exact fun c n rest hc ht => adds_perform hc ht (h.take? ha ht).1
  | upsert place origin => exact fun c n rest hc ht => upserts_perform h hc ht (h.take? ha ht).1
  | remove place name => exact fun c hc => removes_perform h hc name

theorem Sound.displaced (h : w.Sound) (hc : w.tree.directory? place = some c) (name : Text)
    (hrest : ∀ m ∈ rest, m.Fit) : ∀ m ∈ (get? name c.children).toList ++ rest, m.Fit := by
  refine List.forall_mem_append.2 ⟨fun m hm => ?_, hrest⟩
  exact (Nodes.wellPlaced_of_get? (h.children hc) (Option.mem_toList.1 hm)).fit

theorem sound_perform (h : w.Sound) {a : Action} (ha : a.Fit) : (w.perform a).1.Sound := by
  cases a with
  | add place origin =>
    rw [perform]
    split
    · next c n rest hc ht =>
      obtain ⟨hn, hrest⟩ := h.take? ha ht
      split
      · exact h
      · refine ⟨Tree.wellFormed_changeAt h.tree (fun p ns hns => ?_) place, hrest⟩
        cases hadd : add? p n ns with
        | none => exact hns
        | some ms => exact Nodes.wellPlacedAll_add? hns hn hadd
    · exact h
  | upsert place origin =>
    rw [perform]
    split
    · next c n rest hc ht =>
      obtain ⟨hn, hrest⟩ := h.take? ha ht
      exact ⟨Tree.wellFormed_changeAt h.tree (fun _ _ hns => Nodes.wellPlacedAll_upsert hns hn) place,
        h.displaced hc n.name hrest⟩
    · exact h
  | remove place name =>
    rw [perform]
    split
    · next c hc =>
      exact ⟨Tree.wellFormed_changeAt h.tree (fun _ _ hns => Nodes.wellPlacedAll_remove hns name) place,
        h.displaced hc name h.loose⟩
    · exact h

/-! ### Any number of actions -/

theorem sound_run (h : w.Sound) {actions : List Action} (ha : ∀ a ∈ actions, a.Fit) :
    (w.run actions).Sound := by
  induction actions generalizing w with
  | nil => exact h
  | cons a actions ih =>
    obtain ⟨hfit, hrest⟩ := List.forall_mem_cons.1 ha
    exact ih (sound_perform h hfit) hrest

/-- Wherever subtrees are put and taken out, the tree is well-formed after every action, and the next one
changes no more than the children of its directory. -/
theorem moves_keep_wellFormed {t : Tree} (ht : t.WellFormed) {actions : List Action}
    (h : ∀ a ∈ actions, a.Fit) :
    (run ⟨t, []⟩ actions).tree.WellFormed ∧
      ∀ a : Action, a.Fit → (run ⟨t, []⟩ actions).Performs a ((run ⟨t, []⟩ actions).perform a) := by
  have hsound : (run ⟨t, []⟩ actions).Sound := sound_run ⟨ht, List.forall_mem_nil _⟩ h
  exact ⟨hsound.tree, fun a ha => performs_perform hsound ha⟩

theorem moves_keep_wellFormed_docs :
    let w := run ⟨Baseline.initialTree, []⟩
      [.remove "/" "docs", .upsert "/" (.fresh (Node.newDirectory "box" [])), .add "/box" (.loose 0)]
    let again : Action := .add "/box" (.fresh (Node.newFile "docs" none))
    w.tree.WellFormed ∧ w.Performs again (w.perform again) ∧ (w.perform again).2 = some "docs" ∧
      w.tree.node? "/box/docs" = some (.directory "docs" "/box/docs" []) := by
  have hbox : (Node.newDirectory "box" []).Fit := ⟨by decide, trivial⟩
  have hdocs : (Node.newFile "docs" none).Fit := show Path.isName "docs" = true by decide
  have hactions : ∀ a ∈ ([.remove "/" "docs", .upsert "/" (.fresh (Node.newDirectory "box" [])),
      .add "/box" (.loose 0)] : List Action), a.Fit := by
    simpa [Action.Fit, Origin.Fit] using hbox
  have h := moves_keep_wellFormed Baseline.wellFormed_initialTree hactions
  exact ⟨h.1, h.2 _ hdocs, by decide, by decide⟩

end Workbench

end ThreatDesk
