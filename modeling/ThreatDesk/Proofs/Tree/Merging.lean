import ThreatDesk.Proofs.Tree.Search

/-!
# Merging the modules

A module is put at its place unless the place is barred: something is there, or a file stands where one of
its directories should be. So a directory gains the files of some modules and the directories that they
need, and nothing else (`gains_placeAll`); afterwards every place is barred, and a second time nothing is
put (`placeAll_of_barred`). Main statement: `merge_conserves`.
-/

namespace ThreatDesk

open Baseline (Module)
open Nodes (get? modify)
open Node (allFiles)

theorem Node.Kept.trans {m n k : Node} {some more : List Text} (h : Node.Kept some m n)
    (h' : Node.Kept more n k) : Node.Kept (some ++ more) m k where
  kind := h'.kind.trans h.kind
  name := h'.name.trans h.name
  path := h'.path.trans h.path
  file := h'.file.trans h.file
  order := by rw [h'.order, h.order, List.append_assoc]

theorem Node.Kept.eq_file {f : File} {n : Node} {more : List Text} (h : Node.Kept more (.file f) n) :
    n = .file f :=
  Tree.file?_eq_some h.file

namespace Node

/-! ## Counting the files -/

theorem allFiles_append (ms ns : List Node) : allFiles (ms ++ ns) = allFiles ms ++ allFiles ns := by
  induction ms with
  | nil => rfl
  | cons m ms ih => rw [List.cons_append, allFiles, allFiles, ih, List.append_assoc]

theorem length_allFiles_concat (ns : List Node) (n : Node) :
    (allFiles (ns ++ [n])).length = (allFiles ns).length + (files n).length := by
  rw [allFiles_append, List.length_append, allFiles, allFiles, List.append_nil]

theorem length_allFiles_modify {s n q : Text} {cs ds ns : List Node} {count : Nat}
    (hg : get? s ns = some (.directory n q cs))
    (h : (allFiles ds).length = (allFiles cs).length + count) :
    (allFiles (modify s (fun _ => .directory n q ds) ns)).length = (allFiles ns).length + count := by
  induction ns with
  | nil => exact nomatch hg
  | cons m ns ih =>
    rw [get?] at hg
    rw [Nodes.modify]
    split
    · next hm =>
      rw [if_pos hm] at hg
      obtain rfl := Option.some.inj hg
      rw [allFiles, allFiles, files, files, List.length_append, List.length_append, h]
      omega
    · next hm =>
      rw [if_neg hm] at hg
      rw [allFiles, allFiles, List.length_append, List.length_append, ih hg, Nat.add_assoc]

end Node

namespace Container

/-! ## What a directory gains -/

/-- What becomes of a directory when modules are put in and below it: nothing of what is there changes,
and what is new is the file of a module or a directory on one of the ways. -/
structure Gains (ways : List (List Text)) (added : List Module) (c d : Container) : Prop where
  top : ∃ more, d.children.map Node.name = c.children.map Node.name ++ more
  kept : ∀ folders name m, c.at? folders name = some m →
    ∃ n more, d.at? folders name = some n ∧ Node.Kept more m n
  files : ∀ m ∈ added, c.at? m.folders m.name = none ∧
    ∃ q, d.at? m.folders m.name = some (.file ⟨m.name, q, some m.content⟩)
  fresh : ∀ folders name n, c.at? folders name = none → d.at? folders name = some n →
    (∃ m ∈ added, m.folders = folders ∧ m.name = name) ∨
      (n.isDirectory = true ∧ ∃ way ∈ ways, folders ++ [name] <+: way)
  count : (allFiles d.children).length = (allFiles c.children).length + added.length

variable {ways ways' : List (List Text)} {added more : List Module} {c d e : Container}

theorem Gains.refl (ways : List (List Text)) (c : Container) : Gains ways [] c c where
  top := ⟨[], (List.append_nil _).symm⟩
  kept _ _ m hm := ⟨m, [], hm, .refl m⟩
  files := List.forall_mem_nil _
  fresh _ _ _ hc hd := absurd (hc.symm.trans hd) (by simp)
  count := rfl

theorem Gains.mono (h : Gains ways added c d) (hsub : ways ⊆ ways') : Gains ways' added c d where
  top := h.top
  kept := h.kept
  files := h.files
  fresh folders name n hc hd :=
    (h.fresh folders name n hc hd).imp_right (And.imp_right fun ⟨way, hw, hp⟩ => ⟨way, hsub hw, hp⟩)
  count := h.count

theorem Gains.trans (h : Gains ways added c d) (k : Gains ways' more d e) :
    Gains (ways ++ ways') (added ++ more) c e where
  top := by
    obtain ⟨xs, hxs⟩ := h.top
    obtain ⟨ys, hys⟩ := k.top
    exact ⟨xs ++ ys, by rw [hys, hxs, List.append_assoc]⟩
  kept folders name m hm := by
    obtain ⟨n, xs, hn, hmn⟩ := h.kept folders name m hm
    obtain ⟨l, ys, hl, hnl⟩ := k.kept folders name n hn
    exact ⟨l, xs ++ ys, hl, hmn.trans hnl⟩
  files := by
    refine List.forall_mem_append.2 ⟨fun m hm => ?_, fun m hm => ?_⟩
    · obtain ⟨hnone, q, hq⟩ := h.files m hm
      obtain ⟨l, ys, hl, hkept⟩ := k.kept _ _ _ hq
      exact ⟨hnone, q, hkept.eq_file ▸ hl⟩
    · obtain ⟨hnone, hfile⟩ := k.files m hm
      refine ⟨?_, hfile⟩
      cases hc : c.at? m.folders m.name with
      | none => rfl
      | some n =>
        obtain ⟨l, xs, hl, -⟩ := h.kept _ _ _ hc
        exact absurd (hnone.symm.trans hl) (by simp)
  fresh folders name n hc he := by
    cases hd : d.at? folders name with
    | none =>
      rcases k.fresh folders name n hd he with ⟨m, hm, hplace⟩ | ⟨hn, way, hway, hp⟩
      · exact .inl ⟨m, List.mem_append_right _ hm, hplace⟩
      · exact .inr ⟨hn, way, List.mem_append_right _ hway, hp⟩
    | some m =>
      -- What the first step has put there keeps its kind in the second one.
      obtain ⟨l, ys, hl, hkept⟩ := k.kept folders name m hd
      obtain rfl := Option.some.inj (hl.symm.trans he)
      rcases h.fresh folders name m hc hd with ⟨m, hm, hplace⟩ | ⟨hm, way, hway, hp⟩
      · exact .inl ⟨m, List.mem_append_left _ hm, hplace⟩
      · exact .inr ⟨hkept.kind.trans hm, way, List.mem_append_left _ hway, hp⟩
  count := by rw [k.count, h.count, List.length_append, Nat.add_assoc]

/-! ## Places that are barred -/

/-- Something is at the place, or a file stands where one of the directories on the way should be. -/
def Barred (c : Container) (folders : List Text) (name : Text) : Prop :=
  (∃ n, c.at? folders name = some n) ∨
    ∃ way s f, way ++ [s] <+: folders ∧ c.at? way s = some (.file f)

theorem Barred.gains {folders : List Text} {name : Text} (hb : c.Barred folders name)
    (h : Gains ways added c d) : d.Barred folders name := by
  rcases hb with ⟨n, hn⟩ | ⟨way, s, f, hp, hf⟩
  · obtain ⟨m, -, hm, -⟩ := h.kept _ _ _ hn
    exact .inl ⟨m, hm⟩
  · obtain ⟨m, more, hm, hkept⟩ := h.kept _ _ _ hf
    exact .inr ⟨way, s, f, hp, hkept.eq_file ▸ hm⟩

theorem not_barred_empty (q : Text) (folders : List Text) (name : Text) :
    ¬ Barred ⟨q, []⟩ folders name := by
  rintro (⟨n, hn⟩ | ⟨way, s, f, -, hf⟩)
  · exact absurd ((at?_empty q folders name).symm.trans hn) (by simp)
  · exact absurd ((at?_empty q way s).symm.trans hf) (by simp)

theorem Barred.child {s n q name : Text} {cs : List Node} {rest : List Text}
    (hg : get? s c.children = some (.directory n q cs)) (hb : Barred ⟨q, cs⟩ rest name) :
    c.Barred (s :: rest) name := by
  rcases hb with ⟨m, hm⟩ | ⟨way, x, f, hp, hf⟩
  · exact .inl ⟨m, (at?_directory hg rest name).trans hm⟩
  · exact .inr ⟨s :: way, x, f, List.cons_prefix_cons.2 ⟨rfl, hp⟩, (at?_directory hg way x).trans hf⟩

theorem Gains.not_barred (h : Gains ways added c d) {m : Module} (hm : m ∈ added) :
    ¬ c.Barred m.folders m.name := by
  obtain ⟨hnone, q, hq⟩ := h.files m hm
  rintro (⟨n, hn⟩ | ⟨way, s, f, hp, hf⟩)
  · exact absurd (hnone.symm.trans hn) (by simp)
  · obtain ⟨k, more, hk, hkept⟩ := h.kept _ _ _ hf
    obtain ⟨e, he, -⟩ := Option.bind_eq_some_iff.1 hq
    obtain ⟨n, r, cs, hdirectory⟩ := passable_iff.2 ⟨e, he⟩ way s hp
    obtain rfl := Option.some.inj (hk.symm.trans hdirectory)
    exact absurd hkept.kind (by simp [Node.isDirectory])

/-! ## One module -/

def inside (s : Text) (m : Module) : Module := { m with folders := s :: m.folders }

theorem gains_child {s n q p : Text} {cs ds nodes nodes' : List Node}
    (hget : ∀ x, get? x nodes' = if x = s then some (.directory n q ds) else get? x nodes)
    (htop : ∃ more, nodes'.map Node.name = nodes.map Node.name ++ more)
    (hcount : (allFiles nodes').length = (allFiles nodes).length + added.length)
    (hold : get? s nodes = some (.directory n q cs) ∨
      (get? s nodes = none ∧ cs = [] ∧ ways ≠ []))
    (h : Gains ways added ⟨q, cs⟩ ⟨q, ds⟩) :
    Gains (ways.map (s :: ·)) (added.map (inside s)) ⟨p, nodes⟩ ⟨p, nodes'⟩ := by
  have hplace := at?_child_cases (p := p) hget (hold.imp_right fun hnew => ⟨hnew.1, hnew.2.1⟩)
  constructor
  case top => exact htop
  case kept =>
    intro folders name m hm
    rcases hplace folders name with ⟨rfl, rfl, hd⟩ | ⟨rest, rfl, hbelow, hbelow'⟩ | ⟨-, hsame⟩
    · rcases hold with hg | ⟨hg, -⟩
      · obtain rfl := Option.some.inj (hg.symm.trans hm)
        obtain ⟨more, hmore⟩ := h.top
        exact ⟨_, more, hd, rfl, rfl, rfl, rfl, hmore⟩
      · exact absurd (hg.symm.trans hm) (by simp)
    · rw [hbelow] at hm
      rw [hbelow']
      exact h.kept rest name m hm
    · exact ⟨m, [], hsame.symm.trans hm, .refl m⟩
  case files =>
    intro k hk
    obtain ⟨m, hm, rfl⟩ := List.mem_map.1 hk
    rcases hplace (s :: m.folders) m.name with ⟨hnil, -⟩ | ⟨rest, hrest, hbelow, hbelow'⟩ | ⟨hno, -⟩
    · exact nomatch hnil
    · obtain rfl := (List.cons.inj hrest).2
      obtain ⟨hnone, r, hr⟩ := h.files m hm
      exact ⟨hbelow.trans hnone, r, hbelow'.trans hr⟩
    · exact absurd rfl (hno m.folders)
  case fresh =>
    intro folders name m hm hn
    rcases hplace folders name with ⟨rfl, rfl, hd⟩ | ⟨rest, rfl, hbelow, hbelow'⟩ | ⟨-, hsame⟩
    · obtain rfl := Option.some.inj (hd.symm.trans hn)
      rcases hold with hg | ⟨-, -, hways⟩
      · exact absurd (hg.symm.trans hm) (by simp)
      · obtain ⟨way, hway⟩ := List.exists_mem_of_ne_nil ways hways
        exact .inr ⟨rfl, name :: way, List.mem_map_of_mem hway, List.prefix_append [name] way⟩
    · rw [hbelow] at hm
      rw [hbelow'] at hn
      rcases h.fresh rest name m hm hn with ⟨k, hk, rfl, rfl⟩ | ⟨hm, way, hway, hp⟩
      · exact .inl ⟨inside s k, List.mem_map_of_mem hk, rfl, rfl⟩
      · exact .inr ⟨hm, s :: way, List.mem_map_of_mem hway, List.cons_prefix_cons.2 ⟨rfl, hp⟩⟩
    · exact absurd (hm.symm.trans (hsame.trans hn)) (by simp)
  case count =>
    rw [List.length_map]
    exact hcount

theorem gains_modify {s n q : Text} {cs ds nodes : List Node}
    (hg : get? s nodes = some (.directory n q cs)) (h : Gains ways added ⟨q, cs⟩ ⟨q, ds⟩) (p : Text) :
    Gains (ways.map (s :: ·)) (added.map (inside s)) ⟨p, nodes⟩
      ⟨p, modify s (fun _ => .directory n q ds) nodes⟩ := by
  have hkeep : ∀ m : Node, m.name = s → (Node.directory n q ds).name = s :=
    fun _ _ => (Nodes.get?_eq_some hg).2
  refine gains_child ?_ ⟨[], ?_⟩ (Node.length_allFiles_modify hg h.count) (.inl hg) h
  · intro x
    rw [Nodes.get?_modify hkeep, hg, Option.map_some]
  · rw [Nodes.map_name_modify hkeep, List.append_nil]

theorem gains_concat {s q : Text} {ds nodes : List Node} (hg : get? s nodes = none)
    (hways : ways ≠ []) (h : Gains ways added ⟨q, []⟩ ⟨q, ds⟩) (p : Text) :
    Gains (ways.map (s :: ·)) (added.map (inside s)) ⟨p, nodes⟩
      ⟨p, nodes ++ [.directory s q ds]⟩ := by
  refine gains_child (Nodes.get?_concat (n := .directory s q ds) hg) ⟨[s], ?_⟩ ?_
    (.inr ⟨hg, rfl, hways⟩) h
  · rw [List.map_append]
    rfl
  · rw [Node.length_allFiles_concat, Node.files, h.count]
    exact congrArg _ (Nat.zero_add _)

theorem gains_append {m : Module} (hm : m.folders = []) {nodes : List Node}
    (hg : get? m.name nodes = none) (p q : Text) :
    Gains ways [m] ⟨p, nodes⟩ ⟨p, nodes ++ [.file ⟨m.name, q, some m.content⟩]⟩ := by
  have hget := Nodes.get?_concat (n := .file ⟨m.name, q, some m.content⟩) hg
  have hself := (hget m.name).trans (if_pos rfl)
  have hother (x : Text) (hx : x ≠ m.name) := (hget x).trans (if_neg hx)
  constructor
  case top => exact ⟨[m.name], by rw [List.map_append]; rfl⟩
  case kept =>
    intro folders name n hn
    rcases at?_cases m.name folders name with ⟨rfl, rfl⟩ | ⟨rest, rfl⟩ | hsame
    · exact absurd (hg.symm.trans hn) (by simp)
    · exact absurd ((at?_none hg rest name).symm.trans hn) (by simp)
    · exact ⟨n, [], (hsame _ _ hother).trans hn, .refl n⟩
  case files =>
    refine List.forall_mem_singleton.2 ?_
    rw [hm]
    exact ⟨hg, q, hself⟩
  case fresh =>
    intro folders name n hn hn'
    rcases at?_cases m.name folders name with ⟨rfl, rfl⟩ | ⟨rest, rfl⟩ | hsame
    · exact .inl ⟨m, List.mem_singleton_self m, hm, rfl⟩
    · have hfile : ∀ k, get? m.name (nodes ++ [.file ⟨m.name, q, some m.content⟩]) = some k →
          k.isDirectory = false := by
        intro k hk
        obtain rfl := Option.some.inj (hself.symm.trans hk)
        rfl
      rw [at?, descend_file hfile] at hn'
      exact absurd hn' (by simp)
    · exact absurd (hn.symm.trans ((hsame _ _ hother).symm.trans hn')) (by simp)
  case count => exact Node.length_allFiles_concat nodes _

end Container

namespace Baseline

open Container (Gains Barred inside)

/-! ## The modules -/

theorem place_cases (name content p : Text) (nodes : List Node) (folders : List Text) :
    (place name content p nodes folders = (nodes, false) ∧ Barred ⟨p, nodes⟩ folders name) ∨
      ((place name content p nodes folders).2 = true ∧
        Gains [folders] [⟨folders, name, content⟩] ⟨p, nodes⟩
          ⟨p, (place name content p nodes folders).1⟩) := by
  induction folders generalizing p nodes with
  | nil =>
    rw [place]
    split
    · next hn =>
      obtain ⟨n, hn⟩ := Option.isSome_iff_exists.1 hn
      exact .inl ⟨rfl, .inl ⟨n, hn⟩⟩
    · next hn =>
      rw [Bool.not_eq_true, Nodes.has_eq_false_iff, ← Nodes.get?_eq_none_iff] at hn
      exact .inr ⟨rfl, Container.gains_append (m := ⟨[], name, content⟩) rfl hn p (Path.join p name)⟩
  | cons s rest ih =>
    rw [place]
    split
    · next hg =>
      rcases ih (Path.join p s) [] with ⟨-, hb⟩ | ⟨hadded, h⟩
      · exact absurd hb (Container.not_barred_empty _ rest name)
      · exact .inr ⟨hadded, Container.gains_concat hg (List.cons_ne_nil _ _) h p⟩
    · next f hg => exact .inl ⟨rfl, .inr ⟨[], s, f, List.prefix_append [s] rest, hg⟩⟩
    · next n q cs hg =>
      rcases ih q cs with ⟨hsame, hb⟩ | ⟨hadded, h⟩
      · refine .inl ⟨?_, hb.child hg⟩
        rw [hsame]
        exact Prod.ext (Nodes.modify_eq_self hg rfl) rfl
      · exact .inr ⟨hadded, Container.gains_modify hg h p⟩

/-- The modules that are put, each unless its place is barred by then. -/
def placed (p : Text) (nodes : List Node) : List Module → List Module
  | [] => []
  | m :: ms =>
    let (nodes, added) := place m.name m.content p nodes m.folders
    if added then m :: placed p nodes ms else placed p nodes ms

variable (p : Text) (nodes : List Node) (m : Module) (ms before after : List Module)

theorem count_placeAll : (placeAll p nodes ms).2 = (placed p nodes ms).length := by
  induction ms generalizing nodes with
  | nil => rfl
  | cons m ms ih =>
    rw [placeAll, placed]
    dsimp only
    rw [ih]
    split <;> rfl

theorem placed_sublist : (placed p nodes ms).Sublist ms := by
  induction ms generalizing nodes with
  | nil => exact .slnil
  | cons m ms ih =>
    rw [placed]
    dsimp only
    split
    · exact (ih _).cons_cons m
    · exact (ih _).cons m

theorem gains_placeAll :
    Gains ((placed p nodes ms).map Module.folders) (placed p nodes ms) ⟨p, nodes⟩
      ⟨p, (placeAll p nodes ms).1⟩ := by
  induction ms generalizing nodes with
  | nil => exact .refl [] _
  | cons m ms ih =>
    rw [placed, placeAll]
    dsimp only
    rcases place_cases m.name m.content p nodes m.folders with ⟨hsame, -⟩ | ⟨hadded, h⟩
    · rw [hsame]
      exact ih nodes
    · rw [if_pos hadded]
      exact h.trans (ih _)

theorem placed_append :
    placed p nodes (before ++ after) =
      placed p nodes before ++ placed p (placeAll p nodes before).1 after := by
  induction before generalizing nodes with
  | nil => rfl
  | cons m ms ih =>
    rw [List.cons_append, placed, placed, placeAll]
    dsimp only
    split
    · rw [ih, List.cons_append]
    · exact ih _

theorem mem_placed (h : ¬ Barred ⟨p, (placeAll p nodes before).1⟩ m.folders m.name) :
    m ∈ placed p nodes (before ++ m :: after) := by
  rw [placed_append]
  refine List.mem_append_right _ ?_
  rw [placed]
  rcases place_cases m.name m.content p (placeAll p nodes before).1 m.folders with
    ⟨-, hb⟩ | ⟨hadded, -⟩
  · exact absurd hb h
  · dsimp only
    rw [if_pos hadded]
    exact List.mem_cons_self

theorem barred_placeAll : ∀ m ∈ ms, Barred ⟨p, (placeAll p nodes ms).1⟩ m.folders m.name := by
  induction ms generalizing nodes with
  | nil => exact List.forall_mem_nil _
  | cons m ms ih =>
    rw [placeAll]
    dsimp only
    refine List.forall_mem_cons.2 ⟨Barred.gains ?_ (gains_placeAll ..), ih _⟩
    rcases place_cases m.name m.content p nodes m.folders with ⟨hsame, hb⟩ | ⟨-, h⟩
    · rw [hsame]
      exact hb
    · obtain ⟨-, q, hq⟩ := h.files _ (List.mem_singleton_self _)
      exact .inl ⟨_, hq⟩

theorem placeAll_of_barred (h : ∀ m ∈ ms, Barred ⟨p, nodes⟩ m.folders m.name) :
    placeAll p nodes ms = (nodes, 0) := by
  induction ms with
  | nil => rfl
  | cons m ms ih =>
    obtain ⟨hm, hms⟩ := List.forall_mem_cons.1 h
    rcases place_cases m.name m.content p nodes m.folders with ⟨hsame, -⟩ | ⟨-, hgains⟩
    · simp only [placeAll, hsame, ih hms, Bool.false_eq_true, if_false]
    · exact absurd hm (hgains.not_barred (List.mem_singleton_self _))

/-! ## The whole tree -/

section

variable {t : Tree}

theorem merge_ok {ε : Type} (t : Tree) (ms : List Module) :
    merge t (.ok ms : Except ε (List Module)) =
      ((mergeInto (withSource t) ms).1, .ok (mergeInto (withSource t) ms).2) := by
  unfold merge
  dsimp only
  split
  · rfl
  · next hno =>
    unfold mergeInto
    split
    · next hg => exact absurd hg (hno _ _ _)
    · rfl

theorem withSource_of_get? {n : Node} (h : get? sourceName t.children = some n) :
    withSource t = t := by
  rw [withSource, hasSource, Nodes.has, h]
  rfl

theorem mergeInto_directory {n q : Text} {cs : List Node}
    (h : get? sourceName t.children = some (.directory n q cs)) (ms : List Module) :
    mergeInto t ms =
      (⟨modify sourceName (fun _ => .directory n q (placeAll q cs ms).1) t.children⟩,
        (placeAll q cs ms).2) := by
  rw [mergeInto, h]

theorem mergeInto_missing (h : get? sourceName t.children = none) (ms : List Module) :
    mergeInto (withSource t) ms =
      (⟨t.children ++ [fresh ms]⟩, (placeAll (Path.join Path.root sourceName) [] ms).2) := by
  have hw : withSource t = ⟨t.children ++ [fresh []]⟩ := by
    rw [withSource, hasSource, Nodes.has, h]
    rfl
  have hg : get? sourceName (t.children ++ [fresh []]) = some (fresh []) :=
    (Nodes.get?_concat (n := fresh []) h sourceName).trans (if_pos rfl)
  rw [hw, mergeInto_directory hg]
  exact Prod.ext (congrArg Tree.mk (Nodes.modify_concat (n := fresh []) h _)) rfl

theorem gains_mergeInto (h : ∀ f, get? sourceName t.children ≠ some (.file f)) :
    ∃ n q cs, ∀ ms,
      (mergeInto (withSource t) ms).2 = (placed q cs ms).length ∧
      get? sourceName (mergeInto (withSource t) ms).1.children =
        some (.directory n q (placeAll q cs ms).1) ∧
      Gains (([] :: (placed q cs ms).map Module.folders).map (sourceName :: ·))
        ((placed q cs ms).map (inside sourceName)) t.root (mergeInto (withSource t) ms).1.root := by
  have hgains (q : Text) (cs : List Node) (ms : List Module) :=
    (gains_placeAll q cs ms).mono (List.subset_cons_self [] _)
  cases hg : get? sourceName t.children with
  | none =>
    refine ⟨sourceName, Path.join Path.root sourceName, [], fun ms => ?_⟩
    rw [mergeInto_missing hg, count_placeAll]
    refine ⟨rfl, ?_, Container.gains_concat hg (List.cons_ne_nil _ _) (hgains _ _ ms) Path.root⟩
    exact (Nodes.get?_concat (n := fresh ms) hg sourceName).trans (if_pos rfl)
  | some node =>
    cases node with
    | file f => exact absurd hg (h f)
    | directory n q cs =>
      refine ⟨n, q, cs, fun ms => ?_⟩
      rw [withSource_of_get? hg, mergeInto_directory hg, count_placeAll]
      refine ⟨rfl, ?_, Container.gains_modify hg (hgains q cs ms) Path.root⟩
      have hkeep : ∀ m : Node, m.name = sourceName →
          (Node.directory n q (placeAll q cs ms).1).name = sourceName :=
        fun _ _ => (Nodes.get?_eq_some hg).2
      exact (Nodes.get?_modify_self hkeep).trans (congrArg _ hg)

/-- What has become of a tree that the modules have been merged into, of which some were added. -/
structure Merged (t u : Tree) (modules added : List Module) : Prop where
  wellFormed : u.WellFormed
  /-- What was there is there, and the children that a directory had come before the new ones. -/
  kept : ∀ folders name m, t.root.at? folders name = some m →
    ∃ n more, u.root.at? folders name = some n ∧ Node.Kept more m n
  top : ∃ more, u.children.map Node.name = t.children.map Node.name ++ more
  sublist : added.Sublist modules
  files : ∀ m ∈ added, t.root.at? (sourceName :: m.folders) m.name = none ∧
    u.root.at? (sourceName :: m.folders) m.name =
      some (.file ⟨m.name, Path.ofSegments (sourceName :: m.folders ++ [m.name]), some m.content⟩)
  /-- A module is added unless its place is barred when it comes to it. -/
  listed : ∀ before m after, modules = before ++ m :: after →
    ¬ Barred (mergeInto (withSource t) before).1.root (sourceName :: m.folders) m.name → m ∈ added
  /-- What is new is a module, or a directory on the way to one, or that of all of them. -/
  fresh : ∀ folders name n, t.root.at? folders name = none → u.root.at? folders name = some n →
    (∃ m ∈ added, folders = sourceName :: m.folders ∧ name = m.name) ∨
      (n.isDirectory = true ∧ ((folders = [] ∧ name = sourceName) ∨
        ∃ m ∈ added, folders ++ [name] <+: sourceName :: m.folders))
  count : (allFiles u.children).length = (allFiles t.children).length + added.length

theorem merged_mergeInto (ht : t.WellFormed) {modules : List Module} (hm : ∀ m ∈ modules, m.Named)
    (h : ∀ f, get? sourceName t.children ≠ some (.file f)) :
    ∃ added, (mergeInto (withSource t) modules).2 = added.length ∧
      Merged t (mergeInto (withSource t) modules).1 modules added := by
  have hwf := wellFormed_mergeInto (wellFormed_withSource ht) hm
  obtain ⟨n, q, cs, hall⟩ := gains_mergeInto h
  obtain ⟨hcount, -, hgains⟩ := hall modules
  refine ⟨placed q cs modules, hcount, ?_⟩
  constructor
  case wellFormed => exact hwf
  case kept => exact hgains.kept
  case top => exact hgains.top
  case sublist => exact placed_sublist q cs modules
  case files =>
    intro m hmem
    obtain ⟨hnone, r, hr⟩ := hgains.files _ (List.mem_map_of_mem hmem)
    obtain ⟨-, -, rfl⟩ := Tree.path_of_at? hwf hr
    exact ⟨hnone, hr⟩
  case listed =>
    rintro before m after rfl hb
    refine mem_placed q cs m before after fun hin => hb ?_
    exact hin.child (hall before).2.1
  case fresh =>
    intro folders name k hk hk'
    rcases hgains.fresh folders name k hk hk' with ⟨m, hm, rfl, rfl⟩ | ⟨hd, way, hway, hp⟩
    · obtain ⟨m, hmem, rfl⟩ := List.mem_map.1 hm
      exact .inl ⟨m, hmem, rfl, rfl⟩
    · refine .inr ⟨hd, ?_⟩
      rw [List.map_cons, List.mem_cons, List.map_map, List.mem_map] at hway
      rcases hway with rfl | ⟨m, hmem, rfl⟩
      · have hself : folders ++ [name] = [] ++ [sourceName] := hp.eq_of_length_le (by simp)
        exact .inl ((List.append_inj' hself rfl).imp_right List.singleton_inj.1)
      · exact .inr ⟨m, hmem, hp⟩
  case count =>
    rw [← List.length_map (inside sourceName)]
    exact hgains.count

theorem mergeInto_file {f : File} (h : get? sourceName t.children = some (.file f))
    (ms : List Module) : mergeInto (withSource t) ms = (t, 0) := by
  rw [withSource_of_get? h, mergeInto, h]

theorem mergeInto_again (t : Tree) (ms : List Module) :
    mergeInto (withSource (mergeInto (withSource t) ms).1) ms =
      ((mergeInto (withSource t) ms).1, 0) := by
  by_cases hfile : ∃ f, get? sourceName t.children = some (.file f)
  · obtain ⟨f, hf⟩ := hfile
    rw [mergeInto_file hf, mergeInto_file hf]
  · obtain ⟨n, q, cs, hall⟩ := gains_mergeInto (t := t) fun f hf => hfile ⟨f, hf⟩
    obtain ⟨-, hg, -⟩ := hall ms
    generalize (mergeInto (withSource t) ms).1 = u at hg
    rw [withSource_of_get? hg, mergeInto_directory hg,
      placeAll_of_barred _ _ _ (barred_placeAll q cs ms), Nodes.modify_eq_self hg rfl]

/-- Merging the modules adds what is missing and changes nothing else, and a second time it does nothing. A
file that has the name of their directory is left alone. -/
theorem merge_conserves {ε : Type} (ht : t.WellFormed) {modules : List Module}
    (hm : ∀ m ∈ modules, m.Named) :
    ∃ u count, merge t (.ok modules : Except ε (List Module)) = (u, .ok count) ∧
      ((∃ f, get? sourceName t.children = some (.file f)) → u = t ∧ count = 0) ∧
      ((∀ f, get? sourceName t.children ≠ some (.file f)) →
        ∃ added, count = added.length ∧ Merged t u modules added) ∧
      merge u (.ok modules : Except ε (List Module)) = (u, .ok 0) := by
  refine ⟨_, _, merge_ok t modules, ?_, merged_mergeInto ht hm, ?_⟩
  · rintro ⟨f, hf⟩
    rw [mergeInto_file hf]
    exact ⟨rfl, rfl⟩
  · rw [merge_ok, mergeInto_again]

end

theorem merge_conserves_customized :
    let t : Tree := ⟨[.directory "src" "/src"
      [.file ⟨"app.py", "/src/app.py", some "mine"⟩, .file ⟨"vfs", "/src/vfs", none⟩]]⟩
    let modules : List Module :=
      [⟨["shell"], "run.py", "a"⟩, ⟨[], "app.py", "b"⟩, ⟨["vfs"], "node.py", "c"⟩,
        ⟨["shell"], "run.py", "d"⟩]
    (t.WellFormed ∧ ∀ m ∈ modules, m.Named) ∧
      ∃ u count, merge t (.ok modules : Except Unit (List Module)) = (u, .ok count) ∧
        ((∃ f, get? sourceName t.children = some (.file f)) → u = t ∧ count = 0) ∧
        ((∀ f, get? sourceName t.children ≠ some (.file f)) →
          ∃ added, count = added.length ∧ Merged t u modules added) ∧
        merge u (.ok modules : Except Unit (List Module)) = (u, .ok 0) := by
  intro t modules
  have ht : t.WellFormed := by
    refine ⟨⟨by decide, rfl, ⟨by decide, rfl⟩, ?_, ⟨by decide, rfl⟩, ?_, trivial⟩, ?_, trivial⟩
    · exact List.forall_mem_singleton.2 (by decide)
    · exact List.forall_mem_nil _
    · exact List.forall_mem_nil _
  have hm : ∀ m ∈ modules, m.Named := by
    simp only [modules, Module.Named]
    decide
  exact ⟨⟨ht, hm⟩, merge_conserves ht hm⟩

end Baseline

end ThreatDesk
