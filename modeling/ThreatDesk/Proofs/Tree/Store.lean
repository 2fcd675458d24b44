import ThreatDesk.Proofs.Tree.Edit
import ThreatDesk.Proofs.Tree.Extends
import ThreatDesk.Proofs.Tree.Path

/-!
# Storing all or nothing

If nothing stands in the way of any of several files, each of which is no directory of another one, then
all of them are stored: no step of the second pass puts anything in the way of a later one
(`storeAll_cases`).
-/

namespace ThreatDesk

open Nodes (get? modify upsert obstacle? ensure)
open Container (Extends at? descend_directory at?_directory at?_none at?_empty)

namespace Nodes

/-! ## Obstacles -/

theorem obstacle?_empty (path name : Text) (folders : List Text) :
    obstacle? path name [] folders = none := by
  cases folders <;> rfl

theorem obstacle?_eq_none_iff {path name p : Text} {nodes : List Node} {folders : List Text} :
    obstacle? path name nodes folders = none ↔
      (∀ fs s, fs ++ [s] <+: folders → ∀ n, at? ⟨p, nodes⟩ fs s = some n → n.isDirectory = true) ∧
      (∀ n, at? ⟨p, nodes⟩ folders name = some n → n.isDirectory = false) := by
  induction folders generalizing p nodes with
  | nil =>
    rw [obstacle?]
    constructor
    · intro h
      refine ⟨fun fs s hp => absurd hp (by simp), ?_⟩
      intro n hn
      cases n with
      | file f => rfl
      | directory m q cs =>
        rw [show get? name nodes = some (.directory m q cs) from hn] at h
        exact absurd h (by simp)
    · rintro ⟨-, h⟩
      split
      · next m q cs hg => exact absurd (h _ hg) (by simp [Node.isDirectory])
      · rfl
  | cons s rest ih =>
    have hfirst {fs : List Text} {x : Text} (hp : fs ++ [x] <+: s :: rest) :
        (fs = [] ∧ x = s) ∨ ∃ gs, fs = s :: gs ∧ gs ++ [x] <+: rest := by
      cases fs with
      | nil => exact Or.inl ⟨rfl, (List.cons_prefix_cons.1 hp).1⟩
      | cons y gs =>
        obtain ⟨rfl, hgs⟩ := List.cons_prefix_cons.1 hp
        exact Or.inr ⟨gs, rfl, hgs⟩
    rw [obstacle?]
    cases hg : get? s nodes with
    | none =>
      refine iff_of_true rfl ⟨?_, ?_⟩
      · intro fs x hp n hn
        rcases hfirst hp with ⟨rfl, rfl⟩ | ⟨gs, rfl, -⟩
        · exact absurd (hg.symm.trans hn) (by simp)
        · exact absurd ((at?_none hg gs x).symm.trans hn) (by simp)
      · intro n hn
        exact absurd ((at?_none hg rest name).symm.trans hn) (by simp)
    | some m =>
      cases m with
      | file f =>
        refine iff_of_false (by simp) ?_
        rintro ⟨h, -⟩
        have hp : [] ++ [s] <+: s :: rest := List.prefix_append [s] rest
        exact absurd (h [] s hp (.file f) hg) (by simp [Node.isDirectory])
      | directory m q cs =>
        refine (ih (p := q)).trans ⟨?_, ?_⟩
        · rintro ⟨hway, hend⟩
          refine ⟨?_, fun n hn => hend n ((at?_directory hg rest name).symm.trans hn)⟩
          intro fs x hp n hn
          rcases hfirst hp with ⟨rfl, rfl⟩ | ⟨gs, rfl, hgs⟩
          · obtain rfl := Option.some.inj (hg.symm.trans hn)
            rfl
          · exact hway gs x hgs n ((at?_directory hg gs x).symm.trans hn)
        · rintro ⟨hway, hend⟩
          refine ⟨?_, fun n hn => hend n ((at?_directory hg rest name).trans hn)⟩
          intro fs x hp n hn
          exact hway (s :: fs) x (List.cons_prefix_cons.2 ⟨rfl, hp⟩) n
            ((at?_directory hg fs x).trans hn)

theorem obstacle?_of_extends {targets : List Text → Text → Prop} {path name p : Text}
    {nodes nodes' : List Node} {folders : List Text}
    (h : Extends targets ⟨p, nodes⟩ ⟨p, nodes'⟩)
    (hway : ∀ fs s, fs ++ [s] <+: folders → ¬ targets fs s)
    (hend : ∀ fs s, targets fs s → ¬ folders ++ [name] <+: fs)
    (hc : obstacle? path name nodes folders = none) :
    obstacle? path name nodes' folders = none := by
  obtain ⟨hdirectories, hfile⟩ := (obstacle?_eq_none_iff (p := p)).1 hc
  refine (obstacle?_eq_none_iff (p := p)).2 ⟨?_, ?_⟩
  · intro fs s hp n hn
    cases hm : at? ⟨p, nodes⟩ fs s with
    | none =>
      rcases h.fresh fs s n hm hn with ⟨ht, -⟩ | ⟨hd, -⟩
      · exact absurd ht (hway fs s hp)
      · exact hd
    | some m =>
      obtain ⟨k, hk, hkind⟩ := h.kinds fs s m hm
      obtain rfl := Option.some.inj (hk.symm.trans hn)
      rw [hkind]
      exact hdirectories fs s hp m hm
  · intro n hn
    cases hm : at? ⟨p, nodes⟩ folders name with
    | none =>
      rcases h.fresh folders name n hm hn with ⟨-, hk⟩ | ⟨-, fs, s, ht, hp⟩
      · exact hk
      · exact absurd hp (hend fs s ht)
    | some m =>
      obtain ⟨k, hk, hkind⟩ := h.kinds folders name m hm
      obtain rfl := Option.some.inj (hk.symm.trans hn)
      rw [hkind]
      exact hfile m hm

/-! ## One file -/

theorem ensure_step {s : Text} {nodes : List Node} (hfile : ∀ f, get? s nodes ≠ some (.file f))
    (hs : Path.isName s = true) (p : Text) (rest : List Text) :
    ∃ n q cs,
      (get? s nodes = some (.directory n q cs) ∨ (get? s nodes = none ∧ cs = [])) ∧
      (ensure p nodes (s :: rest)).2 = (ensure q cs rest).2 ∧
      get? s (ensure p nodes (s :: rest)).1 = some (.directory n q (ensure q cs rest).1) ∧
      (∀ x, x ≠ s → get? x (ensure p nodes (s :: rest)).1 = get? x nodes) ∧
      (ensure p nodes (s :: rest)).1.map Node.name =
        nodes.map Node.name ++ if get? s nodes = none then [s] else [] := by
  rw [ensure]
  cases hg : get? s nodes with
  | none =>
    refine ⟨s, Path.join p s, [], Or.inr ⟨rfl, rfl⟩, ?_⟩
    dsimp only
    rw [if_pos hs]
    refine ⟨rfl, ?_, ?_, ?_⟩
    · rw [get?_append, hg, Option.none_or]
      exact if_pos rfl
    · intro x hx
      rw [get?_append, get?, get?, Option.or_eq_left_of_none]
      exact if_neg (Ne.symm hx)
    · rw [List.map_append]
      rfl
  | some m =>
    cases m with
    | file f => exact absurd hg (hfile f)
    | directory n q cs =>
      have hname : n = s := (get?_eq_some hg).2
      have hkeep : ∀ m : Node, m.name = s →
          (Node.directory n q (ensure q cs rest).1).name = s := fun _ _ => hname
      refine ⟨n, q, cs, Or.inl rfl, rfl, ?_, ?_, ?_⟩
      · show get? s (modify s (fun _ => .directory n q (ensure q cs rest).1) nodes) = _
        rw [get?_modify_self hkeep, hg, Option.map_some]
      · intro x hx
        exact get?_modify_of_ne hx hkeep
      · exact (map_name_modify hkeep).trans (List.append_nil _).symm

theorem ensure_cons {path name s : Text} {rest : List Text} {nodes : List Node}
    (hc : obstacle? path name nodes (s :: rest) = none) (hs : Path.isName s = true) (p : Text) :
    ∃ n q cs,
      (get? s nodes = some (.directory n q cs) ∨ (get? s nodes = none ∧ cs = [])) ∧
      obstacle? path name cs rest = none ∧
      (ensure p nodes (s :: rest)).2 = (ensure q cs rest).2 ∧
      get? s (ensure p nodes (s :: rest)).1 = some (.directory n q (ensure q cs rest).1) ∧
      (∀ x, x ≠ s → get? x (ensure p nodes (s :: rest)).1 = get? x nodes) ∧
      nodes.map Node.name <+: (ensure p nodes (s :: rest)).1.map Node.name := by
  rw [obstacle?] at hc
  have hfile : ∀ f, get? s nodes ≠ some (.file f) := by
    intro f hf
    rw [hf] at hc
    cases hc
  obtain ⟨n, q, cs, hold, he, hself, hother, hnames⟩ := ensure_step hfile hs p rest
  refine ⟨n, q, cs, hold, ?_, he, hself, hother, ?_⟩
  · rcases hold with hg | ⟨-, rfl⟩
    · rw [hg] at hc
      exact hc
    · exact obstacle?_empty ..
  · rw [hnames]
    exact List.prefix_append _ _

theorem ensure_found {path name : Text} {folders : List Text}
    (hf : ∀ s ∈ folders, Path.isName s = true) {nodes : List Node}
    (hc : obstacle? path name nodes folders = none) (p : Text) :
    ∃ q, (ensure p nodes folders).2 = .found q := by
  induction folders generalizing nodes p with
  | nil => exact ⟨p, rfl⟩
  | cons s rest ih =>
    obtain ⟨hs, hrest⟩ := List.forall_mem_cons.1 hf
    obtain ⟨n, q, cs, -, hc, he, -⟩ := ensure_cons hc hs p
    obtain ⟨r, hr⟩ := ih hrest hc q
    exact ⟨r, he.trans hr⟩

theorem extends_store {path name : Text} (content : Text) {folders : List Text}
    (hf : ∀ s ∈ folders, Path.isName s = true) {nodes : List Node}
    (hc : obstacle? path name nodes folders = none) (p : Text) :
    let change : Change := fun q ns => upsert q (Node.newFile name (some content)) ns
    let after := changeAt change p (ensure p nodes folders).1 folders
    Extends (fun fs x => fs = folders ∧ x = name) ⟨p, nodes⟩ ⟨p, after⟩ ∧
      ∃ q, at? ⟨p, after⟩ folders name = some (.file ⟨name, q, some content⟩) := by
  intro change
  induction folders generalizing nodes p with
  | nil =>
    have hfile : ∀ n, get? name nodes = some n → n.isDirectory = false :=
      ((obstacle?_eq_none_iff (p := p)).1 hc).2
    refine ⟨Container.extends_upsert hfile p (some content), Path.join p name, ?_⟩
    show get? name (upsert p (Node.newFile name (some content)) nodes) = _
    rw [Container.get?_upsert]
    exact if_pos rfl
  | cons s rest ih =>
    obtain ⟨hs, hrest⟩ := List.forall_mem_cons.1 hf
    obtain ⟨n, q, cs, hold, hc, -, hself, hother, hnames⟩ := ensure_cons hc hs p
    obtain ⟨hext, r, hat⟩ := ih hrest hc q
    generalize ensure p nodes (s :: rest) = made at hself hother hnames
    have hname : n = s := (get?_eq_some hself).2
    have hkeep : ∀ m : Node, m.name = s →
        (Node.directory n q (changeAt change q (ensure q cs rest).1 rest)).name = s :=
      fun _ _ => hname
    have hafter : changeAt change p made.1 (s :: rest) =
        modify s (fun _ => .directory n q (changeAt change q (ensure q cs rest).1 rest)) made.1 := by
      rw [changeAt, hself]
    have hget : ∀ x, get? x (changeAt change p made.1 (s :: rest)) =
        if x = s then some (.directory n q (changeAt change q (ensure q cs rest).1 rest))
        else get? x nodes := by
      intro x
      rw [hafter, get?_modify hkeep, hself, Option.map_some]
      split
      · rfl
      · next hx => exact hother x hx
    have hprefix : nodes.map Node.name <+:
        (changeAt change p made.1 (s :: rest)).map Node.name := by
      rw [hafter, map_name_modify hkeep]
      exact hnames
    have hold : get? s nodes = some (.directory n q cs) ∨
        (get? s nodes = none ∧ cs = [] ∧ ∃ fs x, fs = rest ∧ x = name) := by
      rcases hold with hg | ⟨hg, hcs⟩
      · exact Or.inl hg
      · exact Or.inr ⟨hg, hcs, rest, name, rfl, rfl⟩
    refine ⟨?_, r, ?_⟩
    · refine (Container.extends_child hget hprefix hold hext).mono ?_
      rintro fs x ⟨gs, rfl, rfl, rfl⟩
      exact ⟨rfl, rfl⟩
    · have hself : get? s (changeAt change p made.1 (s :: rest)) =
          some (.directory n q (changeAt change q (ensure q cs rest).1 rest)) := by
        rw [hget, if_pos rfl]
      exact (at?_directory hself rest name).trans hat

end Nodes

namespace Tree

/-! ## Several files -/

def IsTarget (entries : List (Text × Text)) (folders : List Text) (name : Text) : Prop :=
  ∃ e ∈ entries, Path.segments e.1 = folders ++ [name]

/-- Files, none of which is a directory of another one. -/
structure Apart (paths : List Text) : Prop where
  files : ∀ p ∈ paths, Path.IsFile p
  ways : ∀ p ∈ paths, ∀ q ∈ paths, ¬ Path.segments p <+: (Path.segments q).dropLast

theorem Apart.of_length {paths : List Text} {n : Nat} (hfiles : ∀ p ∈ paths, Path.IsFile p)
    (hn : ∀ p ∈ paths, (Path.segments p).length = n + 1) : Apart paths where
  files := hfiles
  ways p hp q hq h := by
    have hlen := h.length_le
    rw [List.length_dropLast, hn p hp, hn q hq] at hlen
    omega

/-- What becomes of a tree when the entries are stored: nothing but them and the directories they
need is new or changed, and each holds the last text that is given for it. -/
structure Stored (entries : List (Text × Text)) (before after : Tree) : Prop where
  grows : before.root.Extends (IsTarget entries) after.root
  texts : ∀ e ∈ entries, ∃ f, after.file? e.1 = some f ∧ f.content = entries.reverse.lookup e.1

theorem mem_of_lookup_reverse {entries : List (Text × Text)} {path text : Text}
    (h : entries.reverse.lookup path = some text) : (path, text) ∈ entries := by
  obtain ⟨before, after, heq, -⟩ := List.lookup_eq_some_iff.1 h
  exact List.mem_reverse.1 (by simp [heq])

theorem ne_of_lookup_reverse {entries : List (Text × Text)} {path : Text}
    (h : entries.reverse.lookup path = none) : ∀ e ∈ entries, path ≠ e.1 := by
  intro e he
  simpa using List.lookup_eq_none_iff.1 h e (List.mem_reverse.2 he)

theorem file?_eq {path name : Text} {folders : List Text}
    (hsplit : Path.split path = (Path.ofSegments folders, name))
    (hfolders : Path.segments (Path.ofSegments folders) = folders) (t : Tree) :
    t.file? path = (t.root.at? folders name).bind Node.file? := by
  simp only [file?, hsplit, directory?, hfolders, at?]
  cases t.root.descend folders <;> rfl

theorem file?_eq_some {n : Node} {f : File} (h : n.file? = some f) : n = .file f := by
  cases n with
  | file g => rw [Option.some.inj h]
  | directory _ _ _ => exact absurd h (by simp [Node.file?])

theorem store_spec {t : Tree} {path : Text} (content : Text) (hp : Path.IsFile path)
    (hc : t.obstacle? path = none) :
    ∃ u, t.store path content = .ok u ∧ Stored [(path, content)] t u := by
  obtain ⟨folders, name, hnames, -, hsegments, hsplit, hfolders⟩ := Path.isFile_cases hp
  rw [Tree.obstacle?, hsegments, List.dropLast_concat, hsplit] at hc
  obtain ⟨q, hq⟩ := Nodes.ensure_found hnames hc Path.root
  obtain ⟨hext, r, hat⟩ := Nodes.extends_store content hnames hc Path.root
  have he : t.ensure (Path.ofSegments folders) =
      (⟨(Nodes.ensure Path.root t.children folders).1⟩, .found q) := by
    rw [Tree.ensure, hfolders, ← hq]
  have hs : t.store path content =
      .ok ⟨Nodes.changeAt (fun q ns => upsert q (Node.newFile name (some content)) ns) Path.root
        (Nodes.ensure Path.root t.children folders).1 folders⟩ := by
    rw [store_eq, hsplit, he]
    simp only [Tree.changeAt, hfolders]
  refine ⟨_, hs, hext.mono ?_, ?_⟩
  · rintro fs x ⟨rfl, rfl⟩
    exact ⟨_, List.mem_singleton_self _, hsegments⟩
  · refine List.forall_mem_singleton.2 ⟨⟨name, r, some content⟩, ?_, ?_⟩
    · rw [file?_eq hsplit hfolders]
      exact Option.bind_eq_some_iff.2 ⟨_, hat, rfl⟩
    · rw [List.reverse_singleton, List.lookup_cons, beq_self_eq_true]

theorem Stored.file? {entries : List (Text × Text)} {t u : Tree} (h : Stored entries t u)
    {path : Text} {f : File} (hp : Path.IsFile path)
    (hno : ∀ e ∈ entries, Path.segments e.1 ≠ Path.segments path) (hf : t.file? path = some f) :
    u.file? path = some f := by
  obtain ⟨folders, name, -, -, hsegments, hsplit, hfolders⟩ := Path.isFile_cases hp
  rw [file?_eq hsplit hfolders] at hf ⊢
  obtain ⟨n, hn, hnf⟩ := Option.bind_eq_some_iff.1 hf
  obtain rfl := file?_eq_some hnf
  refine Option.bind_eq_some_iff.2 ⟨_, h.grows.files folders name f hn ?_, rfl⟩
  rintro ⟨e, he, hs⟩
  exact hno e he (hs.trans hsegments.symm)

theorem Stored.obstacle? {entries : List (Text × Text)} {t u : Tree} (h : Stored entries t u)
    {path : Text} (hp : Path.IsFile path)
    (hway : ∀ e ∈ entries, ¬ Path.segments e.1 <+: (Path.segments path).dropLast)
    (hend : ∀ e ∈ entries, ¬ Path.segments path <+: (Path.segments e.1).dropLast)
    (hc : t.obstacle? path = none) : u.obstacle? path = none := by
  obtain ⟨folders, name, -, -, hsegments, hsplit, -⟩ := Path.isFile_cases hp
  rw [hsegments] at hend
  rw [hsegments, List.dropLast_concat] at hway
  rw [Tree.obstacle?, hsegments, List.dropLast_concat, hsplit] at hc ⊢
  refine Nodes.obstacle?_of_extends h.grows ?_ ?_ hc
  · rintro fs s hs ⟨e, he, hsegs⟩
    exact hway e he (hsegs ▸ hs)
  · rintro fs s ⟨e, he, hsegs⟩ hs
    refine hend e he ?_
    rwa [hsegs, List.dropLast_concat]

theorem Stored.append {es fs : List (Text × Text)} {t u v : Tree} (h : Stored es t u)
    (k : Stored fs u v) (hes : ∀ e ∈ es, Path.IsFile e.1) (hfs : ∀ e ∈ fs, Path.IsFile e.1) :
    Stored (es ++ fs) t v := by
  constructor
  · refine (h.grows.mono ?_).trans (k.grows.mono ?_)
    · rintro folders name ⟨e, he, hsegs⟩
      exact ⟨e, List.mem_append_left _ he, hsegs⟩
    · rintro folders name ⟨e, he, hsegs⟩
      exact ⟨e, List.mem_append_right _ he, hsegs⟩
  · intro e he
    rw [List.reverse_append, List.lookup_append]
    cases hl : fs.reverse.lookup e.1 with
    | some text =>
      obtain ⟨f, hf, hcontent⟩ := k.texts _ (mem_of_lookup_reverse hl)
      exact ⟨f, hf, hcontent.trans hl⟩
    | none =>
      -- Nothing is stored there later on.
      have hne := ne_of_lookup_reverse hl
      have hmem : e ∈ es := (List.mem_append.1 he).resolve_right fun h => hne e h rfl
      obtain ⟨f, hf, hcontent⟩ := h.texts e hmem
      refine ⟨f, k.file? (hes e hmem) ?_ hf, hcontent⟩
      intro g hg hsegs
      exact hne g hg (Path.IsFile.eq_of_segments (hfs g hg) (hes e hmem) hsegs).symm

/-- Nothing that is stored gets in the way of what is stored after it. -/
theorem storeEach_spec {t : Tree} {entries : List (Text × Text)}
    (ha : Apart (entries.map Prod.fst)) (hc : ∀ e ∈ entries, t.obstacle? e.1 = none) :
    ∃ u, t.storeEach entries = .ok u ∧ Stored entries t u := by
  induction entries generalizing t with
  | nil => exact ⟨t, rfl, Extends.refl _ _, fun e he => absurd he (by simp)⟩
  | cons e entries ih =>
    obtain ⟨hfile, hfiles⟩ := List.forall_mem_cons.1 ha.files
    obtain ⟨hobstacle, hobstacles⟩ := List.forall_mem_cons.1 hc
    have hself : e.1 ∈ (e :: entries).map Prod.fst := List.mem_cons_self
    have hlater {p : Text} (hp : p ∈ entries.map Prod.fst) : p ∈ (e :: entries).map Prod.fst :=
      List.mem_cons_of_mem _ hp
    obtain ⟨v, hv, hone⟩ := store_spec e.2 hfile hobstacle
    have hclear : ∀ f ∈ entries, v.obstacle? f.1 = none := by
      intro f hf
      have hmem : f.1 ∈ entries.map Prod.fst := List.mem_map_of_mem hf
      refine hone.obstacle? (hfiles _ hmem) ?_ ?_ (hobstacles f hf)
      · exact List.forall_mem_singleton.2 (ha.ways _ hself _ (hlater hmem))
      · exact List.forall_mem_singleton.2 (ha.ways _ (hlater hmem) _ hself)
    obtain ⟨u, hu, hrest⟩ :=
      ih ⟨hfiles, fun p hp q hq => ha.ways p (hlater hp) q (hlater hq)⟩ hclear
    refine ⟨u, ?_, hone.append hrest (List.forall_mem_singleton.2 hfile) ?_⟩
    · rw [storeEach, hv]
      exact hu
    · exact fun f hf => hfiles _ (List.mem_map_of_mem hf)

theorem storeAll_cases {t : Tree} {entries : List (Text × Text)}
    (ha : Apart (entries.map Prod.fst)) :
    (∃ e ∈ entries, ∃ fault, t.obstacle? e.1 = some fault ∧ t.storeAll entries = .error fault) ∨
      ((∀ e ∈ entries, t.obstacle? e.1 = none) ∧
        ∃ u, t.storeAll entries = .ok u ∧ Stored entries t u) := by
  unfold storeAll
  split
  · next fault hf =>
    obtain ⟨e, he, hfault⟩ := List.exists_of_findSome?_eq_some hf
    exact Or.inl ⟨e, he, fault, hfault, rfl⟩
  · next hf =>
    have hc := List.findSome?_eq_none_iff.1 hf
    exact Or.inr ⟨hc, storeEach_spec ha hc⟩

end Tree

end ThreatDesk
