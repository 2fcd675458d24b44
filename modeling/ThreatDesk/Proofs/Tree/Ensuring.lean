import ThreatDesk.Proofs.Tree.Elsewhere
import ThreatDesk.Proofs.Tree.Search

/-!
# Making the directories of a path

The walk goes down the directories that are there, and a file can only be met among these: from the
first missing segment on everything is new. So either a file stops the walk and nothing has been made, or
what is missing is made, one empty directory in another. Main statement: `ensure_makes_what_is_missing`.
-/

namespace ThreatDesk

open Nodes (get? ensure)

variable {s n q p : Text} {cs ds nodes nodes' : List Node} {segs rest place : List Text}

def Nodes.chain (parent : Text) : List Text → List Node
  | [] => []
  | s :: rest => [.directory s (Path.join parent s) (chain (Path.join parent s) rest)]

theorem Nodes.ensure_empty (hs : ∀ s ∈ segs, Path.isName s = true) (p : Text) :
    (ensure p [] segs).1 = chain p segs := by
  induction segs generalizing p with
  | nil => rfl
  | cons s rest ih =>
    obtain ⟨hname, hrest⟩ := List.forall_mem_cons.1 hs
    simp only [ensure, get?, hname, if_true, ih hrest, List.nil_append, chain]

def Path.next? : List Text → List Text → Option Text
  | [], segs => segs.head?
  | x :: place, s :: rest => if x = s then next? place rest else none
  | _ :: _, [] => none

theorem Path.next?_eq_some_iff {x : Text} : next? place segs = some x ↔ place ++ [x] <+: segs := by
  induction place generalizing segs with
  | nil => cases segs <;> simp [next?, eq_comm]
  | cons y place ih =>
    cases segs with
    | nil => simp [next?]
    | cons s rest => simp [next?, ih, List.cons_prefix_cons]

namespace Container

variable {c d : Container} {way : List Text}

/-- A file has the place of one of the segments. -/
def Blocked (c : Container) (segs : List Text) : Prop :=
  ∃ way s f, way ++ [s] <+: segs ∧ c.at? way s = some (.file f)

/-- The name that the directory at `place` needs for the segments and does not have. -/
def lacking (c : Container) (segs place : List Text) : List Text :=
  (Path.next? place segs).toList.filter fun s => (c.at? place s).isNone

/-- What becomes of a directory when those of the segments are made in and below it. -/
structure Made (segs : List Text) (c d : Container) : Prop where
  /-- Every node is still there, and what is new in it comes last. -/
  kept : ∀ way s m, c.at? way s = some m →
    ∃ n, d.at? way s = some n ∧ Node.Kept (c.lacking segs (way ++ [s])) m n
  order : d.children.map Node.name = c.children.map Node.name ++ c.lacking segs []
  /-- Whatever is not on the way is the same with all that is below it. -/
  elsewhere : ∀ way s, ¬ way ++ [s] <+: segs → d.at? way s = c.at? way s
  /-- What is missing on the way is made, with the rest of the way in it and nothing else. -/
  fresh : ∀ way s rest, segs = way ++ s :: rest → c.at? way s = none →
    ∃ p, d.at? way s = some (.directory s p (Nodes.chain p rest))

/-! ## Files on the way -/

theorem not_blocked_nil (c : Container) : ¬ c.Blocked [] := by
  rintro ⟨way, s, f, hp, -⟩
  exact absurd (List.prefix_nil.1 hp) (by simp)

theorem not_blocked_empty (p : Text) (segs : List Text) : ¬ Blocked ⟨p, []⟩ segs := by
  rintro ⟨way, s, f, -, hf⟩
  rw [at?_empty] at hf
  cases hf

theorem blocked_cons : c.Blocked (s :: rest) ↔
    (∃ f, get? s c.children = some (.file f)) ∨
      ∃ n q cs, get? s c.children = some (.directory n q cs) ∧ Blocked ⟨q, cs⟩ rest := by
  constructor
  · rintro ⟨way, x, f, hp, hf⟩
    cases way with
    | nil =>
      obtain ⟨rfl, -⟩ := List.cons_prefix_cons.1 hp
      exact .inl ⟨f, hf⟩
    | cons y way =>
      obtain ⟨rfl, hp'⟩ := List.cons_prefix_cons.1 hp
      cases hg : get? y c.children with
      | none =>
        rw [at?_none hg] at hf
        cases hf
      | some m =>
        cases m with
        | file g => exact .inl ⟨g, rfl⟩
        | directory n q cs =>
          rw [at?_directory hg] at hf
          exact .inr ⟨n, q, cs, rfl, way, x, f, hp', hf⟩
  · rintro (⟨f, hf⟩ | ⟨n, q, cs, hg, way, x, f, hp, hf⟩)
    · exact ⟨[], s, f, by simp, hf⟩
    · refine ⟨s :: way, x, f, List.cons_prefix_cons.2 ⟨rfl, hp⟩, ?_⟩
      rw [at?_directory hg]
      exact hf

/-! ## One directory of the way -/

theorem lacking_off_way (c : Container) (h : ¬ way ++ [s] <+: segs) :
    c.lacking segs (way ++ [s]) = [] := by
  have hnone : Path.next? (way ++ [s]) segs = none := by
    rw [Option.eq_none_iff_forall_ne_some]
    intro x hx
    exact h ((List.prefix_append _ _).trans (Path.next?_eq_some_iff.1 hx))
  rw [lacking, hnone]
  rfl

theorem lacking_child (hold : get? s nodes = some (.directory n q cs) ∨ (get? s nodes = none ∧ cs = []))
    (rest place : List Text) :
    lacking ⟨p, nodes⟩ (s :: rest) (s :: place) = lacking ⟨q, cs⟩ rest place := by
  simp only [lacking, Path.next?, if_true, at?_below hold]

theorem Made.refl (c : Container) : Made [] c c where
  kept way s m hm := by
    refine ⟨m, hm, ?_⟩
    rw [lacking_off_way c (by simp)]
    exact Node.Kept.refl m
  order := (List.append_nil _).symm
  elsewhere _ _ _ := rfl
  fresh way s rest h := absurd h (by simp)

theorem Made.child (hget : ∀ x, get? x nodes' = if x = s then some (.directory n q ds) else get? x nodes)
    (hnames : nodes'.map Node.name = nodes.map Node.name ++ if get? s nodes = none then [s] else [])
    (hold : get? s nodes = some (.directory n q cs) ∨ (get? s nodes = none ∧ cs = []))
    (hnew : get? s nodes = none → ds = Nodes.chain q rest) (h : Made rest ⟨q, cs⟩ ⟨q, ds⟩) :
    Made (s :: rest) ⟨p, nodes⟩ ⟨p, nodes'⟩ := by
  have hself : get? s nodes' = some (.directory n q ds) := (hget s).trans (if_pos rfl)
  have hbelow : ∀ way x, at? ⟨p, nodes'⟩ (s :: way) x = at? ⟨q, ds⟩ way x :=
    at?_directory (c := ⟨p, nodes'⟩) hself
  have helsewhere : ∀ way x, ¬ way ++ [x] <+: s :: rest →
      at? ⟨p, nodes'⟩ way x = at? ⟨p, nodes⟩ way x := by
    intro way x hno
    rcases at?_child_cases (p := p) hget hold way x with
      ⟨rfl, rfl, -⟩ | ⟨way, rfl, hb, hb'⟩ | ⟨-, hsame⟩
    · exact absurd (by simp) hno
    · rw [hb, hb']
      exact h.elsewhere way x fun hp => hno (List.cons_prefix_cons.2 ⟨rfl, hp⟩)
    · exact hsame.symm
  constructor
  case elsewhere => exact helsewhere
  case kept =>
    intro way x m hm
    by_cases hp : way ++ [x] <+: s :: rest
    · cases way with
      | nil =>
        obtain ⟨rfl, -⟩ := List.cons_prefix_cons.1 hp
        have hm : get? x nodes = some m := hm
        rcases hold with hg | ⟨hg, -⟩
        · obtain rfl := Option.some.inj (hg.symm.trans hm)
          refine ⟨_, hself, rfl, rfl, rfl, rfl, ?_⟩
          rw [List.nil_append, lacking_child (.inl hg)]
          exact h.order
        · exact absurd (hg.symm.trans hm) (by simp)
      | cons y way =>
        obtain ⟨rfl, -⟩ := List.cons_prefix_cons.1 hp
        rw [at?_below hold] at hm
        rw [hbelow, List.cons_append, lacking_child hold]
        exact h.kept way x m hm
    · refine ⟨m, (helsewhere way x hp).trans hm, ?_⟩
      rw [lacking_off_way _ hp]
      exact Node.Kept.refl m
  case order =>
    refine hnames.trans (congrArg _ ?_)
    have hat : at? ⟨p, nodes⟩ [] s = get? s nodes := rfl
    cases hg : get? s nodes <;> simp [lacking, Path.next?, hat, hg]
  case fresh =>
    intro way x more hsegs hnone
    cases way with
    | nil =>
      obtain ⟨rfl, rfl⟩ := List.cons.inj hsegs
      have hname : n = s := (Nodes.get?_eq_some hself).2
      refine ⟨q, ?_⟩
      rw [← hnew hnone]
      exact hself.trans (by rw [hname])
    | cons y way =>
      obtain ⟨rfl, rfl⟩ := List.cons.inj hsegs
      rw [at?_below hold] at hnone
      rw [hbelow]
      exact h.fresh way x more rfl hnone

end Container

/-! ## The walk -/

namespace Nodes

open Container (Blocked Made descend blocked_cons)

theorem ensure_of_blocked (h : Blocked ⟨p, nodes⟩ segs) : ensure p nodes segs = (nodes, .blocked) := by
  induction segs generalizing p nodes with
  | nil => exact absurd h (Container.not_blocked_nil _)
  | cons s rest ih =>
    rw [ensure]
    rcases blocked_cons.1 h with ⟨f, hf⟩ | ⟨n, q, cs, hg, hb⟩
    · rw [show get? s nodes = some (.file f) from hf]
    · rw [show get? s nodes = some (.directory n q cs) from hg]
      simp only [ih hb, modify_eq_self hg]

theorem ensure_of_descend {d : Container} (h : descend ⟨p, nodes⟩ segs = some d) :
    ensure p nodes segs = (nodes, .found d.path) := by
  induction segs generalizing p nodes with
  | nil =>
    obtain rfl := Option.some.inj h
    rfl
  | cons s rest ih =>
    rw [Container.descend_cons] at h
    split at h
    · next n q cs hg =>
      rw [ensure, show get? s nodes = some (.directory n q cs) from hg]
      simp only [ih h, modify_eq_self hg]
    · cases h

theorem made_ensure (hs : ∀ s ∈ segs, Path.isName s = true) (hb : ¬ Blocked ⟨p, nodes⟩ segs) :
    Made segs ⟨p, nodes⟩ ⟨p, (ensure p nodes segs).1⟩ ∧
      ∃ d, descend ⟨p, (ensure p nodes segs).1⟩ segs = some d ∧
        (ensure p nodes segs).2 = .found d.path := by
  induction segs generalizing p nodes with
  | nil => exact ⟨Made.refl _, _, rfl, rfl⟩
  | cons s rest ih =>
    obtain ⟨hname, hrest⟩ := List.forall_mem_cons.1 hs
    rw [blocked_cons, not_or] at hb
    obtain ⟨hfile, hdirectory⟩ := hb
    obtain ⟨n, q, cs, hold, hend, hself, hother, hnames⟩ :=
      ensure_step (fun f hf => hfile ⟨f, hf⟩) hname p rest
    have hbelow : ¬ Blocked ⟨q, cs⟩ rest := by
      rcases hold with hg | ⟨-, rfl⟩
      · exact fun hb => hdirectory ⟨n, q, cs, hg, hb⟩
      · exact Container.not_blocked_empty q rest
    obtain ⟨hmade, d, hd, hfound⟩ := ih hrest hbelow
    constructor
    · refine Made.child ?_ hnames hold ?_ hmade
      · intro x
        split
        · next hx => rw [hx, hself]
        · next hx => exact hother x hx
      · intro hnone
        rcases hold with hg | ⟨-, rfl⟩
        · exact absurd (hg.symm.trans hnone) (by simp)
        · exact ensure_empty hrest q
    · refine ⟨d, ?_, hend.trans hfound⟩
      rw [Container.descend_directory (c := ⟨p, _⟩) hself]
      exact hd

end Nodes

namespace Tree

open Container (Made)

variable {t : Tree} {path : Text}

theorem ensure_eq (t : Tree) (path : Text) :
    t.ensure path =
      (⟨(Nodes.ensure Path.root t.children (Path.segments path)).1⟩,
        (Nodes.ensure Path.root t.children (Path.segments path)).2) := rfl

theorem path_of_descend {c : Container} {folders : List Text} (ht : t.WellFormed)
    (h : t.root.descend folders = some c) : c.path = Path.ofSegments folders :=
  (Container.placed_descend (List.forall_mem_nil _) (c := t.root) rfl ht h).2.1

/-- Making the directories of a path makes what is missing and nothing else. It ends without one just
where a file has the place of a segment, and then the tree is what it was. Otherwise the directory at
the path is there, what stood in the tree stands in its place, and the directories that are new are
empty but for one another and come last where they stand. A second time changes nothing. -/
theorem ensure_makes_what_is_missing (ht : t.WellFormed)
    (hp : ∀ s ∈ Path.segments path, Path.isName s = true) :
    ((t.ensure path).2 = .blocked ↔ t.root.Blocked (Path.segments path)) ∧
      (t.root.Blocked (Path.segments path) → (t.ensure path).1 = t) ∧
      (¬ t.root.Blocked (Path.segments path) →
        (t.ensure path).2 = .found (Path.ofSegments (Path.segments path)) ∧
        (∃ d, (t.ensure path).1.directory? path = some d ∧
          d.path = Path.ofSegments (Path.segments path)) ∧
        Made (Path.segments path) t.root (t.ensure path).1.root) ∧
      (t.ensure path).1.WellFormed ∧
      (∀ way s n, (t.ensure path).1.root.at? way s = some n →
        n.path = Path.ofSegments (way ++ [s])) ∧
      (t.ensure path).1.ensure path = t.ensure path := by
  have hwf := wellFormed_ensure ht path
  by_cases hb : t.root.Blocked (Path.segments path)
  · have he : t.ensure path = (t, .blocked) := by
      rw [ensure_eq, Nodes.ensure_of_blocked hb]
    rw [he]
    refine ⟨iff_of_true rfl hb, fun _ => rfl, fun hno => absurd hb hno, ht, ?_, he⟩
    intro way s n hn
    exact (path_of_at? ht hn).2.2
  · obtain ⟨hmade, d, hd, hfound⟩ := Nodes.made_ensure hp hb
    have hd : (t.ensure path).1.directory? path = some d := hd
    have hpath := path_of_descend hwf hd
    have hend : (t.ensure path).2 = .found d.path := hfound
    refine ⟨iff_of_false ?_ hb, fun h => absurd h hb, ?_, hwf, ?_, ?_⟩
    · rw [hend]
      nofun
    · intro _
      rw [hend, hpath]
      exact ⟨rfl, ⟨d, hd, hpath⟩, hmade⟩
    · intro way s n hn
      exact (path_of_at? hwf hn).2.2
    · have hagain : Nodes.ensure Path.root (t.ensure path).1.children (Path.segments path) =
          ((t.ensure path).1.children, .found d.path) := Nodes.ensure_of_descend hd
      rw [ensure_eq (t.ensure path).1, hagain, ← hend]

theorem ensure_makes_what_is_missing_docs :
    let t := Baseline.initialTree
    let path : Text := "/docs//notes/old/"
    (t.WellFormed ∧ (∀ s ∈ Path.segments path, Path.isName s = true) ∧
      Path.segments path = ["docs", "notes", "old"] ∧ ¬ t.root.Blocked (Path.segments path)) ∧
      ((t.ensure path).2 = .blocked ↔ t.root.Blocked (Path.segments path)) ∧
      (t.root.Blocked (Path.segments path) → (t.ensure path).1 = t) ∧
      (¬ t.root.Blocked (Path.segments path) →
        (t.ensure path).2 = .found (Path.ofSegments (Path.segments path)) ∧
        (∃ d, (t.ensure path).1.directory? path = some d ∧
          d.path = Path.ofSegments (Path.segments path)) ∧
        Made (Path.segments path) t.root (t.ensure path).1.root) ∧
      (t.ensure path).1.WellFormed ∧
      (∀ way s n, (t.ensure path).1.root.at? way s = some n →
        n.path = Path.ofSegments (way ++ [s])) ∧
      (t.ensure path).1.ensure path = t.ensure path := by
  intro t path
  have ht : t.WellFormed := Baseline.wellFormed_initialTree
  have hp : ∀ s ∈ Path.segments path, Path.isName s = true := by decide +kernel
  have h := ensure_makes_what_is_missing ht hp
  refine ⟨⟨ht, hp, by decide +kernel, ?_⟩, h⟩
  rw [← h.1]
  decide +kernel

end Tree

end ThreatDesk
