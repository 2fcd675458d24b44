import ThreatDesk.Proofs.Tree.Placed
import ThreatDesk.Tree.Baseline

/-!
# Well-formed trees stay well-formed

Every change of the tree puts nodes with valid names among siblings of other names, and gives them the
paths of their places: writing, making directories, storing results, merging the modules.
-/

namespace ThreatDesk

open Node (WellPlaced WellPlacedAll)

namespace Nodes

/-! ## Changes of one directory -/

theorem wellPlaced_directory {parent s name path : Text} {children nodes : List Node}
    (h : WellPlacedAll parent nodes)
    (hg : get? s nodes = some (.directory name path children)) :
    name = s ∧ Path.isName name = true ∧ path = Path.join parent name ∧
      WellPlacedAll path children := by
  obtain ⟨hn, hp, hc⟩ := wellPlaced_of_get? h hg
  exact ⟨(get?_eq_some hg).2, hn, hp, hc⟩

theorem wellPlacedAll_descend {parent s name path : Text} {children children' nodes : List Node}
    (h : WellPlacedAll parent nodes)
    (hg : get? s nodes = some (.directory name path children))
    (hc : WellPlacedAll path children') :
    WellPlacedAll parent (modify s (fun _ => .directory name path children') nodes) := by
  obtain ⟨hname, hn, hp, -⟩ := wellPlaced_directory h hg
  exact wellPlacedAll_modify h ⟨hn, hp, hc⟩ hname

theorem wellPlacedAll_newDirectory {parent s : Text} {children nodes : List Node}
    (h : WellPlacedAll parent nodes) (hg : get? s nodes = none) (hs : Path.isName s = true)
    (hc : WellPlacedAll (Path.join parent s) children) :
    WellPlacedAll parent (nodes ++ [.directory s (Path.join parent s) children]) :=
  Node.wellPlacedAll_append_singleton h ⟨hs, rfl, hc⟩ (get?_eq_none_iff.1 hg)

theorem wellPlacedAll_changeAt {change : Change}
    (hchange : ∀ p ns, WellPlacedAll p ns → WellPlacedAll p (change p ns)) {parent : Text}
    {nodes : List Node} (h : WellPlacedAll parent nodes) (segments : List Text) :
    WellPlacedAll parent (changeAt change parent nodes segments) := by
  induction segments generalizing parent nodes with
  | nil => exact hchange parent nodes h
  | cons s rest ih =>
    rw [changeAt]
    split
    · next name path children hg =>
      exact wellPlacedAll_descend h hg (ih (wellPlaced_directory h hg).2.2.2)
    · exact h

theorem wellPlacedAll_ensure {parent : Text} {nodes : List Node} (h : WellPlacedAll parent nodes)
    (segments : List Text) : WellPlacedAll parent (ensure parent nodes segments).1 := by
  induction segments generalizing parent nodes with
  | nil => exact h
  | cons s rest ih =>
    rw [ensure]
    split
    · next hg =>
      split
      · next hs => exact wellPlacedAll_newDirectory h hg hs (ih trivial)
      · exact h
    · exact h
    · next name path children hg =>
      exact wellPlacedAll_descend h hg (ih (wellPlaced_directory h hg).2.2.2)

end Nodes

namespace Tree

theorem wellFormed_changeAt {t : Tree} (h : t.WellFormed) {change : Change}
    (hchange : ∀ p ns, WellPlacedAll p ns → WellPlacedAll p (change p ns)) (path : Text) :
    (t.changeAt path change).WellFormed :=
  Nodes.wellPlacedAll_changeAt hchange h _

theorem wellPlacedAll_upsert_newFile {name : Text} (hn : Path.isName name = true)
    (content : Option Text) (p : Text) (ns : List Node) (h : WellPlacedAll p ns) :
    WellPlacedAll p (Nodes.upsert p (Node.newFile name content) ns) :=
  Nodes.wellPlacedAll_upsert h hn

theorem isName_of_written {t : Tree} {path : Text} (h : t.writeOutcome path = .written) :
    Path.isName (Path.split path).2 = true := by
  cases hn : Path.isName (Path.split path).2 with
  | true => rfl
  | false =>
    unfold writeOutcome at h
    simp only [hn, Bool.not_false, if_true] at h
    exact WriteOutcome.noConfusion h

theorem write_eq (t : Tree) (path content : Text) :
    t.write path content =
      match t.writeOutcome path with
      | .written =>
        (t.changeAt (Path.split path).1 fun p ns =>
          Nodes.upsert p (Node.newFile (Path.split path).2 (some content)) ns, .written)
      | outcome => (t, outcome) := rfl

theorem wellFormed_write {t : Tree} (h : t.WellFormed) (path content : Text) :
    (t.write path content).1.WellFormed := by
  rw [write_eq]
  split
  · next hw =>
    exact wellFormed_changeAt h (wellPlacedAll_upsert_newFile (isName_of_written hw) _) _
  · exact h

theorem wellFormed_makeDirectory {t : Tree} (h : t.WellFormed) (path : Text) {name : Text}
    (hn : Path.isName name = true) : (t.makeDirectory path name).WellFormed := by
  refine wellFormed_changeAt h ?_ path
  intro p ns hns
  cases ha : Nodes.add? p (Node.newDirectory name []) ns with
  | none => exact hns
  | some ms =>
    have hd : (Node.newDirectory name []).Fit := ⟨hn, trivial⟩
    exact Nodes.wellPlacedAll_add? hns hd ha

theorem wellFormed_ensure {t : Tree} (h : t.WellFormed) (path : Text) :
    (t.ensure path).1.WellFormed :=
  Nodes.wellPlacedAll_ensure h _

theorem store_eq (t : Tree) (path content : Text) :
    t.store path content =
      match t.ensure (Path.split path).1 with
      | (t, .found _) =>
        .ok (t.changeAt (Path.split path).1 fun p ns =>
          Nodes.upsert p (Node.newFile (Path.split path).2 (some content)) ns)
      | _ => .error (.unreachable path) := rfl

theorem wellFormed_store {t u : Tree} (h : t.WellFormed) {path content : Text}
    (hn : Path.isName (Path.split path).2 = true) (hs : t.store path content = .ok u) :
    u.WellFormed := by
  rw [store_eq] at hs
  have he := wellFormed_ensure h (Path.split path).1
  split at hs
  · next v p hv =>
    rw [hv] at he
    obtain rfl := Except.ok.inj hs
    exact wellFormed_changeAt he (wellPlacedAll_upsert_newFile hn _) _
  · exact absurd hs (by simp)

theorem wellFormed_storeEach {t u : Tree} (h : t.WellFormed) {entries : List (Text × Text)}
    (hn : ∀ e ∈ entries, Path.isName (Path.split e.1).2 = true)
    (hs : t.storeEach entries = .ok u) : u.WellFormed := by
  induction entries generalizing t with
  | nil =>
    obtain rfl := Except.ok.inj hs
    exact h
  | cons e entries ih =>
    obtain ⟨path, content⟩ := e
    obtain ⟨he, hrest⟩ := List.forall_mem_cons.1 hn
    rw [storeEach] at hs
    split at hs
    · next v hv => exact ih (wellFormed_store h he hv) hrest hs
    · exact absurd hs (by simp)

theorem wellFormed_storeAll {t u : Tree} (h : t.WellFormed) {entries : List (Text × Text)}
    (hn : ∀ e ∈ entries, Path.isName (Path.split e.1).2 = true)
    (hs : t.storeAll entries = .ok u) : u.WellFormed := by
  unfold storeAll at hs
  split at hs
  · exact absurd hs (by simp)
  · exact wellFormed_storeEach h hn hs

end Tree

/-! ## The modules -/

namespace Baseline

/-- A module whose directories and file have valid names, as a file system has. -/
def Module.Named (m : Module) : Prop :=
  (∀ s ∈ m.folders, Path.isName s = true) ∧ Path.isName m.name = true

theorem wellPlacedAll_place {name : Text} (hn : Path.isName name = true) (content : Text)
    {folders : List Text} (hf : ∀ s ∈ folders, Path.isName s = true) {parent : Text}
    {nodes : List Node} (h : WellPlacedAll parent nodes) :
    WellPlacedAll parent (place name content parent nodes folders).1 := by
  induction folders generalizing parent nodes with
  | nil =>
    rw [place]
    split
    · exact h
    · next hg =>
      rw [Bool.not_eq_true, Nodes.has_eq_false_iff] at hg
      exact Node.wellPlacedAll_append_singleton h ⟨hn, rfl⟩ hg
  | cons s rest ih =>
    obtain ⟨hs, hrest⟩ := List.forall_mem_cons.1 hf
    rw [place]
    split
    · next hg => exact Nodes.wellPlacedAll_newDirectory h hg hs (ih hrest trivial)
    · exact h
    · next m path children hg =>
      exact Nodes.wellPlacedAll_descend h hg (ih hrest (Nodes.wellPlaced_directory h hg).2.2.2)

theorem wellPlacedAll_placeAll {modules : List Module} (hm : ∀ m ∈ modules, m.Named)
    {parent : Text} {nodes : List Node} (h : WellPlacedAll parent nodes) :
    WellPlacedAll parent (placeAll parent nodes modules).1 := by
  induction modules generalizing nodes with
  | nil => exact h
  | cons m ms ih =>
    obtain ⟨⟨hf, hn⟩, hms⟩ := List.forall_mem_cons.1 hm
    exact ih hms (wellPlacedAll_place hn m.content hf h)

theorem wellPlaced_fresh {modules : List Module} (hm : ∀ m ∈ modules, m.Named) :
    WellPlaced Path.root (fresh modules) :=
  ⟨by decide, rfl, wellPlacedAll_placeAll hm trivial⟩

theorem wellFormed_append_fresh {t : Tree} (h : t.WellFormed) (hs : hasSource t = false)
    {modules : List Module} (hm : ∀ m ∈ modules, m.Named) :
    Tree.WellFormed ⟨t.children ++ [fresh modules]⟩ :=
  Node.wellPlacedAll_append_singleton h (wellPlaced_fresh hm) (Nodes.has_eq_false_iff.1 hs)

theorem wellFormed_withSource {t : Tree} (h : t.WellFormed) : (withSource t).WellFormed := by
  unfold withSource
  split
  · exact h
  · next hs =>
    exact wellFormed_append_fresh h (Bool.eq_false_iff.2 hs) (by simp)

theorem wellFormed_mergeInto {t : Tree} (h : t.WellFormed) {modules : List Module}
    (hm : ∀ m ∈ modules, m.Named) : (mergeInto t modules).1.WellFormed := by
  unfold mergeInto
  split
  · next name path children hg =>
    exact Nodes.wellPlacedAll_descend h hg
      (wellPlacedAll_placeAll hm (Nodes.wellPlaced_directory h hg).2.2.2)
  · exact h

theorem wellFormed_merge {ε : Type} {t : Tree} (h : t.WellFormed)
    {modules : Except ε (List Module)} (hm : ∀ ms, modules = .ok ms → ∀ m ∈ ms, m.Named) :
    (merge t modules).1.WellFormed := by
  have hw := wellFormed_withSource h
  unfold merge
  simp only
  split
  · cases modules with
    | ok ms => exact wellFormed_mergeInto hw (hm ms rfl)
    | error fault => exact hw
  · exact hw

theorem wellFormed_reconcile {ε : Type} {t u : Tree} {added : Bool} (h : t.WellFormed)
    {modules : Except ε (List Module)} (hm : ∀ ms, modules = .ok ms → ∀ m ∈ ms, m.Named)
    (hr : reconcile t modules = .ok (u, added)) : u.WellFormed := by
  unfold reconcile at hr
  split at hr
  · obtain ⟨rfl, -⟩ := Prod.mk.inj (Except.ok.inj hr)
    exact h
  · next hs =>
    cases modules with
    | error fault => exact absurd hr (by simp [Except.map])
    | ok ms =>
      obtain ⟨rfl, -⟩ := Prod.mk.inj (Except.ok.inj hr)
      exact wellFormed_append_fresh h (Bool.eq_false_iff.2 hs) (hm ms rfl)

theorem wellFormed_initialTree : initialTree.WellFormed := by
  refine WellPlacedAll.rebaseAll (p := Path.root) Path.root ⟨⟨by decide, rfl⟩, ?_, ?_⟩
  · exact List.forall_mem_singleton.2 (by decide)
  · exact ⟨⟨by decide, rfl, trivial⟩, by simp, trivial⟩

/-! ## The source -/

theorem hasSource_append_fresh (t : Tree) (modules : List Module) :
    hasSource ⟨t.children ++ [fresh modules]⟩ = true := by
  refine Nodes.has_eq_true_iff.2 ?_
  rw [List.map_append]
  exact List.mem_append_right _ (List.mem_singleton_self _)

theorem hasSource_withSource (t : Tree) : hasSource (withSource t) = true := by
  unfold withSource
  split
  · next h => exact h
  · exact hasSource_append_fresh t []

theorem hasSource_mergeInto {t : Tree} (h : hasSource t = true) (modules : List Module) :
    hasSource (mergeInto t modules).1 = true := by
  unfold mergeInto
  split
  · next n path children hg =>
    let merged := Node.directory n path (placeAll path children modules).1
    have hnames : (Nodes.modify sourceName (fun _ => merged) t.children).map Node.name =
        t.children.map Node.name :=
      Nodes.map_name_modify fun _ _ => (Nodes.get?_eq_some hg).2
    exact Nodes.has_eq_true_iff.2 (hnames ▸ Nodes.has_eq_true_iff.1 h)
  · exact h

theorem hasSource_merge {ε : Type} (t : Tree) (modules : Except ε (List Module)) :
    hasSource (merge t modules).1 = true := by
  have hw := hasSource_withSource t
  unfold merge
  simp only
  split
  · cases modules with
    | ok ms => exact hasSource_mergeInto hw ms
    | error fault => exact hw
  · exact hw

end Baseline

end ThreatDesk
