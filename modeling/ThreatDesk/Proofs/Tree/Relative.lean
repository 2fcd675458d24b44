import ThreatDesk.Proofs.Encoding.Surrogates
import ThreatDesk.Proofs.Tree.Resolve

/-!
# Relative targets as ways

A relative target takes one step for each of its segments: nowhere, up or down. Whatever it is resolved
from, the steps start at the segments of that directory alone (`resolve_eq_foldl`), so that one target
after another is both in one (`resolve_resolve`), and a step up from the root stays there
(`foldl_step_up`). Main statement: `relative_target_acts`.

A path from the root can be written with more separators than it needs. Every way to write it leads to the
same directory, and a target means the same path there, letter by letter (`Respells.resolve_eq`).
-/

namespace ThreatDesk

namespace Path

/-- One segment of a relative target, on the segments passed so far, from the root on. -/
def step (way : List Text) (segment : Text) : List Text :=
  if segment = "." then way else if segment = ".." then way.dropLast else way ++ [segment]

theorem reverse_enter (stack : List Text) (segment : Text) :
    (enter stack segment).reverse = step stack.reverse segment := by
  unfold enter step
  split
  · rfl
  · split
    · exact List.dropLast_reverse.symm
    · exact List.reverse_cons

theorem reverse_foldl_enter (stack pieces : List Text) :
    (pieces.foldl enter stack).reverse = pieces.foldl step stack.reverse := by
  induction pieces generalizing stack with
  | nil => rfl
  | cons s pieces ih => rw [List.foldl_cons, List.foldl_cons, ih, reverse_enter]

theorem passed_eq_foldl (cwd target : Text) :
    passed cwd target = (segments target).foldl step (segments cwd) := by
  rw [passed, reverse_foldl_enter, List.reverse_reverse]

/-! ## One step after another -/

variable {cwd a : Text}

theorem resolve_eq_foldl (hne : a ≠ []) (ha : a.head? ≠ some separator) (cwd : Text) :
    resolve cwd a = ofSegments ((segments a).foldl step (segments cwd)) := by
  rw [resolve_of_relative cwd hne ha, passed_eq_foldl]

theorem segments_resolve (hne : a ≠ []) (ha : a.head? ≠ some separator) (cwd : Text) :
    segments (resolve cwd a) = (segments a).foldl step (segments cwd) := by
  rw [resolve_of_relative cwd hne ha, segments_ofPieces (isPiece_passed cwd a), passed_eq_foldl]

theorem resolve_resolve (hne : a ≠ []) (ha : a.head? ≠ some separator) (cwd : Text) {b : Text}
    (hb : b.head? ≠ some separator) :
    resolve (resolve cwd a) b = resolve cwd (a ++ separator :: b) := by
  have hwhole : a ++ separator :: b ≠ [] := List.append_ne_nil_of_left_ne_nil hne _
  have hhead : (a ++ separator :: b).head? ≠ some separator := by
    rwa [head?_typed hne]
  have hfold : (segments (a ++ separator :: b)).foldl step (segments cwd) =
      (segments b).foldl step (segments (resolve cwd a)) := by
    rw [segments_append, List.foldl_append, segments_resolve hne ha]
  rw [resolve_eq_foldl hwhole hhead, hfold]
  by_cases hnil : b = []
  · rw [hnil, segments_resolve hne ha]
    exact resolve_eq_foldl hne ha cwd
  · exact resolve_eq_foldl hnil hb _

theorem foldl_step_up (n : Nat) (way : List Text) :
    (List.replicate n (".." : Text)).foldl step way = way.take (way.length - n) := by
  induction n generalizing way with
  | zero => rw [List.replicate_zero, List.foldl_nil, Nat.sub_zero, List.take_length]
  | succ n ih =>
    have hup : step way ".." = way.dropLast := rfl
    rw [List.replicate_succ, List.foldl_cons, hup, ih, List.dropLast_eq_take, List.take_take,
      List.length_take]
    congr 1
    omega

/-! ## Names all the way -/

theorem isName_step {way : List Text} (hway : ∀ s ∈ way, isName s = true) {segment : Text}
    (hs : IsPiece segment) : ∀ s ∈ step way segment, isName s = true := by
  unfold step
  split
  · exact hway
  · next hdot =>
    split
    · exact fun s h => hway s (List.dropLast_subset way h)
    · next hup =>
      refine List.forall_mem_append.2 ⟨hway, List.forall_mem_singleton.2 ?_⟩
      exact isName_iff.2 ⟨hs.1, hs.2, hdot, hup⟩

theorem isName_foldl_step {way pieces : List Text} (hway : ∀ s ∈ way, isName s = true)
    (hpieces : ∀ s ∈ pieces, IsPiece s) : ∀ s ∈ pieces.foldl step way, isName s = true := by
  induction pieces generalizing way with
  | nil => exact hway
  | cons s pieces ih =>
    obtain ⟨hs, hrest⟩ := List.forall_mem_cons.1 hpieces
    exact ih (isName_step hway hs) hrest

/-- The one form of a path from the root: nothing between separators that is no name, and no separator
at the end but that of the root. -/
structure IsCanonical (path : Text) : Prop where
  names : ∃ pieces, path = separator :: Text.intercalate "/" pieces ∧
    ∀ s ∈ pieces, s ≠ [] ∧ separator ∉ s ∧ s ≠ "." ∧ s ≠ ".."
  trailing : path ≠ root → path.getLast? ≠ some separator

theorem isCanonical_ofSegments {names : List Text} (h : ∀ s ∈ names, isName s = true) :
    IsCanonical (ofSegments names) where
  names := ⟨names, rfl, fun s hs => isName_iff.1 (h s hs)⟩
  trailing := by
    intro hroot
    obtain rfl | ⟨front, name, rfl⟩ := List.eq_nil_or_concat names
    · exact absurd rfl hroot
    · rw [List.concat_eq_append] at h ⊢
      obtain ⟨before, hpath, -⟩ := ofSegments_append_singleton
        (fun s hs => isPiece_of_isName (h s (List.mem_append_left _ hs))) name
      rw [hpath, List.append_cons]
      exact getLast?_typed _ (h name (by simp))

/-! ## The action -/

/-- What becomes of a directory's path when a relative target is followed from there. -/
structure Follows (cwd a : Text) : Prop where
  canonical : IsCanonical (resolve cwd a)
  /-- Where it leads, another target leads on. -/
  further : ∀ b, b.head? ≠ some separator →
    resolve (resolve cwd a) b = resolve cwd (a ++ separator :: b)
  /-- How the directory is written does not matter. -/
  respelt : ∀ other, segments other = segments cwd → resolve other a = resolve cwd a
  steps : resolve cwd a = ofSegments ((segments a).foldl step (segments cwd))
  /-- Steps up at its end take away as many segments as there are steps, or all that are left. -/
  up : ∀ (front : List Text) (n : Nat), segments a = front ++ List.replicate n (".." : Text) → ∃ gone,
    front.foldl step (segments cwd) = segments (resolve cwd a) ++ gone ∧
      gone.length = min n (front.foldl step (segments cwd)).length

/-- From a directory whose path has no relative markers, relative targets act as ways: each leads to a
canonical path, by its own steps over the segments of the directory, and one leads on where another one
has led to. -/
theorem relative_target_acts (hcwd : ∀ s ∈ segments cwd, s ≠ "." ∧ s ≠ "..") (hne : a ≠ [])
    (ha : a.head? ≠ some separator) : Follows cwd a where
  canonical := by
    have hnames : ∀ s ∈ segments cwd, isName s = true := fun s hs =>
      isName_iff.2 ⟨(isPiece_of_mem_segments hs).1, (isPiece_of_mem_segments hs).2, hcwd s hs⟩
    rw [resolve_eq_foldl hne ha]
    exact isCanonical_ofSegments (isName_foldl_step hnames fun s => isPiece_of_mem_segments)
  further b hb := resolve_resolve hne ha cwd hb
  respelt other h := by rw [resolve_eq_foldl hne ha, resolve_eq_foldl hne ha, h]
  steps := resolve_eq_foldl hne ha cwd
  up front n h := by
    have hleft : segments (resolve cwd a) =
        (List.replicate n (".." : Text)).foldl step (front.foldl step (segments cwd)) := by
      rw [segments_resolve hne ha, h, List.foldl_append]
    generalize front.foldl step (segments cwd) = way at hleft ⊢
    rw [foldl_step_up] at hleft
    refine ⟨way.drop (way.length - n), ?_, ?_⟩
    · rw [hleft, List.take_append_drop]
    · rw [List.length_drop]
      omega

theorem relative_target_acts_climbing :
    let cwd : Text := "//docs/"
    let a : Text := "..//../x/.."
    ((∀ s ∈ segments cwd, s ≠ "." ∧ s ≠ "..") ∧ a ≠ [] ∧ a.head? ≠ some separator) ∧
      Follows cwd a := by
  intro cwd a
  have hcwd : ∀ s ∈ segments cwd, s ≠ "." ∧ s ≠ ".." := by decide
  have hne : a ≠ [] := by decide
  have ha : a.head? ≠ some separator := by decide
  exact ⟨⟨hcwd, hne, ha⟩, relative_target_acts hcwd hne ha⟩

/-! ## Spellings of a path -/

/-- Two ways to write one path from the root. -/
structure Respells (p q : Text) : Prop where
  left : p.head? = some separator
  right : q.head? = some separator
  segments : segments p = segments q

theorem Respells.refl {p : Text} (h : p.head? = some separator) : Respells p p := ⟨h, h, rfl⟩

theorem Respells.resolve_eq {p q : Text} (h : Respells p q) {target : Text} (ht : target ≠ []) :
    resolve p target = resolve q target := by
  by_cases hs : target.head? = some separator
  · cases target with
    | nil => exact absurd rfl ht
    | cons c rest =>
      obtain rfl : c = separator := Option.some.inj hs
      rw [resolve, resolve, if_pos rfl, if_pos rfl]
  · rw [Path.resolve_eq p ht hs, Path.resolve_eq q ht hs, h.segments]

theorem Respells.surrogates?_eq {p q : Text} (h : Respells p q) : p.surrogates? = q.surrogates? := by
  rw [surrogates?_segments, surrogates?_segments, h.segments]

end Path

namespace Tree

variable {p q : Text}

theorem directory?_respelt (t : Tree) (h : Path.Respells p q) : t.directory? p = t.directory? q := by
  rw [directory?, directory?, h.segments]

theorem makeDirectory_respelt (t : Tree) (h : Path.Respells p q) (name : Text) :
    t.makeDirectory p name = t.makeDirectory q name := by
  rw [makeDirectory, makeDirectory, changeAt, changeAt, h.segments]

end Tree

end ThreatDesk
