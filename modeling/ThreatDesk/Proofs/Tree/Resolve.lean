import ThreatDesk.Proofs.Tree.Extends
import ThreatDesk.Proofs.Tree.Path
import ThreatDesk.Tree.Lookup

/-!
# Names behind a directory part

A name that is typed behind a directory part stands in the directory that the part means, whether the
part is written from the root or from where the shell is (`resolve_typed`); so it names there what the
directory has under that name (`node?_typed`, `file?_typed`, `directory?_typed`).
-/

namespace ThreatDesk

namespace Path

/-! ## Directory parts -/

/-- What stands in front of a name that is typed: nothing, or something that ends in a separator. -/
def IsPart (part : Text) : Prop := part = [] ∨ ∃ before, part = before ++ [separator]

theorem isPiece_enter {stack : List Text} (hstack : ∀ s ∈ stack, IsPiece s) {segment : Text}
    (hs : IsPiece segment) : ∀ s ∈ enter stack segment, IsPiece s := by
  unfold enter
  split
  · exact hstack
  · split
    · exact fun s h => hstack s (List.mem_of_mem_tail h)
    · exact List.forall_mem_cons.2 ⟨hs, hstack⟩

theorem isPiece_foldl_enter {stack pieces : List Text} (hstack : ∀ s ∈ stack, IsPiece s)
    (hpieces : ∀ s ∈ pieces, IsPiece s) : ∀ s ∈ pieces.foldl enter stack, IsPiece s := by
  induction pieces generalizing stack with
  | nil => exact hstack
  | cons s pieces ih =>
    obtain ⟨hs, hrest⟩ := List.forall_mem_cons.1 hpieces
    exact ih (isPiece_enter hstack hs) hrest

theorem enter_name {name : Text} (h : isName name = true) (stack : List Text) :
    enter stack name = name :: stack := by
  obtain ⟨-, -, hdot, hup⟩ := isName_iff.1 h
  rw [enter, if_neg hdot, if_neg hup]

theorem segments_typed {part name : Text} (hp : IsPart part) (hn : isName name = true) :
    segments (part ++ name) = segments part ++ [name] := by
  have hname := segments_of_not_mem (isPiece_of_isName hn).1 (isPiece_of_isName hn).2
  rcases hp with rfl | ⟨before, rfl⟩
  · exact hname
  · have hnil : segments [] = [] := rfl
    rw [List.append_assoc, List.singleton_append, segments_append, segments_append, hname, hnil,
      List.append_nil]

theorem getLast?_typed (part : Text) {name : Text} (hn : isName name = true) :
    (part ++ name).getLast? ≠ some separator := by
  intro h
  obtain ⟨init, last, hlast⟩ := List.eq_nil_or_concat name |>.resolve_left (isPiece_of_isName hn).1
  rw [hlast, List.concat_eq_append, ← List.append_assoc, List.getLast?_concat] at h
  rw [Option.some.inj h] at hlast
  exact (isPiece_of_isName hn).2 (hlast ▸ by simp)

theorem head?_typed {part : Text} (h : part ≠ []) (rest : Text) :
    (part ++ rest).head? = part.head? := by
  obtain ⟨c, part, rfl⟩ := List.exists_cons_of_ne_nil h
  rfl

def passed (cwd target : Text) : List Text :=
  ((segments target).foldl enter (segments cwd).reverse).reverse

theorem isPiece_passed (cwd target : Text) : ∀ s ∈ passed cwd target, IsPiece s := by
  intro s hs
  refine isPiece_foldl_enter ?_ (fun _ => isPiece_of_mem_segments) s (List.mem_reverse.1 hs)
  exact fun s hs => isPiece_of_mem_segments (List.mem_reverse.1 hs)

theorem passed_typed (cwd : Text) {part name : Text} (hp : IsPart part) (hn : isName name = true) :
    passed cwd (part ++ name) = passed cwd part ++ [name] := by
  rw [passed, segments_typed hp hn, List.foldl_append, List.foldl_cons, List.foldl_nil,
    enter_name hn, List.reverse_cons]
  rfl

theorem ofSegments_append_singleton {pieces : List Text} (h : ∀ s ∈ pieces, IsPiece s) (name : Text) :
    ∃ before, ofSegments (pieces ++ [name]) = before ++ separator :: name ∧
      segments before = pieces := by
  by_cases hne : pieces = []
  · subst hne
    exact ⟨[], by rw [List.nil_append, ofSegments, intercalate_singleton]; rfl, rfl⟩
  · refine ⟨ofSegments pieces, ?_, segments_ofPieces h⟩
    rw [ofSegments, intercalate_append_singleton hne, ← List.append_assoc]
    rfl

/-! ## Resolving -/

def directoryPath (cwd part : Text) : Text := if part.isEmpty then cwd else resolve cwd part

theorem resolve_of_relative (cwd : Text) {target : Text} (hne : target ≠ [])
    (hs : target.head? ≠ some separator) : resolve cwd target = ofSegments (passed cwd target) :=
  resolve_eq cwd hne hs

theorem resolve_of_absolute (cwd rest : Text) :
    resolve cwd (separator :: rest) =
      if rest ≠ [] ∧ (separator :: rest).getLast? = some separator then (separator :: rest).dropLast
      else separator :: rest := by
  rw [resolve, if_pos rfl]

/-- A name is found behind the last separator of what it means, and in front of that the directory. -/
theorem resolve_typed (cwd : Text) {part name : Text} (hp : IsPart part) (hn : isName name = true) :
    ∃ before, resolve cwd (part ++ name) = before ++ separator :: name ∧
      segments before = segments (directoryPath cwd part) := by
  obtain ⟨hne, hsep⟩ := isPiece_of_isName hn
  have hrelative (h : (part ++ name).head? ≠ some separator) :
      ∃ before, resolve cwd (part ++ name) = before ++ separator :: name ∧
        segments before = passed cwd part := by
    rw [resolve_of_relative cwd (List.append_ne_nil_of_right_ne_nil _ hne) h, passed_typed cwd hp hn]
    exact ofSegments_append_singleton (isPiece_passed cwd part) name
  rcases hp with rfl | ⟨before, rfl⟩
  · have hhead : (name : Text).head? ≠ some separator := by
      intro h
      obtain ⟨rest, rfl⟩ := List.head?_eq_some_iff.1 h
      exact hsep List.mem_cons_self
    obtain ⟨before, hbefore, hsegments⟩ := hrelative hhead
    refine ⟨before, hbefore, hsegments.trans ?_⟩
    show passed cwd [] = segments cwd
    rw [passed, show segments [] = [] from rfl, List.foldl_nil, List.reverse_reverse]
  · have hpart : directoryPath cwd (before ++ [separator]) = resolve cwd (before ++ [separator]) := by
      rw [directoryPath, if_neg (by simp)]
    rw [hpart]
    by_cases hhead : (before ++ [separator]).head? = some separator
    · -- From the root: what is typed stands as it is, but for a separator behind the part alone.
      obtain ⟨rest, hrest⟩ := List.head?_eq_some_iff.1 hhead
      refine ⟨before, ?_, ?_⟩
      · have hlast := getLast?_typed (before ++ [separator]) hn
        rw [hrest, List.cons_append] at hlast
        rw [hrest, List.cons_append, resolve_of_absolute, if_neg (fun h => hlast h.2),
          ← List.cons_append, ← hrest, List.append_assoc, List.singleton_append]
      · have hlast : (separator :: rest).getLast? = some separator := by
          rw [← hrest, List.getLast?_concat]
        rw [hrest, resolve_of_absolute]
        split
        · rw [← hrest, List.dropLast_concat]
        · next h =>
          obtain rfl : rest = [] := Decidable.byContradiction fun hne => h ⟨hne, hlast⟩
          have hbefore : before = [] := by simpa using congrArg List.length hrest
          rw [hbefore]
          rfl
    · have hwhole : (before ++ [separator] ++ name).head? ≠ some separator := by
        rwa [head?_typed (by simp)]
      obtain ⟨front, hfront, hsegments⟩ := hrelative hwhole
      refine ⟨front, hfront, hsegments.trans ?_⟩
      rw [resolve_of_relative cwd (by simp) hhead, segments_ofPieces (isPiece_passed cwd _)]

theorem resolve_typed_separator (cwd part : Text) {name : Text} (hn : isName name = true) :
    resolve cwd (part ++ name ++ [separator]) = resolve cwd (part ++ name) := by
  have hwhole : part ++ name ≠ [] :=
    List.append_ne_nil_of_right_ne_nil _ (isPiece_of_isName hn).1
  obtain ⟨c, rest, hrest⟩ := List.exists_cons_of_ne_nil hwhole
  have hlast := getLast?_typed part hn
  by_cases hc : c = separator
  · subst hc
    have hfirst : rest ++ [separator] ≠ [] := by simp
    have hend : (separator :: (rest ++ [separator])).getLast? = some separator := by
      rw [← List.cons_append, List.getLast?_concat]
    rw [hrest] at hlast
    rw [hrest, List.cons_append, resolve_of_absolute, resolve_of_absolute, if_pos ⟨hfirst, hend⟩,
      if_neg (fun h => hlast h.2), ← List.cons_append, List.dropLast_concat]
  · have hhead : (part ++ name).head? ≠ some separator := by
      rw [hrest]
      simpa using hc
    have hhead' : (part ++ name ++ [separator]).head? ≠ some separator := by
      rwa [head?_typed hwhole]
    have hsegments : segments (part ++ name ++ [separator]) = segments (part ++ name) := by
      rw [segments_append]
      exact List.append_nil _
    rw [resolve_of_relative cwd (by simp) hhead', resolve_of_relative cwd hwhole hhead, passed,
      passed, hsegments]

theorem split_append (before : Text) {name : Text} (hs : separator ∉ name) :
    (split (before ++ separator :: name)).2 = name ∧
      segments (split (before ++ separator :: name)).1 = segments before := by
  rw [split, Text.splitAtLast?_append before hs]
  refine ⟨rfl, ?_⟩
  simp only
  split
  · next h =>
    rw [List.isEmpty_iff.1 h]
    rfl
  · rfl

end Path

/-! ## What is named there -/

namespace Container

theorem descend_concat {c d : Container} {folders : List Text} {name n q : Text} {cs : List Node}
    (hd : c.descend folders = some d) (hg : Nodes.get? name d.children = some (.directory n q cs)) :
    c.descend (folders ++ [name]) = some ⟨q, cs⟩ := by
  induction folders generalizing c with
  | nil =>
    obtain rfl := Option.some.inj hd
    exact descend_directory hg []
  | cons s rest ih =>
    rw [descend_cons] at hd
    rw [List.cons_append, descend_cons]
    split at hd
    · exact ih hd
    · exact nomatch hd

end Container

namespace Tree

open ThreatDesk.Path (IsPart directoryPath)

variable {t : Tree} {cwd part name : Text} {c : Container}

theorem node?_typed (hp : IsPart part) (hn : Path.isName name = true)
    (hc : t.directory? (directoryPath cwd part) = some c) :
    t.node? (Path.resolve cwd (part ++ name)) = Nodes.get? name c.children := by
  obtain ⟨before, hbefore, hsegments⟩ := Path.resolve_typed cwd hp hn
  obtain ⟨hne, hsep⟩ := Path.isPiece_of_isName hn
  obtain ⟨hlast, hfront⟩ := Path.split_append before hsep
  have hdirectory : t.directory? (Path.split (before ++ Path.separator :: name)).1 = some c := by
    rw [directory?, hfront, hsegments]
    exact hc
  have hkept : ¬ (name.isEmpty = true) := fun h => hne (List.isEmpty_iff.1 h)
  rw [hbefore, node?]
  simp only [hdirectory, hlast]
  exact if_neg hkept

theorem file?_typed (hp : IsPart part) (hn : Path.isName name = true)
    (hc : t.directory? (directoryPath cwd part) = some c) :
    t.file? (Path.resolve cwd (part ++ name)) = (Nodes.get? name c.children).bind Node.file? := by
  obtain ⟨before, hbefore, hsegments⟩ := Path.resolve_typed cwd hp hn
  obtain ⟨hlast, hfront⟩ := Path.split_append before (Path.isPiece_of_isName hn).2
  have hdirectory : t.directory? (Path.split (before ++ Path.separator :: name)).1 = some c := by
    rw [directory?, hfront, hsegments]
    exact hc
  rw [hbefore, file?]
  simp only [hdirectory, hlast]

theorem directory?_typed (hp : IsPart part) (hn : Path.isName name = true)
    (hc : t.directory? (directoryPath cwd part) = some c) {n q : Text} {cs : List Node}
    (hg : Nodes.get? name c.children = some (.directory n q cs)) :
    t.directory? (Path.resolve cwd (part ++ name)) = some ⟨q, cs⟩ := by
  obtain ⟨before, hbefore, hsegments⟩ := Path.resolve_typed cwd hp hn
  have hpiece := Path.isPiece_of_isName hn
  rw [hbefore, directory?, Path.segments_leaf before hpiece.1 hpiece.2, hsegments]
  exact Container.descend_concat hc hg

end Tree

end ThreatDesk
