import ThreatDesk.Proofs.Shell.Completing

/-!
# What is suggested, and when nothing is

The child that a path is completed to is the first whose name goes on from what is typed
(`child?_eq_some_iff`). Nothing is suggested where there is no such child, or where it is a file whose
name is typed already (`ofPath_eq_nil_iff`); what is suggested leads to that child
(`Completes.node?`), and ends in a separator behind a directory alone (`Completes.getLast?_iff`).
-/

namespace ThreatDesk

/-- The first child of a directory that goes on from what is typed. -/
def Container.FirstMatch (c : Container) (typed : Text) (n : Node) : Prop :=
  ∃ before after, c.children = before ++ n :: after ∧ typed <+: n.name ∧
    ∀ m ∈ before, ¬ typed <+: m.name

namespace Completion

variable {tree : Tree} {cwd token s : Text} {n : Node}

/-! ## The first child that goes on -/

theorem find?_eq_some_iff {c : Container} {typed : Text} :
    c.children.find? (fun n => n.name.startsWith typed) = some n ↔ c.FirstMatch typed n := by
  rw [List.find?_eq_some_iff_append, Container.FirstMatch]
  simp only [Bool.not_eq_true', ← Bool.not_eq_true, Text.startsWith_iff]
  constructor
  · rintro ⟨hn, before, after, hc, hbefore⟩
    exact ⟨before, after, hc, hn, hbefore⟩
  · rintro ⟨before, after, hc, hn, hbefore⟩
    exact ⟨hn, before, after, hc, hbefore⟩

theorem find?_eq_none_iff {c : Container} {typed : Text} :
    c.children.find? (fun n => n.name.startsWith typed) = none ↔
      ∀ n ∈ c.children, ¬ typed <+: n.name := by
  rw [List.find?_eq_none]
  simp only [Text.startsWith_iff]

theorem child?_eq_some_iff :
    child? tree cwd token = some n ↔
      ∃ c, tree.directory? (Path.directoryPath cwd (splitTyped token).1) = some c ∧
        c.FirstMatch (splitTyped token).2 n := by
  rw [child?, Option.bind_eq_some_iff]
  simp only [find?_eq_some_iff]
  rfl

theorem child?_eq_none_iff :
    child? tree cwd token = none ↔
      tree.directory? (Path.directoryPath cwd (splitTyped token).1) = none ∨
        ∃ c, tree.directory? (Path.directoryPath cwd (splitTyped token).1) = some c ∧
          ∀ n ∈ c.children, ¬ (splitTyped token).2 <+: n.name := by
  have hplace : directoryOf? tree cwd (splitTyped token).1 =
      tree.directory? (Path.directoryPath cwd (splitTyped token).1) := rfl
  rw [child?, hplace]
  cases tree.directory? (Path.directoryPath cwd (splitTyped token).1) with
  | none => exact iff_of_true rfl (.inl rfl)
  | some c =>
    rw [Option.bind_some, find?_eq_none_iff]
    constructor
    · intro h
      exact .inr ⟨c, rfl, h⟩
    · rintro (h | ⟨d, hd, h⟩)
      · cases h
      · exact Option.some.inj hd ▸ h

theorem not_mem_splitTyped (token : Text) : Path.separator ∉ (splitTyped token).2 := by
  unfold splitTyped
  split
  · next h => exact (Text.eq_of_splitAtLast? h).2
  · next h => exact Text.not_mem_of_splitAtLast? h

/-! ## Nothing suggested -/

theorem rest_eq_nil_iff {typed : Text} (h : typed <+: n.name) :
    n.name.drop typed.length ++ (if n.isDirectory then [Path.separator] else []) = [] ↔
      n.isDirectory = false ∧ n.name = typed := by
  obtain ⟨rest, hrest⟩ := h
  have hmark : (if n.isDirectory then [Path.separator] else []) = [] ↔ n.isDirectory = false := by
    cases n.isDirectory <;> simp
  rw [← hrest, List.drop_left, List.append_eq_nil_iff, hmark, List.append_right_eq_self, and_comm]

theorem ofPath_eq_nil_iff :
    ofPath tree cwd token = [] ↔ child? tree cwd token = none ∨
      ∃ n, child? tree cwd token = some n ∧ n.isDirectory = false ∧
        n.name = (splitTyped token).2 := by
  rw [ofPath_eq]
  cases hchild : child? tree cwd token with
  | none => simp
  | some n =>
    obtain ⟨c, -, before, after, -, hn, -⟩ := child?_eq_some_iff.1 hchild
    simp [rest_eq_nil_iff hn]

/-! ## What is suggested -/

theorem Completes.node? (ht : tree.WellFormed) (h : Completes tree cwd token s n) :
    tree.node? (Path.resolve cwd (token ++ s)) = some n := by
  obtain ⟨c, hc, hget, hname⟩ := h.place ht
  rw [h.resolve_eq ht, Tree.node?_typed (splitTyped_cases token).2 hname hc, hget]

theorem Completes.eq (h : Completes tree cwd token s n) :
    ∃ rest, n.name = (splitTyped token).2 ++ rest ∧
      s = rest ++ (if n.isDirectory then [Path.separator] else []) := by
  obtain ⟨c, -, before, after, -, ⟨rest, hrest⟩, -⟩ := child?_eq_some_iff.1 h.child
  refine ⟨rest, hrest.symm, ?_⟩
  have hwhole := h.whole
  rw [← hrest, ← List.append_assoc, ← (splitTyped_cases token).1, List.append_assoc] at hwhole
  exact List.append_cancel_left hwhole

theorem Completes.getLast?_iff (ht : tree.WellFormed) (h : Completes tree cwd token s n) :
    s.getLast? = some Path.separator ↔ n.isDirectory = true := by
  obtain ⟨-, -, -, hname⟩ := h.place ht
  obtain ⟨rest, hrest, hs⟩ := h.eq
  by_cases hd : n.isDirectory = true
  · rw [hs, if_pos hd, List.getLast?_concat]
    exact iff_of_true rfl hd
  · rw [hs, if_neg hd, List.append_nil]
    refine iff_of_false (fun hlast => ?_) hd
    have hmem : Path.separator ∈ n.name :=
      hrest ▸ List.mem_append_right _ (List.mem_of_getLast? hlast)
    exact (Path.isPiece_of_isName hname).2 hmem

end Completion

/-- Every token is a directory part and a begun name; what is suggested behind it completes it to
the first child of that directory that goes on from the name, and nothing is suggested where there is
nothing to complete. -/
theorem Completion.ofPath_first_match {tree : Tree} (ht : tree.WellFormed) (cwd token : Text) :
    ∃ part typed, token = part ++ typed ∧ Path.IsPart part ∧ Path.separator ∉ typed ∧
      let place := tree.directory? (Path.directoryPath cwd part)
      let s := ofPath tree cwd token
      (s = [] ↔ place = none ∨ (∃ c, place = some c ∧ ∀ n ∈ c.children, ¬ typed <+: n.name) ∨
        ∃ c f, place = some c ∧ c.FirstMatch typed (.file f) ∧ f.name = typed) ∧
      (s ≠ [] → ∃ c n, place = some c ∧ c.FirstMatch typed n ∧
        tree.node? (Path.resolve cwd (token ++ s)) = some n ∧
        (s.getLast? = some Path.separator ↔ n.isDirectory = true)) := by
  refine ⟨(splitTyped token).1, (splitTyped token).2, (splitTyped_cases token).1,
    (splitTyped_cases token).2, not_mem_splitTyped token, ?_, fun hs => ?_⟩
  · rw [ofPath_eq_nil_iff, child?_eq_none_iff, or_assoc]
    refine or_congr_right (or_congr_right ⟨?_, ?_⟩)
    · rintro ⟨n, hchild, hd, hname⟩
      obtain ⟨c, hc, hfirst⟩ := child?_eq_some_iff.1 hchild
      cases n with
      | file f => exact ⟨c, f, hc, hfirst, hname⟩
      | directory => exact absurd hd (by simp [Node.isDirectory])
    · rintro ⟨c, f, hc, hfirst, hname⟩
      exact ⟨.file f, child?_eq_some_iff.2 ⟨c, hc, hfirst⟩, rfl, hname⟩
  · obtain ⟨n, hn⟩ := completes_of_ofPath rfl hs
    obtain ⟨c, hc, hfirst⟩ := child?_eq_some_iff.1 hn.child
    exact ⟨c, n, hc, hfirst, hn.node? ht, hn.getLast?_iff ht⟩

theorem Completion.ofPath_first_match_notes :
    let tree : Tree := ⟨[.directory "docs" "/docs" [.file ⟨"plan.md", "/docs/plan.md", some "x"⟩],
      .directory "notes" "/notes" [], .directory "nodes" "/nodes" []]⟩
    tree.WellFormed ∧ ofPath tree "/docs" "..//./no" = "tes/" ∧
      (∃ (c : Container) (typed : Text) (n : Node), c.FirstMatch typed n ∧ n.isDirectory = true ∧
        tree.node? (Path.resolve "/docs" (("..//./no" : Text) ++ "tes/")) = some n) ∧
      ofPath tree "/docs" "plan.md" = [] := by
  intro tree
  have ht : tree.WellFormed := by
    refine ⟨⟨by decide, rfl, ⟨by decide, rfl⟩, by simp, trivial⟩, by decide, ?_⟩
    exact ⟨⟨by decide, rfl, trivial⟩, by decide, ⟨by decide, rfl, trivial⟩, by simp, trivial⟩
  have hs : ofPath tree "/docs" "..//./no" = "tes/" := by decide +kernel
  obtain ⟨part, typed, -, -, -, -, hsome⟩ := ofPath_first_match ht "/docs" "..//./no"
  rw [hs] at hsome
  obtain ⟨c, n, -, hfirst, hnode, hlast⟩ := hsome (by decide)
  exact ⟨ht, hs, ⟨c, typed, n, hfirst, hlast.1 (by decide), hnode⟩, by decide +kernel⟩

end ThreatDesk
