import ThreatDesk.Proofs.Encoding.Utf8
import ThreatDesk.Proofs.Host.Frame

/-!
# Files that have been written

A file that has been written is found where its path leads, under the bytes that were written
(`readBytes_of_put`). Paths that lead somewhere still do, because they lead through directories
and a file takes the place of none.
-/

namespace ThreatDesk

namespace Utf8

theorem size_cons (c : CodePoint) (t : Text) :
    size (c :: t) = (encodeCodePoint c).length + size t := by
  rw [size, List.flatMap_cons, List.length_append, size]

theorem size_sublist {s t : Text} (h : s.Sublist t) : size s ≤ size t := by
  induction h with
  | slnil => exact Nat.le_refl _
  | cons c h ih => exact Nat.le_trans ih (size_cons c _ ▸ Nat.le_add_left _ _)
  | cons_cons c h ih =>
    rw [size_cons, size_cons]
    exact Nat.add_le_add_left ih _

theorem length_le_size (t : Text) : t.length ≤ size t := by
  induction t with
  | nil => exact Nat.zero_le _
  | cons c t ih =>
    have hpos : 1 ≤ (encodeCodePoint c).length := by
      unfold encodeCodePoint
      simp only
      repeat' split
      all_goals exact Nat.le_add_left 1 _
    rw [size_cons, List.length_cons]
    omega

end Utf8

namespace Host

/-! ## Names -/

theorem nameFault?_eq_none_iff {name : Text} :
    nameFault? name = none ↔
      ∀ c ∈ name, (c.isSurrogate = false ∨ isByteMark c = true) ∧ c.val ≠ 0 := by
  unfold nameFault?
  split
  · next fault hf =>
    have hmark := mt (Encoding.unmarkedRun?_eq_none_iff 0).2 (by rw [hf]; simp)
    exact iff_of_false (by simp) fun h => hmark fun c hc => (h c hc).1
  · next hf =>
    have hmark := (Encoding.unmarkedRun?_eq_none_iff 0).1 hf
    have hnull : (if name.any fun c => c.val = 0 then some Fault.nullByte else none) = none ↔
        ∀ c ∈ name, c.val ≠ 0 := by simp
    rw [hnull]
    exact ⟨fun h c hc => ⟨hmark c hc, h c hc⟩, fun h c hc => (h c hc).2⟩

theorem nameFault?_of_subset {s t : Text} (h : nameFault? t = none) (hs : s ⊆ t) :
    nameFault? s = none :=
  nameFault?_eq_none_iff.2 fun c hc => nameFault?_eq_none_iff.1 h c (hs hc)

theorem nameSize_sublist {s t : Text} (h : s.Sublist t) : nameSize s ≤ nameSize t :=
  Nat.add_le_add (Utf8.size_sublist (h.filter _)) h.countP_le

theorem length_le_nameSize (name : Text) : name.length ≤ nameSize name := by
  have hsize := Utf8.length_le_size (name.filter fun c => !isByteMark c)
  have hcount := List.length_eq_countP_add_countP isByteMark (l := name)
  have hplain : name.countP (fun c => decide ¬isByteMark c = true) =
      (name.filter fun c => !isByteMark c).length := by
    rw [List.countP_eq_length_filter]
    congr 2
    funext c
    cases isByteMark c <;> rfl
  unfold nameSize
  omega

/-! ## Ways -/

theorem locate_put {h : Host} {spot : List Text} (hnd : h.isDirectoryAt spot = false)
    (entry : HostEntry) {p : HostPath} {place : List Text} (hl : h.locate p = .ok place) :
    (h.put spot entry).locate p = .ok place :=
  (keeps_put hnd entry).locate hl

/-! ## What is in a directory -/

theorem sublist_intercalate_append (between : Text) (parts : List Text) (name : Text) :
    (Text.intercalate between parts).Sublist (Text.intercalate between (parts ++ [name])) := by
  induction parts with
  | nil => exact List.nil_sublist _
  | cons part parts ih =>
    cases parts with
    | nil =>
      simp only [List.singleton_append, Text.intercalate, List.intercalate_singleton,
        List.intercalate_cons_cons, List.append_assoc]
      exact List.sublist_append_left _ _
    | cons second parts =>
      simp only [List.cons_append, Text.intercalate, List.intercalate_cons_cons] at ih ⊢
      exact (List.Sublist.refl _).append ih

theorem toText_append_singleton (anchor : Text) (parts : List Text) (name : Text) :
    HostPath.toText ⟨anchor, parts ++ [name]⟩ =
      anchor ++ Text.intercalate "/" (parts ++ [name]) := by
  simp [HostPath.toText]

theorem toText_directory (anchor : Text) (parts : List Text) (name : Text) :
    HostPath.toText ⟨anchor, parts⟩ = "." ∨
      (HostPath.toText ⟨anchor, parts⟩).Sublist (HostPath.toText ⟨anchor, parts ++ [name]⟩) := by
  rw [toText_append_singleton]
  unfold HostPath.toText
  split
  · exact .inl rfl
  · exact .inr ((List.Sublist.refl anchor).append (sublist_intercalate_append "/" parts name))

theorem locate_parent {h : Host} {anchor : Text} {parts place : List Text} {name : Text}
    (hl : h.locate ⟨anchor, parts ++ [name]⟩ = .ok place) :
    ∃ directory, h.locate ⟨anchor, parts⟩ = .ok directory ∧ h.isDirectoryAt directory = true ∧
      h.follow directory.reverse [name] = .ok place.reverse := by
  obtain ⟨hname, hsize, hfollow⟩ := locate_eq_ok_iff.1 hl
  obtain ⟨via, hvia, hlast⟩ := follow_append.1 hfollow
  have hdirectory : nameFault? (HostPath.toText ⟨anchor, parts⟩) = none ∧
      nameSize (HostPath.toText ⟨anchor, parts⟩) < pathLimit := by
    rcases toText_directory anchor parts name with h | h
    · rw [h]
      exact ⟨by decide, by decide⟩
    · exact ⟨nameFault?_of_subset hname h.subset, Nat.lt_of_le_of_lt (nameSize_sublist h) hsize⟩
  refine ⟨via.reverse, locate_eq_ok_iff.2 ⟨hdirectory.1, hdirectory.2, ?_⟩, (follow_cons.1 hlast).1, ?_⟩
  · rw [List.reverse_reverse]
    exact hvia
  · rw [List.reverse_reverse]
    exact hlast

theorem locate_append_singleton {h : Host} {anchor : Text} {parts place : List Text} {name : Text}
    (hup : name ≠ "..") (hl : h.locate ⟨anchor, parts ++ [name]⟩ = .ok place) :
    ∃ directory, h.locate ⟨anchor, parts⟩ = .ok directory ∧ h.isDirectoryAt directory = true ∧
      nameSize name ≤ nameLimit ∧ place = directory ++ [name] := by
  obtain ⟨directory, hdirectory, hd, hlast⟩ := locate_parent hl
  obtain ⟨-, ⟨h, -⟩ | ⟨-, hlong, hplace⟩⟩ := follow_cons.1 hlast
  · exact absurd h hup
  · refine ⟨directory, hdirectory, hd, hlong, ?_⟩
    have hplace : name :: directory.reverse = place.reverse := Except.ok.inj hplace
    rw [← List.reverse_reverse place, ← hplace, List.reverse_cons, List.reverse_reverse]

/-! ## Writing and reading -/

theorem readBytes_of_put {h : Host} {p : HostPath} {place : List Text} (hl : h.locate p = .ok place)
    (hd : h.isDirectoryAt place = false) (bytes : Bytes) (modified : Number) (mode : Nat) :
    (h.put place (.file bytes modified mode)).exists? p = .ok true ∧
      (h.put place (.file bytes modified mode)).readBytes p = .ok bytes := by
  have hl := locate_put hd (.file bytes modified mode) hl
  have hf := find?_put_file hd (.file bytes modified mode)
  constructor
  · rw [exists?, lookup]
    simp only [hl, hf]
    rfl
  · rw [readBytes]
    simp only [hl, hf]

/-! ## Directories that are there -/

theorem isDirectory?_iff {h : Host} {p : HostPath} :
    h.isDirectory? p = .ok true ↔ ∃ place, h.locate p = .ok place ∧ h.isDirectoryAt place = true := by
  constructor
  · intro hd
    obtain ⟨entry, hlookup, hentry⟩ := exists_of_map_ok hd
    unfold lookup at hlookup
    split at hlookup
    · next place hl =>
      obtain rfl := Except.ok.inj hlookup
      refine ⟨place, hl, isDirectoryAt_iff.2 ?_⟩
      split at hentry
      · next modified hf => exact ⟨modified, hf⟩
      · exact nomatch hentry
    · exact nomatch hlookup
    · obtain rfl := Except.ok.inj hlookup
      exact nomatch hentry
  · rintro ⟨place, hl, hd⟩
    obtain ⟨modified, hf⟩ := isDirectoryAt_iff.1 hd
    rw [isDirectory?, lookup]
    simp only [hl, hf]
    rfl

theorem makeDirectory_of_isDirectory {h : Host} {p : HostPath} (hd : h.isDirectory? p = .ok true) :
    h.makeDirectory p = .error (.system .exists p) := by
  obtain ⟨place, hl, hplace⟩ := isDirectory?_iff.1 hd
  obtain ⟨modified, hf⟩ := isDirectoryAt_iff.1 hplace
  rw [makeDirectory]
  simp only [hl, hf]

theorem makeDirectories_of_isDirectory {h : Host} {p : HostPath} (hd : h.isDirectory? p = .ok true) :
    h.makeDirectories p = (h, none) := by
  have hmake := makeDirectory_of_isDirectory hd
  have hthere : h.orDirectory p (.system .exists p) = none := by
    rw [orDirectory, hd]
    rfl
  obtain ⟨anchor, parts⟩ := p
  unfold makeDirectories
  cases hparts : parts.reverse with
  | nil =>
    obtain rfl := List.reverse_eq_nil_iff.1 hparts
    rw [makeDirectoriesAt, hmake]
    simp only [hthere]
  | cons part rest =>
    rw [← List.reverse_reverse parts, hparts] at hmake hthere
    rw [makeDirectoriesAt]
    simp only [hmake, hthere]

theorem not_isDirectory_of_orDirectory {h : Host} {p : HostPath} {fault objection : Fault}
    (hm : h.makeDirectory p = .error fault) (ho : h.orDirectory p fault = some objection) :
    h.isDirectory? p ≠ .ok true := by
  intro hd
  obtain rfl := Except.error.inj (hm.symm.trans (makeDirectory_of_isDirectory hd))
  rw [orDirectory, hd] at ho
  exact nomatch ho

theorem not_isDirectory_of_makeDirectoriesAt {h made : Host} {anchor : Text} {parts : List Text}
    {fault : Fault} (hm : h.makeDirectoriesAt anchor parts = (made, some fault)) :
    made.isDirectory? ⟨anchor, parts.reverse⟩ ≠ .ok true := by
  induction parts generalizing made fault with
  | nil =>
    rw [makeDirectoriesAt] at hm
    split at hm
    · cases hm
    · next hfault =>
      obtain ⟨rfl, ho⟩ := Prod.mk.inj hm
      exact not_isDirectory_of_orDirectory hfault ho
  | cons part rest ih =>
    rw [makeDirectoriesAt] at hm
    split at hm
    · cases hm
    · split at hm
      · next hrest =>
        obtain ⟨rfl, -⟩ := Prod.mk.inj hm
        intro hd
        obtain ⟨place, hl, -⟩ := isDirectory?_iff.1 hd
        rw [List.reverse_cons] at hl
        obtain ⟨directory, hdirectory, hparent, -⟩ := locate_parent hl
        exact ih hrest (isDirectory?_iff.2 ⟨directory, hdirectory, hparent⟩)
      · split at hm
        · cases hm
        · next hagain =>
          obtain ⟨rfl, -⟩ := Prod.mk.inj hm
          intro hd
          cases hagain.symm.trans (makeDirectory_of_isDirectory hd)
        · next hagain =>
          obtain ⟨rfl, ho⟩ := Prod.mk.inj hm
          exact not_isDirectory_of_orDirectory hagain ho
    · next hfault =>
      obtain ⟨rfl, ho⟩ := Prod.mk.inj hm
      exact not_isDirectory_of_orDirectory hfault ho

end Host

end ThreatDesk
