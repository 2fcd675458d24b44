import ThreatDesk.Proofs.Host.Archive
import ThreatDesk.Proofs.Snapshot.Version

/-!
# Where a change of the host is confined to

A change is confined to some places for files and others for directories if every other place holds what
it held, a file comes or changes only at the former, and a directory comes only where nothing was
(`Confined`). Setting the key is confined to its file and the directories that this is in
(`KeyStore.confined_set`), writing to an archive to what is called like its files right in its directory,
and the directories that this is in (`Archive.confined_write`).
-/

namespace ThreatDesk

namespace Host

variable {h k l : Host} {files dirs : Set (List Text)} {p : HostPath} {place : List Text}

/-- Nothing happens to a place but that a file comes or changes at one of `files`, or a directory comes
at one of `dirs`. -/
structure Confined (files dirs : Set (List Text)) (h k : Host) : Prop where
  workingDirectory : k.workingDirectory = h.workingDirectory
  places : ∀ q, k.find? q = h.find? q ∨
    (q ∈ files ∧ h.isDirectoryAt q = false ∧ (k.bytesAt? q).isSome = true) ∨
    (q ∈ dirs ∧ h.find? q = none ∧ k.isDirectoryAt q = true)

/-- The places of a path and of the directories that it leads through. -/
def ways (h : Host) (p : HostPath) : Set (List Text) :=
  {q | ∃ parts, parts <+: p.parts ∧ q = h.placeOf ⟨p.anchor, parts⟩}

namespace Confined

theorem refl (files dirs : Set (List Text)) (h : Host) : Confined files dirs h h :=
  ⟨rfl, fun _ => .inl rfl⟩

theorem mono {files' dirs' : Set (List Text)} (hk : Confined files dirs h k) (hf : files ⊆ files')
    (hd : dirs ⊆ dirs') : Confined files' dirs' h k where
  workingDirectory := hk.workingDirectory
  places q := (hk.places q).imp_right fun h =>
    h.imp (fun ⟨hq, h⟩ => ⟨hf hq, h⟩) fun ⟨hq, h⟩ => ⟨hd hq, h⟩

theorem isDirectoryAt_of_eq {q : List Text} (he : k.find? q = h.find? q) :
    k.isDirectoryAt q = h.isDirectoryAt q := by
  rw [isDirectoryAt, he, isDirectoryAt]

theorem bytesAt?_of_eq {q : List Text} (he : k.find? q = h.find? q) :
    k.bytesAt? q = h.bytesAt? q := by
  rw [bytesAt?, he, bytesAt?]

theorem trans (hk : Confined files dirs h k) (hl : Confined files dirs k l) :
    Confined files dirs h l where
  workingDirectory := hl.workingDirectory.trans hk.workingDirectory
  places q := by
    rcases hk.places q with hsame | ⟨hq, hold, hnew⟩ | ⟨hq, hold, hnew⟩
    · rw [← hsame, ← isDirectoryAt_of_eq hsame]
      exact hl.places q
    · rcases hl.places q with hsame | ⟨-, -, hlater⟩ | ⟨-, hnone, -⟩
      · exact .inr (.inl ⟨hq, hold, by rwa [bytesAt?_of_eq hsame]⟩)
      · exact .inr (.inl ⟨hq, hold, hlater⟩)
      · rw [bytesAt?, hnone] at hnew
        cases hnew
    · rcases hl.places q with hsame | ⟨-, hno, -⟩ | ⟨-, hnone, -⟩
      · exact .inr (.inr ⟨hq, hold, by rwa [isDirectoryAt_of_eq hsame]⟩)
      · cases hno.symm.trans hnew
      · rw [isDirectoryAt, hnone] at hnew
        cases hnew

theorem placeOf (hk : Confined files dirs h k) (p : HostPath) : k.placeOf p = h.placeOf p := by
  rw [Host.placeOf, hk.workingDirectory, Host.placeOf]

theorem ways (hk : Confined files dirs h k) (p : HostPath) : k.ways p = h.ways p := by
  simp only [Host.ways, hk.placeOf]

end Confined

/-! ## Single changes -/

theorem confined_of_entries (he : k.entries = h.entries)
    (hw : k.workingDirectory = h.workingDirectory) : Confined files dirs h k :=
  ⟨hw, fun q => .inl (find?_congr he q)⟩

theorem confined_put_file (hd : h.isDirectoryAt place = false) (bytes : Bytes) (modified : Number)
    (mode : Nat) : Confined {place} ∅ h (h.put place (.file bytes modified mode)) where
  workingDirectory := rfl
  places q := by
    by_cases hq : q = place
    · subst hq
      refine .inr (.inl ⟨rfl, hd, ?_⟩)
      rw [bytesAt?, find?_put_file hd]
      rfl
    · exact .inl (find?_put_of_ne h hq _)

theorem confined_put_directory (hnone : h.find? place = none) (modified : Number) :
    Confined ∅ {place} h (h.put place (.directory modified)) where
  workingDirectory := rfl
  places q := by
    by_cases hq : q = place
    · subst hq
      have hd : h.isDirectoryAt q = false := by rw [isDirectoryAt, hnone]
      refine .inr (.inr ⟨rfl, hnone, ?_⟩)
      rw [isDirectoryAt, find?_put_file hd]
    · exact .inl (find?_put_of_ne h hq _)

theorem confined_writeBytes {bytes : Bytes} (hw : h.writeBytes p bytes = .ok k) :
    Confined {h.placeOf p} ∅ h k := by
  obtain ⟨place, mode, hl, hd, rfl⟩ := writeBytes_cases hw
  obtain rfl := locate_eq_placeOf hl
  exact confined_put_file hd ..

theorem confined_restrict (h : Host) (p : HostPath) : Confined {h.placeOf p} ∅ h (h.restrict p) := by
  unfold restrict
  split
  · exact .refl ..
  · next place hl =>
    obtain rfl := locate_eq_placeOf hl
    split
    · next bytes modified mode hf =>
      have hd : h.isDirectoryAt (h.placeOf p) = false := by rw [isDirectoryAt, hf]
      exact confined_put_file hd ..
    · exact .refl ..

/-! ## Making directories -/

theorem ways_subset {q : HostPath} (ha : q.anchor = p.anchor) (hp : q.parts <+: p.parts) :
    h.ways q ⊆ h.ways p := by
  rintro _ ⟨parts, hparts, rfl⟩
  exact ⟨parts, hparts.trans hp, by rw [ha]⟩

theorem placeOf_mem_ways (h : Host) (p : HostPath) : h.placeOf p ∈ h.ways p :=
  ⟨p.parts, List.prefix_refl _, rfl⟩

theorem confined_makeDirectory (hm : h.makeDirectory p = .ok k) : Confined ∅ (h.ways p) h k := by
  unfold makeDirectory at hm
  split at hm
  · exact nomatch hm
  · next place hl =>
    split at hm
    · exact nomatch hm
    · next hf =>
      obtain rfl := Except.ok.inj hm
      obtain rfl := locate_eq_placeOf hl
      refine (confined_put_directory hf _).mono (Set.Subset.refl _) ?_
      exact Set.singleton_subset_iff.2 (placeOf_mem_ways h p)

theorem confined_makeDirectoriesAt (h : Host) (anchor : Text) (parts : List Text) :
    Confined ∅ (h.ways ⟨anchor, parts.reverse⟩) h (h.makeDirectoriesAt anchor parts).1 := by
  -- The parts stand in reverse: what a directory is in comes from the rest of them.
  induction parts with
  | nil =>
    rw [makeDirectoriesAt]
    split
    · next hm => exact confined_makeDirectory hm
    · exact .refl ..
  | cons part rest ih =>
    have houter : h.ways ⟨anchor, rest.reverse⟩ ⊆ h.ways ⟨anchor, (part :: rest).reverse⟩ := by
      refine ways_subset rfl ?_
      rw [List.reverse_cons]
      exact List.prefix_append _ _
    have hmade := ih.mono (Set.Subset.refl _) houter
    rw [makeDirectoriesAt]
    split
    · next hm => exact confined_makeDirectory hm
    · split
      · next hr => rwa [hr] at hmade
      · next hr =>
        rw [hr] at hmade
        split
        · next hm => exact hmade.trans (hmade.ways _ ▸ confined_makeDirectory hm)
        · exact hmade
        · exact hmade
    · exact .refl ..

theorem confined_makeDirectories (h : Host) (p : HostPath) :
    Confined ∅ (h.ways p) h (h.makeDirectories p).1 := by
  have hmade := confined_makeDirectoriesAt h p.anchor p.parts.reverse
  rwa [List.reverse_reverse] at hmade

end Host

open Host (Confined)

/-! ## The key -/

theorem KeyStore.confined_set (k : KeyStore) (h : Host) (key : Text) :
    Confined {h.placeOf k.path} (h.ways k.path.parent) h (k.set h key).1 := by
  have hmade := (Host.confined_makeDirectories h k.path.parent).mono
    (Set.empty_subset {h.placeOf k.path}) (Set.Subset.refl _)
  have hwrite {g l : Host} (hg : Confined {h.placeOf k.path} (h.ways k.path.parent) h g)
      (hl : Confined {g.placeOf k.path} ∅ g l) :
      Confined {h.placeOf k.path} (h.ways k.path.parent) h l :=
    hg.trans (hl.mono (by rw [hg.placeOf]) (Set.empty_subset _))
  unfold KeyStore.set
  split
  · next hm => rwa [hm] at hmade
  · next made hm =>
    rw [hm] at hmade
    split
    · exact hmade
    · next opened ho =>
      have hopened := hwrite hmade (Host.confined_writeBytes ho)
      split
      · exact hopened
      · split
        · exact hopened
        · next written hw =>
          exact hwrite (hwrite hopened (Host.confined_writeBytes hw))
            (Host.confined_restrict written k.path)

/-! ## The archive -/

theorem HostPath.name_append (t : Text) {tail : Text} (hs : separator ∉ tail)
    (hlong : 2 ≤ tail.length) :
    ∃ rest, separator ∉ rest ∧ (ofText (t ++ tail)).name = rest ++ tail := by
  have hlast (rest : Text) (hr : separator ∉ rest) :
      ((rest ++ tail).splitOn separator).filter (fun p : Text => !p.isEmpty && p ≠ ".") =
        [rest ++ tail] := by
    have hwhole : separator ∉ rest ++ tail := by
      rw [List.mem_append]
      exact fun h => h.elim hr hs
    have hlength : 2 ≤ (rest ++ tail).length := by
      rw [List.length_append]
      omega
    have hdot : rest ++ tail ≠ "." := fun h => absurd (h ▸ hlength) (by decide)
    have hnil : rest ++ tail ≠ [] := fun h => absurd (h ▸ hlength) (by decide)
    rw [List.splitOn_eq_singleton hwhole, List.filter_cons_of_pos]
    · rfl
    · rw [List.isEmpty_eq_false_iff.2 hnil, decide_eq_true hdot]
      rfl
  cases ht : Text.splitAtLast? separator t with
  | none =>
    refine ⟨t, Text.not_mem_of_splitAtLast? ht, ?_⟩
    rw [name, ofText, hlast t (Text.not_mem_of_splitAtLast? ht)]
    rfl
  | some r =>
    obtain ⟨before, rest⟩ := r
    obtain ⟨rfl, hr⟩ := Text.eq_of_splitAtLast? ht
    refine ⟨rest, hr, ?_⟩
    rw [name, ofText, List.append_assoc, List.cons_append, List.splitOn_append_cons_self,
      List.filter_append, hlast rest hr, List.getLast?_concat]
    rfl

namespace Archive

/-- The name of a file that an archive may write, whatever version is in it. -/
def IsFileName (name : Text) : Prop := HostPath.separator ∉ name ∧ name.endsWith ".json" = true

theorem isName_of_isFileName {name : Text} (h : IsFileName name) : Path.isName name = true := by
  refine Path.isName_iff.2 ⟨?_, h.1, ?_, ?_⟩
  all_goals
    rintro rfl
    exact absurd h.2 (by decide)

theorem isFileName_snapshotName {version filename : Text} {timestamp : Number}
    (h : Version.snapshotName version timestamp = .ok filename) :
    IsFileName (HostPath.ofText filename).name := by
  obtain ⟨date, rfl⟩ := Version.snapshotName_eq_ok h
  have hs : HostPath.separator ∉ date.fileStamp ++ ".json" := by
    rw [List.mem_append]
    rintro (hs | hs)
    · rcases Version.mem_fileStamp hs with h | h | h <;> exact absurd h (by decide)
    · exact absurd hs (by decide)
  have hlong : 2 ≤ (date.fileStamp ++ (".json" : Text)).length := by
    have hend : ((".json" : String) : Text).length = 5 := rfl
    rw [List.length_append, hend]
    omega
  obtain ⟨rest, hr, hname⟩ := HostPath.name_append ("retrodeck_v" ++ version ++ "_") hs hlong
  rw [List.append_assoc, hname]
  refine ⟨fun h => (List.mem_append.1 h).elim hr hs, ?_⟩
  rw [← List.append_assoc, Text.endsWith, Text.startsWith_iff, List.reverse_append]
  exact List.prefix_append _ _

def spots (a : Archive) (h : Host) : Set (List Text) :=
  {q | ∃ name, IsFileName name ∧ q = a.placeFor h name}

theorem placeOf_pathOf_last (a : Archive) (h : Host) {filename : Text}
    (hn : IsFileName (HostPath.ofText filename).name) :
    h.placeOf (a.pathOf filename) = a.placeFor h (HostPath.ofText filename).name := by
  have hname := isName_of_isFileName hn
  have hlast : (HostPath.ofText (HostPath.ofText filename).name).name =
      (HostPath.ofText filename).name := by
    obtain ⟨hne, hs, hdot, -⟩ := Path.isName_iff.1 hname
    rw [HostPath.ofText_of_not_mem hne hdot hs]
    rfl
  rw [← placeOf_pathOf a h hname, pathOf, pathOf, hlast]

theorem confined_write (a : Archive) (h : Host) (bytes : Bytes) {filename : Text}
    (hn : IsFileName (HostPath.ofText filename).name) :
    Confined (a.spots h) (h.ways a.directory) h (a.write h bytes filename).1 := by
  have hmade := (Host.confined_makeDirectories h a.directory).mono
    (Set.empty_subset (a.spots h)) (Set.Subset.refl _)
  unfold write
  split
  · next hm => rwa [hm] at hmade
  · next made hm =>
    rw [hm] at hmade
    simp only
    split
    · exact hmade
    · next written hw =>
      refine hmade.trans ((Host.confined_writeBytes hw).mono ?_ (Set.empty_subset _))
      rw [hmade.placeOf, placeOf_pathOf_last a h hn]
      exact Set.singleton_subset_iff.2 ⟨_, hn, rfl⟩

end Archive

end ThreatDesk
