import Mathlib.Data.Set.Insert
import ThreatDesk.Proofs.Host.Ways

/-!
# What a change of the host leaves alone

A change keeps the host but for some places if directories stay, and files elsewhere hold what they held
(`Keeps`). Making directories touches no file, and setting the key none but that of the key.
-/

namespace ThreatDesk

namespace Host

variable {h k l : Host} {p : HostPath} {place : List Text}

/-! ## Files -/

def bytesAt? (h : Host) (place : List Text) : Option Bytes :=
  match h.find? place with
  | some (.file bytes _ _) => some bytes
  | _ => none

theorem bytesAt?_eq_some {bytes : Bytes} :
    h.bytesAt? place = some bytes ↔ ∃ modified mode, h.find? place = some (.file bytes modified mode) := by
  unfold bytesAt?
  split
  · next bytes' modified mode hf => simp [hf]
  · next hf =>
    refine iff_of_false nofun ?_
    rintro ⟨modified, mode, hb⟩
    exact hf _ _ _ hb

theorem bytesAt?_put_of_ne {q : List Text} (hq : q ≠ place) (entry : HostEntry) :
    (h.put place entry).bytesAt? q = h.bytesAt? q := by
  rw [bytesAt?, find?_put_of_ne h hq, bytesAt?]

theorem find?_eq_none (hd : h.isDirectoryAt place = false) (hb : h.bytesAt? place = none) :
    h.find? place = none := by
  cases hf : h.find? place with
  | none => rfl
  | some entry =>
    cases entry with
    | file bytes modified mode =>
      rw [bytesAt?, hf] at hb
      exact nomatch hb
    | directory modified =>
      rw [isDirectoryAt, hf] at hd
      exact nomatch hd

theorem readBytes_of_bytesAt? {bytes : Bytes} (hl : h.locate p = .ok place)
    (hb : h.bytesAt? place = some bytes) : h.readBytes p = .ok bytes := by
  obtain ⟨modified, mode, hf⟩ := bytesAt?_eq_some.1 hb
  unfold readBytes
  simp only [hl, hf]

theorem exists?_of_find? (hname : nameFault? p.toText = none) (hsize : nameSize p.toText < pathLimit)
    (hshort : h.follow (if p.isAbsolute then [] else h.workingDirectory.reverse) p.parts ≠
      .error .nameTooLong) (hf : ∀ place, h.locate p = .ok place → h.find? place = none) :
    h.exists? p = .ok false := by
  have hnone : h.lookup p = .ok none := by
    unfold lookup
    split
    · next place hl => rw [hf place hl]
    · next q hfault =>
      unfold locate at hfault
      rw [hname] at hfault
      simp only [if_neg (Nat.not_le.2 hsize)] at hfault
      split at hfault
      · exact nomatch hfault
      · next problem hproblem =>
        obtain ⟨rfl, -⟩ := Fault.system.inj (Except.error.inj hfault)
        exact absurd hproblem hshort
    · rfl
  rw [exists?, hnone]
  rfl

/-! ## Changes -/

/-- Directories stay, and so do files at other places than those. -/
structure Keeps (spots : Set (List Text)) (h k : Host) : Prop where
  workingDirectory : k.workingDirectory = h.workingDirectory
  directories : ∀ place, h.isDirectoryAt place = true → k.isDirectoryAt place = true
  files : ∀ place, place ∉ spots → k.bytesAt? place = h.bytesAt? place

namespace Keeps

variable {spots : Set (List Text)}

theorem refl (spots : Set (List Text)) (h : Host) : Keeps spots h h :=
  ⟨rfl, fun _ hd => hd, fun _ _ => rfl⟩

theorem trans (hk : Keeps spots h k) (hl : Keeps spots k l) : Keeps spots h l where
  workingDirectory := hl.workingDirectory.trans hk.workingDirectory
  directories := fun place hd => hl.directories place (hk.directories place hd)
  files := fun place hp => (hl.files place hp).trans (hk.files place hp)

theorem weaken (hk : Keeps ∅ h k) (spots : Set (List Text)) : Keeps spots h k :=
  ⟨hk.workingDirectory, hk.directories, fun place _ => hk.files place (Set.notMem_empty place)⟩

theorem placeOf (hk : Keeps spots h k) (p : HostPath) : k.placeOf p = h.placeOf p := by
  rw [Host.placeOf, hk.workingDirectory, Host.placeOf]

theorem follow (hk : Keeps spots h k) {stack parts : List Text}
    (hf : h.follow stack parts = .ok place) : k.follow stack parts = .ok place := by
  induction parts generalizing stack with
  | nil => exact hf
  | cons part rest ih =>
    obtain ⟨hd, hrest⟩ := follow_cons.1 hf
    refine follow_cons.2 ⟨hk.directories _ hd, ?_⟩
    exact hrest.imp (fun h => ⟨h.1, ih h.2⟩) fun h => ⟨h.1, h.2.1, ih h.2.2⟩

theorem locate (hk : Keeps spots h k) (hl : h.locate p = .ok place) : k.locate p = .ok place := by
  obtain ⟨hname, hsize, hfollow⟩ := locate_eq_ok_iff.1 hl
  refine locate_eq_ok_iff.2 ⟨hname, hsize, ?_⟩
  rw [hk.workingDirectory]
  exact hk.follow hfollow

theorem exists?_eq_false (hk : Keeps spots h k) (hl : k.locate p = .ok place)
    (hf : h.find? place = none) : h.exists? p = .ok false := by
  obtain ⟨hname, hsize, hfollow⟩ := locate_eq_ok_iff.1 hl
  have hplace : place = h.placeOf p := (locate_eq_placeOf hl).trans (hk.placeOf p)
  rw [hk.workingDirectory] at hfollow
  refine exists?_of_find? hname hsize (follow_ne_nameTooLong hfollow) ?_
  intro found hfound
  rw [locate_eq_placeOf hfound, ← hplace, hf]

end Keeps

theorem find?_congr (he : k.entries = h.entries) (place : List Text) : k.find? place = h.find? place := by
  rw [find?, he, find?]

theorem keeps_of_entries (he : k.entries = h.entries)
    (hw : k.workingDirectory = h.workingDirectory) : Keeps ∅ h k := by
  refine ⟨hw, fun place hd => ?_, fun place _ => ?_⟩
  · rwa [isDirectoryAt, find?_congr he]
  · rw [bytesAt?, find?_congr he, bytesAt?]

theorem find?_put_file {h : Host} {place : List Text} (hd : h.isDirectoryAt place = false)
    (entry : HostEntry) : (h.put place entry).find? place = some entry := by
  refine find?_put_self h ?_ entry
  rintro rfl
  exact nomatch hd

theorem isDirectoryAt_put_of_ne {q : List Text} (hq : q ≠ place) (entry : HostEntry) :
    (h.put place entry).isDirectoryAt q = h.isDirectoryAt q := by
  rw [isDirectoryAt, find?_put_of_ne h hq, isDirectoryAt]

theorem keeps_put (hd : h.isDirectoryAt place = false) (entry : HostEntry) :
    Keeps {place} h (h.put place entry) where
  workingDirectory := rfl
  directories := by
    intro q hq
    rwa [isDirectoryAt_put_of_ne]
    rintro rfl
    rw [hd] at hq
    exact Bool.noConfusion hq
  files := fun q hq => bytesAt?_put_of_ne hq entry

/-- What is put in touches no file if the same bytes were there before. -/
theorem keeps_put_same (hd : h.isDirectoryAt place = false) {entry : HostEntry}
    (hsame : (h.put place entry).bytesAt? place = h.bytesAt? place) :
    Keeps ∅ h (h.put place entry) where
  workingDirectory := rfl
  directories := (keeps_put hd entry).directories
  files := by
    intro q _
    by_cases hq : q = place
    · rw [hq, hsame]
    · exact bytesAt?_put_of_ne hq entry

theorem keeps_makeDirectory (hm : h.makeDirectory p = .ok k) : Keeps ∅ h k := by
  unfold makeDirectory at hm
  split at hm
  · exact nomatch hm
  · next place hl =>
    split at hm
    · exact nomatch hm
    · next hf =>
      obtain rfl := Except.ok.inj hm
      have hd : h.isDirectoryAt place = false := by rw [isDirectoryAt, hf]
      refine keeps_put_same hd ?_
      rw [bytesAt?, find?_put_file hd, bytesAt?, hf]

theorem keeps_makeDirectoriesAt (h : Host) (anchor : Text) (parts : List Text) :
    Keeps ∅ h (h.makeDirectoriesAt anchor parts).1 := by
  induction parts with
  | nil =>
    rw [makeDirectoriesAt]
    split
    · next hm => exact keeps_makeDirectory hm
    · exact .refl ∅ h
  | cons part rest ih =>
    rw [makeDirectoriesAt]
    split
    · next hm => exact keeps_makeDirectory hm
    · split
      · next hr => rwa [hr] at ih
      · next hr =>
        rw [hr] at ih
        split
        · next hm => exact ih.trans (keeps_makeDirectory hm)
        · exact ih
        · exact ih
    · exact .refl ∅ h

theorem keeps_makeDirectories (h : Host) (p : HostPath) : Keeps ∅ h (h.makeDirectories p).1 :=
  keeps_makeDirectoriesAt ..

theorem writeBytes_cases {h k : Host} {p : HostPath} {bytes : Bytes}
    (hw : h.writeBytes p bytes = .ok k) :
    ∃ place mode, h.locate p = .ok place ∧ h.isDirectoryAt place = false ∧
      k = h.put place (.file bytes h.clock mode) := by
  unfold writeBytes at hw
  split at hw
  · exact nomatch hw
  · next place hl =>
    split at hw
    · exact nomatch hw
    · next mode hf =>
      refine ⟨place, mode, hl, ?_, (Except.ok.inj hw).symm⟩
      rw [isDirectoryAt, hf]
    · next hf =>
      refine ⟨place, defaultMode, hl, ?_, (Except.ok.inj hw).symm⟩
      rw [isDirectoryAt, hf]

theorem keeps_writeBytes {bytes : Bytes} (hw : h.writeBytes p bytes = .ok k) :
    Keeps {h.placeOf p} h k ∧ k.bytesAt? (h.placeOf p) = some bytes ∧
      h.locate p = .ok (h.placeOf p) ∧ h.isDirectoryAt (h.placeOf p) = false := by
  obtain ⟨place, mode, hl, hd, rfl⟩ := writeBytes_cases hw
  obtain rfl := locate_eq_placeOf hl
  exact ⟨keeps_put hd _, bytesAt?_eq_some.2 ⟨_, mode, find?_put_file hd _⟩, hl, hd⟩

theorem keeps_restrict (h : Host) (p : HostPath) : Keeps ∅ h (h.restrict p) := by
  unfold restrict
  split
  · exact .refl ∅ h
  · next place hl =>
    split
    · next bytes modified mode hf =>
      have hd : h.isDirectoryAt place = false := by rw [isDirectoryAt, hf]
      refine keeps_put_same hd ?_
      rw [bytesAt?, find?_put_file hd, bytesAt?, hf]
    · exact .refl ∅ h

end Host

open Host (Keeps)

theorem KeyStore.keeps_set (k : KeyStore) (h : Host) (key : Text) :
    Keeps {h.placeOf k.path} h (k.set h key).1 := by
  have hmade := (Host.keeps_makeDirectories h k.path.parent).weaken {h.placeOf k.path}
  unfold KeyStore.set
  split
  · next hm => rwa [hm] at hmade
  · next made hm =>
    rw [hm] at hmade
    split
    · exact hmade
    · next opened ho =>
      have hopened := hmade.trans (hmade.placeOf k.path ▸ (Host.keeps_writeBytes ho).1)
      split
      · exact hopened
      · split
        · exact hopened
        · next written hw =>
          have hwritten := hopened.trans (hopened.placeOf k.path ▸ (Host.keeps_writeBytes hw).1)
          exact hwritten.trans ((Host.keeps_restrict written k.path).weaken _)

end ThreatDesk
