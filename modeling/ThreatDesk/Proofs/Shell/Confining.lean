import ThreatDesk.Proofs.Host.Confined
import ThreatDesk.Proofs.Shell.Archiving

/-!
# What lines write to the host

Setting the key writes its file and an export one file right in the archive, whatever version the session
has; either makes the directories that its file is in. No other line and nothing that comes back to an
operation changes a place of the host. Main statement: so it is along every run (`writes_confined`).
-/

namespace ThreatDesk

namespace Shell

open Answer (Says)
open Host (Confined)
open Floor (settle)

/-- The places of the files that a line with that verb may write. -/
def filesOf (d : Desk) : Option Verb → Set (List Text)
  | some .setkey => {d.host.placeOf d.site.keys.path}
  | some .exportSession => d.site.archive.spots d.host
  | _ => ∅

/-- The places of the directories that a line with that verb may make. -/
def directoriesOf (d : Desk) : Option Verb → Set (List Text)
  | some .setkey => d.host.ways d.site.keys.path.parent
  | some .exportSession => d.host.ways d.site.archive.directory
  | _ => ∅

variable {d e : Desk} {a : Answer}

theorem filesOf_eq (hs : e.site = d.site)
    (hw : e.host.workingDirectory = d.host.workingDirectory) (v : Option Verb) :
    filesOf e v = filesOf d v ∧ directoriesOf e v = directoriesOf d v := by
  have hplace (p : HostPath) : e.host.placeOf p = d.host.placeOf p := by
    rw [Host.placeOf, hw, Host.placeOf]
  unfold filesOf directoriesOf
  split
  · simp only [hs, hplace, Host.ways, and_self]
  · simp only [hs, hplace, Host.ways, Archive.spots, Archive.placeFor, and_self]
  · exact ⟨rfl, rfl⟩

/-! ## One line -/

theorem confined_setKey (a : Answer) (args : List Text) :
    Confined {a.desk.host.placeOf a.desk.site.keys.path} (a.desk.host.ways a.desk.site.keys.path.parent)
      a.desk.host (setKey a args).desk.host := by
  cases args with
  | nil => exact .refl ..
  | cons key args =>
    have hset := a.desk.site.keys.confined_set a.desk.host key
    rw [setKey]
    split
    · next host hk => rwa [hk] at hset
    · next host fault hk =>
      rw [hk] at hset
      simp only
      split <;> exact hset

theorem confined_exportSession (a : Answer) :
    Confined (a.desk.site.archive.spots a.desk.host) (a.desk.host.ways a.desk.site.archive.directory)
      a.desk.host (exportSession a).desk.host := by
  have hends := export_cases a
  generalize exportSession a = b at hends
  cases hends with
  | unmade he =>
    rw [(says_report a exportLabel _).host]
    exact .refl ..
  | @unwritten e host fault he hw =>
    obtain ⟨-, hname, -⟩ := Export.ofDesk_eq_ok he
    have hwrite := a.desk.site.archive.confined_write a.desk.host e.bytes
      (Archive.isFileName_snapshotName hname)
    rw [hw] at hwrite
    rw [(says_report (a.withHost host) exportLabel _).host]
    exact hwrite
  | @written e host path he hw =>
    obtain ⟨-, hname, -⟩ := Export.ofDesk_eq_ok he
    have hwrite := a.desk.site.archive.confined_write a.desk.host e.bytes
      (Archive.isFileName_snapshotName hname)
    rw [hw] at hwrite
    exact hwrite

theorem host_load (a : Answer) (args : List Text) : (load a args).desk.host = a.desk.host := by
  cases hbusy : a.session.isBusy with
  | true =>
    rw [load, if_pos hbusy]
    rfl
  | false =>
    have hends := load_cases hbusy args
    generalize load a args = b at hends
    cases hends with
    | refused hn text => rfl
    | loaded h => exact (Says.sayAll _ .system _).host

theorem confined_begin (d : Desk) (now : Int) (raw : Text) :
    Confined (filesOf d (verb? raw)) (directoriesOf d (verb? raw)) d.host
      (begin d now raw).1.desk.host := by
  have hsame {b : Answer} (h : b.desk.host = d.host) (v : Option Verb) :
      Confined (filesOf d v) (directoriesOf d v) d.host b.desk.host :=
    h ▸ Confined.refl _ _ _
  cases hv : verb? raw with
  | none => exact hsame (undisturbed_of_saying (says_begin hv d now)).host _
  | some v =>
    rw [begin_of_verb? hv]
    cases v with
    | setkey => exact confined_setKey (echo d now raw) _
    | exportSession => exact confined_exportSession (echo d now raw)
    | load => exact hsame (host_load (echo d now raw) _) _
    | _ => exact hsame (undisturbed_perform (by decide) (echo d now raw) _ raw).host _

theorem site_begin (d : Desk) (now : Int) (raw : Text) : (begin d now raw).1.desk.site = d.site := by
  have hstores := stores_begin d now raw
  generalize event? d now raw = event at hstores
  generalize (begin d now raw).1 = b at hstores ⊢
  cases hstores with
  | nothing hs hv hh => exact hs
  | keyed key hs hv hh => exact hs
  | saved he hw hs hv => exact hs
  | loaded hs hh => exact hs

/-! ## Runs -/

/-- What a run may write: the file of the key and files of the archive. -/
def filesOfRun (d : Desk) : Set (List Text) :=
  filesOf d (some .setkey) ∪ filesOf d (some .exportSession)

def directoriesOfRun (d : Desk) : Set (List Text) :=
  directoriesOf d (some .setkey) ∪ directoriesOf d (some .exportSession)

theorem filesOf_subset (d : Desk) (v : Option Verb) :
    filesOf d v ⊆ filesOfRun d ∧ directoriesOf d v ⊆ directoriesOfRun d := by
  unfold filesOf directoriesOf
  split
  · exact ⟨Set.subset_union_left, Set.subset_union_left⟩
  · exact ⟨Set.subset_union_right, Set.subset_union_right⟩
  · exact ⟨Set.empty_subset _, Set.empty_subset _⟩

theorem Recorded.confined {events : List Event} {f : Floor} (h : Recorded d events f) :
    f.desk.site = d.site ∧ Confined (filesOfRun d) (directoriesOfRun d) d.host f.desk.host := by
  induction h with
  | start => exact ⟨rfl, .refl ..⟩
  | host h he hw ih => exact ⟨ih.1, ih.2.trans (Host.confined_of_entries he hw)⟩
  | refused h ih => exact ih
  | @line _ f h now raw ih =>
    obtain ⟨hs, hd⟩ := ih
    -- The settings are those of the start, and so are the places that the line may write.
    obtain ⟨hfiles, hdirs⟩ := filesOf_eq hs hd.workingDirectory (verb? raw)
    obtain ⟨hf, hsub⟩ := filesOf_subset d (verb? raw)
    rw [Floor.desk_settle]
    refine ⟨(site_begin f.desk now raw).trans hs, hd.trans ?_⟩
    exact (confined_begin f.desk now raw).mono (hfiles ▸ hf) (hdirs ▸ hsub)
  | progress h text ih =>
    rw [Floor.desk_settle]
    exact ih
  | @signal _ e _ _ p h signal ih =>
    have hsame := undisturbed_continued (p.answer e) p.stage signal
    rw [Floor.desk_settle, hsame.site, hsame.host]
    exact ih

/-- While nobody else changes the files of the host, only setting the key writes the file of the key, only an
export writes a file of the archive, either makes nothing but the directories that its file is in, and
nothing else that happens changes a place. So the host differs from what it was at the start in such
places alone. -/
theorem writes_confined {events : List Event} {f : Floor} (h : Recorded d events f) :
    (∀ now raw, Confined (filesOf d (verb? raw)) (directoriesOf d (verb? raw)) f.desk.host
      (begin f.desk now raw).1.desk.host) ∧
    (∀ p ∈ f.pending, ∀ signal,
      (continued (p.answer f.desk) p.stage signal).1.desk.host = f.desk.host) ∧
    Confined (filesOf d (some .setkey) ∪ filesOf d (some .exportSession))
      (directoriesOf d (some .setkey) ∪ directoriesOf d (some .exportSession)) d.host f.desk.host := by
  obtain ⟨hs, hd⟩ := h.confined
  refine ⟨?_, ?_, hd⟩
  · intro now raw
    obtain ⟨hfiles, hdirs⟩ := filesOf_eq hs hd.workingDirectory (verb? raw)
    rw [← hfiles, ← hdirs]
    exact confined_begin f.desk now raw
  · intro p _ signal
    exact (undisturbed_continued (p.answer f.desk) p.stage signal).host

theorem writes_confined_climbing :
    let d := Desk.bare (Session.withoutHistory ⟨[]⟩ "/..3")
    let f := settle [] [] (begin d 7000 "export")
    let places : List (List Text) := [["x"], ["x", "..4_1970-01-01T00-00-07.json"]]
    (∃ events, Recorded d events f) ∧ f.desk.host.entries.map Prod.fst = places ∧
      Confined (filesOf d (some .setkey) ∪ filesOf d (some .exportSession))
        (directoriesOf d (some .setkey) ∪ directoriesOf d (some .exportSession))
        d.host f.desk.host := by
  intro d f places
  have hr : Recorded d _ f := .line .start 7000 "export"
  exact ⟨⟨_, hr⟩, by decide +kernel, (writes_confined hr).2.2⟩

end Shell

end ThreatDesk
