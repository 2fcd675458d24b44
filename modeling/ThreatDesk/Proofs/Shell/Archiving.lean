import ThreatDesk.Proofs.Shell.Storing
import ThreatDesk.Proofs.Snapshot.Succession

/-!
# Snapshots that are kept

A run is recorded with what its lines do to the archive, the last of it first (`Recorded`). The files of
the archive are those of the record (`Archived`), and since the last load each version is ahead of those
saved before. So a snapshot takes the place of another one only if a load has come between the two
(`snapshots_kept`), and then it can (`overwritten_after_load`).
-/

namespace ThreatDesk

namespace Shell

open Host (Keeps)
open Floor (settle)

/-! ## Records -/

/-- What can become of a desk while nobody else changes the files of the host, with what the lines have
done to the archive, the last of it first. -/
inductive Recorded (d : Desk) : List Event → Floor → Prop
  | start : Recorded d [] ⟨d, []⟩
  | host {events : List Event} {f : Floor} (h : Recorded d events f) {host : Host}
    (he : host.entries = f.desk.host.entries)
    (hw : host.workingDirectory = f.desk.host.workingDirectory) :
    Recorded d events { f with desk := { f.desk with host := host } }
  | refused {events : List Event} {f : Floor} (h : Recorded d events f) :
    Recorded d events { f with desk := { f.desk with session := f.desk.session.skipLine } }
  | line {events : List Event} {f : Floor} (h : Recorded d events f) (now : Int) (raw : Text) :
    Recorded d ((event? f.desk now raw).toList ++ events)
      (settle f.pending [] (begin f.desk now raw))
  | progress {events : List Event} {e : Desk} {before after : List Pending} {p : Pending}
    (h : Recorded d events ⟨e, before ++ p :: after⟩) (text : Text) :
    Recorded d events (settle before after ((p.answer e).system text, some p.stage))
  | signal {events : List Event} {e : Desk} {before after : List Pending} {p : Pending}
    (h : Recorded d events ⟨e, before ++ p :: after⟩) (signal : Signal p.stage) :
    Recorded d events (settle before after (continued (p.answer e) p.stage signal))

theorem exists_recorded {d : Desk} {f : Floor} (h : Floor.Reaches (fun _ => False) ⟨d, []⟩ f) :
    ∃ events, Recorded d events f := by
  induction h with
  | refl => exact ⟨[], .start⟩
  | tail _ hs ih =>
    obtain ⟨events, hr⟩ := ih
    cases hs with
    | host _ hh => exact hh.elim
    | refused f => exact ⟨events, .refused hr⟩
    | line f now raw => exact ⟨_, .line hr now raw⟩
    | progress text => exact ⟨events, .progress hr text⟩
    | signal signal => exact ⟨events, .signal hr signal⟩

def Event.bytesUnder? (name : Text) : Event → Option Bytes
  | .saved _ x => if x.filename = name then some x.bytes else none
  | .loaded => none

def lastSaved (name : Text) (events : List Event) : Option Bytes :=
  events.findSome? (Event.bytesUnder? name)

theorem lastSaved_cons (name : Text) (now : Int) (x : Export) (events : List Event) :
    lastSaved name (.saved now x :: events) =
      if x.filename = name then some x.bytes else lastSaved name events := by
  have hhere : Event.bytesUnder? name (.saved now x) =
      if x.filename = name then some x.bytes else none := rfl
  rw [lastSaved, List.findSome?_cons, hhere]
  by_cases hsame : x.filename = name
  · simp only [if_pos hsame]
  · simp only [if_neg hsame, lastSaved]

theorem exists_of_lastSaved {name : Text} {events : List Event} {bytes : Bytes}
    (h : lastSaved name events = some bytes) :
    ∃ now x, .saved now x ∈ events ∧ x.filename = name := by
  obtain ⟨event, hevent, hbytes⟩ := List.exists_of_findSome?_eq_some h
  cases event with
  | loaded => exact nomatch hbytes
  | saved now x =>
    have hbytes : (if x.filename = name then some x.bytes else none) = some bytes := hbytes
    split at hbytes
    · next hname => exact ⟨now, x, hevent, hname⟩
    · exact nomatch hbytes

theorem lastSaved_of_last {later earlier : List Event} {now : Int} {x : Export}
    (h : ∀ time y, .saved time y ∈ later → y.filename ≠ x.filename) :
    lastSaved x.filename (later ++ .saved now x :: earlier) = some x.bytes := by
  have hlater : later.findSome? (Event.bytesUnder? x.filename) = none := by
    rw [List.findSome?_eq_none_iff]
    intro event hevent
    cases event with
    | loaded => rfl
    | saved time y => exact if_neg (h time y hevent)
  rw [lastSaved, List.findSome?_append, hlater, Option.none_or]
  exact (lastSaved_cons ..).trans (if_pos rfl)

/-! ## The archive and its record -/

/-- The archive is as the record of the run tells. -/
structure Archived (d : Desk) (events : List Event) (e : Desk) : Prop where
  site : e.site = d.site
  workingDirectory : e.host.workingDirectory = d.host.workingDirectory
  files : ∀ name, Archive.isSnapshotName name = true →
    e.host.bytesAt? (d.site.archive.placeFor d.host name) = lastSaved name events
  ways : ∀ now x, .saved now x ∈ events →
    e.host.locate (d.site.archive.pathOf x.filename) =
      .ok (d.site.archive.placeFor d.host x.filename)
  named : ∀ now x, .saved now x ∈ events →
    Version.snapshotName x.version (.integer now) = .ok x.filename
  /-- Since the last load no version has been saved that is ahead of the one of the session. -/
  behind : ∀ later now x earlier, events = later ++ .saved now x :: earlier → .loaded ∉ later →
    Version.rank x.version ≤ Version.rank e.session.version
  /-- A name is used again only after a load. -/
  reused : ∀ later now y between time x earlier,
    events = later ++ .saved now y :: (between ++ .saved time x :: earlier) →
    y.filename = x.filename → .loaded ∈ between

variable {d e k : Desk} {events : List Event}

theorem archived_start (hempty : d.host.children (d.host.placeOf d.site.archive.directory) = []) :
    Archived d [] d where
  site := rfl
  workingDirectory := rfl
  files := fun name _ => Archive.bytesAt?_placeFor hempty name
  ways := nofun
  named := nofun
  behind := fun later now x earlier h => absurd h.symm (by simp)
  reused := fun later now y between time x earlier h => absurd h.symm (by simp)

theorem Archived.keep (h : Archived d events e) (hs : k.site = e.site)
    (hv : k.session.version = e.session.version) {spots : Set (List Text)}
    (hk : Keeps spots e.host k.host)
    (hspots : ∀ name, Archive.isSnapshotName name = true →
      d.site.archive.placeFor d.host name ∉ spots) : Archived d events k where
  site := hs.trans h.site
  workingDirectory := hk.workingDirectory.trans h.workingDirectory
  files := fun name hn => (hk.files _ (hspots name hn)).trans (h.files name hn)
  ways := fun now x hx => hk.locate (h.ways now x hx)
  named := h.named
  behind := hv ▸ h.behind
  reused := h.reused

theorem Archived.load (h : Archived d events e) (hs : k.site = e.site) (hh : k.host = e.host) :
    Archived d (.loaded :: events) k where
  site := hs.trans h.site
  workingDirectory := hh ▸ h.workingDirectory
  files := hh ▸ h.files
  ways := fun now x hx => hh ▸ h.ways now x ((List.mem_cons.1 hx).resolve_left nofun)
  named := fun now x hx => h.named now x ((List.mem_cons.1 hx).resolve_left nofun)
  behind := by
    intro later now x earlier heq hloaded
    rcases List.cons_eq_append_iff.1 heq with ⟨-, hcons⟩ | ⟨rest, rfl, -⟩
    · exact nomatch (List.cons.inj hcons).1
    · exact absurd List.mem_cons_self hloaded
  reused := by
    intro later now y between time x earlier heq hname
    rcases List.cons_eq_append_iff.1 heq with ⟨-, hcons⟩ | ⟨rest, rfl, hrest⟩
    · exact nomatch (List.cons.inj hcons).1
    · exact h.reused rest now y between time x earlier hrest hname

theorem Archived.loaded_of_reused (h : Archived d events e) {now : Int} {x : Export}
    (hahead : Version.rank e.session.version < Version.rank x.version)
    (hname : Version.snapshotName x.version (.integer now) = .ok x.filename)
    {later : List Event} {time : Int} {y : Export} {earlier : List Event}
    (hevents : events = later ++ .saved time y :: earlier) (hfile : x.filename = y.filename) :
    .loaded ∈ later := by
  by_contra hloaded
  have hbehind := h.behind later time y earlier hevents hloaded
  have hy := h.named time y (by rw [hevents]; simp)
  obtain ⟨hsame, -⟩ := Version.snapshotName_inj hname (hfile ▸ hy)
  rw [← hsame] at hbehind
  exact absurd hahead hbehind.not_gt

theorem Archived.save (h : Archived d events e) {now : Int} {x : Export}
    (hversion : HostPath.separator ∉ x.version)
    (hbump : Version.bump? e.session.version = some x.version)
    (hname : Version.snapshotName x.version (.integer now) = .ok x.filename)
    (hw : e.site.archive.write e.host x.bytes x.filename =
      (k.host, .ok (e.site.archive.pathOf x.filename)))
    (hs : k.site = e.site) (hv : k.session.version = x.version) :
    Archived d (.saved now x :: events) k := by
  have hahead := Version.rank_lt_of_bump? hbump
  obtain ⟨hkeeps, hbytes, hlocate, -⟩ := Archive.keeps_of_write (isName_snapshotName hname hversion) hw
  rw [h.site, Archive.placeFor_eq _ h.workingDirectory] at hkeeps hbytes hlocate
  constructor
  · exact hs.trans h.site
  · exact hkeeps.workingDirectory.trans h.workingDirectory
  · intro name hn
    rw [lastSaved_cons]
    split
    · next hsame => exact hsame ▸ hbytes
    · next hother =>
      rw [hkeeps.files _ fun hp => hother (Archive.placeFor_inj hp).symm, h.files name hn]
  · intro time y hy
    rcases List.mem_cons.1 hy with hy | hy
    · obtain ⟨rfl, rfl⟩ := Event.saved.inj hy
      exact hlocate
    · exact hkeeps.locate (h.ways time y hy)
  · intro time y hy
    rcases List.mem_cons.1 hy with hy | hy
    · obtain ⟨rfl, rfl⟩ := Event.saved.inj hy
      exact hname
    · exact h.named time y hy
  · intro later time y earlier heq hloaded
    rw [hv]
    rcases List.cons_eq_append_iff.1 heq with ⟨-, hcons⟩ | ⟨rest, rfl, hrest⟩
    · obtain ⟨-, rfl⟩ := Event.saved.inj (List.cons.inj hcons).1
      exact le_rfl
    · have hbehind := h.behind rest time y earlier hrest
        fun hmem => hloaded (List.mem_cons_of_mem _ hmem)
      exact (hbehind.trans_lt hahead).le
  · intro later time y between past z earlier heq hfile
    rcases List.cons_eq_append_iff.1 heq with ⟨-, hcons⟩ | ⟨rest, rfl, hrest⟩
    · obtain ⟨hy, hrest⟩ := List.cons.inj hcons
      obtain ⟨rfl, rfl⟩ := Event.saved.inj hy
      exact h.loaded_of_reused hahead hname hrest.symm hfile
    · exact h.reused rest time y between past z earlier hrest hfile

/-! ## Runs -/

theorem placeFor_ne_key {keys : KeyStore} (hk : Path.isName keys.path.name = true)
    (hkeys : Archive.isSnapshotName keys.path.name = false) (a : Archive) (h : Host) {name : Text}
    (hn : Archive.isSnapshotName name = true) : a.placeFor h name ≠ h.placeOf keys.path := by
  obtain ⟨hne, -, -, hup⟩ := Path.isName_iff.1 hk
  obtain ⟨last, hlast⟩ : ∃ last, keys.path.parts.getLast? = some last := by
    refine Option.isSome_iff_exists.1 (Option.isSome_iff_ne_none.2 fun hnone => hne ?_)
    rw [HostPath.name, hnone]
    rfl
  have hname : keys.path.name = last := by rw [HostPath.name, hlast]; rfl
  obtain ⟨parts, hparts⟩ := List.getLast?_eq_some_iff.1 hlast
  have hpath : keys.path = ⟨keys.path.anchor, parts ++ [last]⟩ := by rw [← hparts]
  rw [hname] at hkeys hup
  rw [hpath, Host.placeOf_append_singleton h _ _ hup]
  intro hsame
  obtain rfl : name = last := (List.cons.inj (List.append_inj_right' hsame rfl)).1
  rw [hn] at hkeys
  cases hkeys

/-- What stands where an export has put its file stood there as what was saved last under its name, or
nothing did. -/
theorem Archived.fresh (h : Archived d events e) {now time : Int} {raw : Text} {x : Export}
    (hx : event? e now raw = some (.saved time x)) (hversion : HostPath.separator ∉ x.version)
    (hnew : ∀ past y, .saved past y ∈ events → y.filename ≠ x.filename) :
    e.host.exists? (d.site.archive.pathOf x.filename) = .ok false := by
  have hstores := stores_begin e now raw
  rw [hx] at hstores
  generalize (begin e now raw).1 = b at hstores
  cases hstores with
  | saved he hw hs hv =>
    obtain ⟨-, hname, -⟩ := Export.ofDesk_eq_ok he
    obtain ⟨hkeeps, -, hlocate, hdirectory⟩ :=
      Archive.keeps_of_write (isName_snapshotName hname hversion) hw
    have hnone : lastSaved x.filename events = none := by
      rw [← Option.not_isSome_iff_eq_none]
      intro hsome
      obtain ⟨bytes, hbytes⟩ := Option.isSome_iff_exists.1 hsome
      obtain ⟨past, y, hy, hsame⟩ := exists_of_lastSaved hbytes
      exact hnew past y hy hsame
    have hbytes := (h.files x.filename (isSnapshotName_snapshotName hname)).trans hnone
    rw [← Archive.placeFor_eq _ h.workingDirectory, ← h.site] at hbytes
    rw [← h.site]
    exact hkeeps.exists?_eq_false hlocate (Host.find?_eq_none hdirectory hbytes)

section

variable (hk : Path.isName d.site.keys.path.name = true)
  (hkeys : Archive.isSnapshotName d.site.keys.path.name = false)

include hk hkeys

theorem Archived.line (h : Archived d events e) (now : Int) (raw : Text)
    (hversion : ∀ time x, event? e now raw = some (.saved time x) →
      HostPath.separator ∉ x.version) :
    Archived d ((event? e now raw).toList ++ events) (begin e now raw).1.desk := by
  have hstores := stores_begin e now raw
  generalize event? e now raw = event at hstores hversion ⊢
  generalize (begin e now raw).1 = b at hstores ⊢
  cases hstores with
  | nothing hs hv hh => exact h.keep hs hv hh fun _ _ => Set.notMem_empty _
  | keyed key hs hv hh =>
    have hkeeps : Keeps {e.host.placeOf e.site.keys.path} e.host b.desk.host :=
      hh ▸ KeyStore.keeps_set e.site.keys e.host key
    refine h.keep hs hv hkeeps ?_
    intro name hn
    rw [h.site, ← Archive.placeFor_eq _ h.workingDirectory, Set.mem_singleton_iff]
    exact placeFor_ne_key hk hkeys _ _ hn
  | saved he hw hs hv =>
    obtain ⟨hbump, hname, -⟩ := Export.ofDesk_eq_ok he
    exact h.save (hversion _ _ rfl) hbump hname hw hs hv
  | loaded hs hh => exact h.load hs hh

theorem Recorded.archived (hempty : d.host.children (d.host.placeOf d.site.archive.directory) = [])
    {f : Floor} (h : Recorded d events f)
    (hversions : ∀ now x, .saved now x ∈ events → HostPath.separator ∉ x.version) :
    Archived d events f.desk := by
  induction h with
  | start => exact archived_start hempty
  | host h he hw ih =>
    exact (ih hversions).keep rfl rfl (Host.keeps_of_entries he hw) fun _ _ => Set.notMem_empty _
  | refused h ih => exact (ih hversions).keep rfl rfl (.refl ∅ _) fun _ _ => Set.notMem_empty _
  | line h now raw ih =>
    rw [Floor.desk_settle]
    refine (ih fun time x hx => hversions time x (List.mem_append_right _ hx)).line hk hkeys now raw ?_
    intro time x hx
    exact hversions time x (List.mem_append_left _ (by rw [hx]; exact List.mem_singleton_self _))
  | @progress _ e _ _ p h text ih =>
    rw [Floor.desk_settle]
    exact (ih hversions).keep rfl rfl (.refl ∅ _) fun _ _ => Set.notMem_empty _
  | @signal _ e _ _ p h signal ih =>
    rw [Floor.desk_settle]
    obtain ⟨hs, hh, hv⟩ := undisturbed_continued (p.answer e) p.stage signal
    exact (ih hversions).keep hs hv (hh ▸ .refl ∅ _) fun _ _ => Set.notMem_empty _

end

/-- Over an archive that is empty at the start, whatever lines, replies and failures come in whatever
order: a snapshot that has been exported is there with its bytes unless a later one has its name, and that
one is of the same version and second, with a load in between; and an export makes a file that has not
been there before unless it is such a later one. Nobody else writes there, no exported version holds a
separator, and the key is not called like a snapshot. -/
theorem snapshots_kept (hk : Path.isName d.site.keys.path.name = true)
    (hkeys : Archive.isSnapshotName d.site.keys.path.name = false)
    (hempty : d.host.children (d.host.placeOf d.site.archive.directory) = [])
    {f : Floor} (h : Recorded d events f)
    (hversions : ∀ now x, .saved now x ∈ events → HostPath.separator ∉ x.version) :
    (∀ later now x earlier, events = later ++ .saved now x :: earlier →
      (∀ time y, .saved time y ∈ later → y.filename ≠ x.filename) →
      f.desk.host.readBytes (d.site.archive.pathOf x.filename) = .ok x.bytes) ∧
    (∀ later now y between time x earlier,
      events = later ++ .saved now y :: (between ++ .saved time x :: earlier) →
      y.filename = x.filename →
      y.version = x.version ∧ Version.stamp (.integer now) = Version.stamp (.integer time) ∧
        .loaded ∈ between) ∧
    ∀ now raw time x, event? f.desk now raw = some (.saved time x) →
      HostPath.separator ∉ x.version →
      (∀ past y, .saved past y ∈ events → y.filename ≠ x.filename) →
      f.desk.host.exists? (d.site.archive.pathOf x.filename) = .ok false := by
  have harchived := h.archived hk hkeys hempty hversions
  refine ⟨?_, ?_, ?_⟩
  · intro later now x earlier heq hlast
    have hmem : .saved now x ∈ events := by rw [heq]; simp
    refine Host.readBytes_of_bytesAt? (harchived.ways now x hmem) ?_
    rw [harchived.files _ (isSnapshotName_snapshotName (harchived.named now x hmem)), heq]
    exact lastSaved_of_last hlast
  · intro later now y between time x earlier heq hfile
    have hy := harchived.named now y (by rw [heq]; simp)
    have hx := harchived.named time x (by rw [heq]; simp)
    obtain ⟨hversion, hstamp⟩ := Version.snapshotName_inj hy (hfile ▸ hx)
    exact ⟨hversion, hstamp, harchived.reused later now y between time x earlier heq hfile⟩
  · intro now raw time x hx hversion hnew
    exact harchived.fresh hx hversion hnew

theorem snapshots_kept_twice :
    let d := Desk.bare (Session.withoutHistory ⟨[.directory "src" "/src" []]⟩ "1.0.0")
    let f := settle [] [] (begin d 7000 "export")
    let g := settle f.pending [] (begin f.desk 7000 "export")
    ∃ x y : Export, x.version = "1.0.1" ∧ y.version = "1.0.2" ∧
      g.desk.host.readBytes (d.site.archive.pathOf x.filename) = .ok x.bytes ∧
      g.desk.host.readBytes (d.site.archive.pathOf y.filename) = .ok y.bytes := by
  intro d f g
  have hsaved {event : Option Event} {version : Text}
      (h : (event.bind fun | .saved _ x => some x.version | .loaded => none) = some version) :
      ∃ now x, event = some (.saved now x) ∧ x.version = version := by
    obtain ⟨event, rfl, h⟩ := Option.bind_eq_some_iff.1 h
    cases event with
    | loaded => exact nomatch h
    | saved now x => exact ⟨now, x, rfl, Option.some.inj h⟩
  obtain ⟨time, x, hx, hxv⟩ : ∃ now x, event? d 7000 "export" = some (.saved now x) ∧
      x.version = "1.0.1" := hsaved (by decide +kernel)
  obtain ⟨now, y, hy, hyv⟩ : ∃ now y, event? f.desk 7000 "export" = some (.saved now y) ∧
      y.version = "1.0.2" := hsaved (by decide +kernel)
  have hrecorded : Recorded d [.saved now y, .saved time x] g := by
    have h := Recorded.line (.line (.start (d := d)) 7000 "export") 7000 "export"
    rw [hx] at h
    rw [show event? (settle [] [] (begin d 7000 "export")).desk 7000 "export" = _ from hy] at h
    exact h
  have hversions : ∀ past z, .saved past z ∈ [Event.saved now y, .saved time x] →
      HostPath.separator ∉ z.version := by
    intro past z hz
    rcases List.mem_pair.1 hz with hz | hz
    · obtain ⟨-, rfl⟩ := Event.saved.inj hz
      rw [hyv]
      decide
    · obtain ⟨-, rfl⟩ := Event.saved.inj hz
      rw [hxv]
      decide
  obtain ⟨hkept, hreused, -⟩ :=
    snapshots_kept (d := d) (by decide) (by decide) rfl hrecorded hversions
  refine ⟨x, y, hxv, hyv, hkept [.saved now y] time x [] rfl ?_, hkept [] now y _ rfl nofun⟩
  intro past z hz hsame
  obtain ⟨-, rfl⟩ := Event.saved.inj (List.mem_singleton.1 hz)
  obtain ⟨hversion, -⟩ := hreused [] now z [] time x [] rfl hsame
  rw [hxv, hyv] at hversion
  exact absurd hversion (by decide)

/-- A load brings a version back, and the next export in the same second takes the place of the snapshot
that was exported after it before. -/
theorem overwritten_after_load :
    let d := Desk.bare (Session.withoutHistory ⟨[.directory "src" "/src" []]⟩ "1.0.0")
    let f := settle [] [] (begin d 7000 "export")
    let g := settle f.pending [] (begin f.desk 7000 "export")
    let k := settle g.pending [] (begin g.desk 7000
      "load retrodeck_v1.0.1_1970-01-01T00-00-07.json")
    let l := settle k.pending [] (begin k.desk 7000 "export")
    let saved : List (LineKind × Text) := [(.input, "export"),
      (.success, "SESSION EXPORTED: retrodeck_v1.0.2_1970-01-01T00-00-07.json")]
    let path := d.site.archive.pathOf "retrodeck_v1.0.2_1970-01-01T00-00-07.json"
    d.host.children (d.host.placeOf d.site.archive.directory) = [] ∧
      (∃ events, Recorded d events l) ∧
      (begin f.desk 7000 "export").1.said.map shown = saved ∧
      (begin k.desk 7000 "export").1.said.map shown = saved ∧
      (k.desk.host.exists? path).toOption = some true ∧
      (g.desk.host.readBytes path).toOption.isSome = true ∧
      (l.desk.host.readBytes path).toOption ≠ (g.desk.host.readBytes path).toOption := by
  intro d f g k l saved path
  refine ⟨rfl, ⟨_, .line (.line (.line (.line .start 7000 _) 7000 _) 7000 _) 7000 _⟩, ?_⟩
  decide +kernel

end Shell

end ThreatDesk
