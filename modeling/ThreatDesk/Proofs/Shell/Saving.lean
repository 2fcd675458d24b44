import ThreatDesk.Proofs.Host.Archive
import ThreatDesk.Proofs.Shell.Keeping
import ThreatDesk.Proofs.Shell.Times
import ThreatDesk.Proofs.Snapshot.Version

/-!
# What has been exported is loaded again

The next load without a name finds the snapshot that has just been exported and restores the session from
it (`restored_after_export`): the file is the latest in the archive, its bytes are read back, and its
version is one that can be bumped. The name of the file is made of the version, of which the archive keeps
only what follows the last separator; so the law is about versions without one, and it fails for others
(`lost_after_export`).
-/

namespace ThreatDesk

namespace Shell

open Answer (Says)

/-! ## The export -/

theorem Export.ofDesk_eq_ok {d : Desk} {now : Int} {e : Export} (h : Export.ofDesk d now = .ok e) :
    Version.bump? d.session.version = some e.version ∧
      Version.snapshotName e.version (.integer now) = .ok e.filename ∧
      (Snapshot.ofSession d.session e.version now).toBytes = .ok e.bytes := by
  obtain ⟨version, hv, h⟩ := exists_of_bind_ok h
  obtain ⟨filename, hf, h⟩ := exists_of_bind_ok h
  obtain ⟨bytes, hb, h⟩ := exists_of_bind_ok h
  obtain rfl := Except.ok.inj h
  refine ⟨?_, eq_ok_of_mapError_ok hf, eq_ok_of_mapError_ok hb⟩
  have hbump := eq_ok_of_mapError_ok hv
  unfold Snapshot.bump at hbump
  split at hbump
  · next w hw => exact Except.ok.inj hbump ▸ hw
  · cases hbump

theorem exportSession_of_success {a : Answer} (ha : ∀ l ∈ a.said, l.kind ≠ .success)
    (h : ∃ l ∈ (exportSession a).said, l.kind = .success) :
    ∃ e host path, Export.ofDesk a.desk a.now = .ok e ∧
      a.desk.site.archive.write a.desk.host e.bytes e.filename = (host, .ok path) ∧
      exportSession a = ((a.withHost host).withSession fun s => { s with version := e.version }).success
        ("SESSION EXPORTED: " ++ e.filename) := by
  obtain ⟨l, hl, hk⟩ := h
  have hsilent (b : Answer) (hb : b.said = a.said) {fault : Fault}
      (hl : l ∈ (report b exportLabel fault).said) : False := by
    rcases kind_of_mem_report hl with hl | hl
    · exact ha l (hb ▸ hl) hk
    · exact nomatch hl.symm.trans hk
  have hends := export_cases a
  generalize exportSession a = b at hends hl ⊢
  cases hends with
  | unmade he => exact (hsilent a rfl hl).elim
  | @unwritten e host fault he hw => exact (hsilent (a.withHost host) rfl hl).elim
  | written he hw => exact ⟨_, _, _, he, hw, rfl⟩

theorem begin_of_export {d : Desk} (now : Int) {raw : Text} (hraw : verb? raw = some .exportSession)
    (h : ∃ l ∈ (begin d now raw).1.said, l.kind = .success) :
    ∃ e host, Export.ofDesk (echo d now raw).desk now = .ok e ∧
      d.site.archive.write d.host e.bytes e.filename =
        (host, .ok (d.site.archive.pathOf e.filename)) ∧
      begin d now raw = ((((echo d now raw).withHost host).withSession
        fun s => { s with version := e.version }).success ("SESSION EXPORTED: " ++ e.filename),
        none) := by
  have hbegin : begin d now raw = (exportSession (echo d now raw), none) :=
    begin_of_verb? hraw d now
  have hquiet : ∀ l ∈ (echo d now raw).said, l.kind ≠ .success :=
    List.forall_mem_singleton.2 (by simp [Session.nextLine])
  rw [hbegin] at h ⊢
  obtain ⟨e, host, path, he, hwrite, hexport⟩ := exportSession_of_success hquiet h
  obtain ⟨rfl, -⟩ := Archive.write_cases hwrite
  exact ⟨e, host, he, hwrite, by rw [hexport]⟩

theorem isSnapshotName_snapshotName {version name : Text} {timestamp : Number}
    (h : Version.snapshotName version timestamp = .ok name) : Archive.isSnapshotName name = true := by
  obtain ⟨date, rfl⟩ := Version.snapshotName_eq_ok h
  simpa only [List.append_assoc] using
    Archive.isSnapshotName_append (version ++ ("_" ++ date.fileStamp))

theorem isName_snapshotName {version name : Text} {timestamp : Number}
    (h : Version.snapshotName version timestamp = .ok name) (hv : HostPath.separator ∉ version) :
    Path.isName name = true :=
  Archive.isName_of_isSnapshotName (isSnapshotName_snapshotName h)
    (Version.separator_not_mem_snapshotName h hv)

/-! ## The load after it -/

/-- A snapshot that has been exported is loadable for whoever asks for the latest one. -/
theorem loadable_of_export {d k : Desk} {now : Int} (hw : d.session.tree.WellFormed) (ht : d.Timed)
    (hsource : Baseline.hasSource d.session.tree = true)
    (hversion : HostPath.separator ∉ d.session.version) (hdirectory : d.site.archive.directory.Expanded)
    (holder : d.site.archive.Older (d.host.makeDirectories d.site.archive.directory).1)
    {e : Export} (he : Export.ofDesk d now = .ok e) {path : HostPath}
    (hwrite : d.site.archive.write d.host e.bytes e.filename = (k.host, .ok path))
    (hsite : k.site = d.site) :
    Loadable k [] path.toText ⟨e.version, .integer now, d.session.tree, d.session.lines⟩
        d.session.tree ∧
      d.site.archive.read k.host path.toText = .ok e.bytes ∧
      (HostPath.ofText path.toText).name = e.filename := by
  obtain ⟨hbump, hfilename, hbytes⟩ := Export.ofDesk_eq_ok he
  have hsnapshot : Snapshot.ofSession d.session e.version now =
      ⟨e.version, .integer now, d.session.tree, d.session.lines⟩ := by
    rw [Snapshot.ofSession, if_neg (by simp [Version.bump?_ne_nil hbump])]
  rw [hsnapshot] at hbytes
  -- The name of the file is that of a snapshot, and the archive keeps all of it.
  have hseparator : HostPath.separator ∉ e.filename := by
    refine Version.separator_not_mem_snapshotName hfilename fun h => ?_
    rcases Version.mem_of_bump? hbump h with h | h | h | h
    · exact hversion h
    all_goals exact absurd h (by decide)
  have hname := isSnapshotName_snapshotName hfilename
  obtain ⟨hlatest, hread, hlast, hsize⟩ :=
    Archive.latest_of_write hdirectory hname hseparator holder hwrite
  -- A name that short holds a version that can be bumped again.
  have hlength : e.version.length < Integer.digitLimit := by
    have hlt := Version.length_lt_snapshotName hfilename
    have hle := Host.length_le_nameSize e.filename
    have hlimit : Host.nameLimit < Integer.digitLimit := by decide
    omega
  have hback : Snapshot.ofBytes e.bytes =
      .ok ⟨e.version, .integer now, d.session.tree, d.session.lines⟩ := by
    refine Snapshot.ofBytes_of_toBytes hw ?_ (Version.isSome_bump?_of_bump? hbump hlength) hbytes
    exact List.forall_mem_cons.2 ⟨trivial, List.forall_mem_map.2 ht⟩
  refine ⟨⟨?_, ?_, .kept hsource⟩, hread, hlast⟩
  · rw [loadName, hsite, hlatest]
    rfl
  · rw [readSnapshot, hsite, hread]
    simp only [hback]
    rfl

/-- Whatever a shell has been through, and whatever its version is but for separators: where nothing is
under way and the tree has its modules, an export that succeeds is found by the load that follows, and
the session is what it was when it was written, in its next version and with the report after its
history. The others in the archive were modified before, and no tilde is left in its path. -/
theorem restored_after_export {d : Desk} (hd : d.Sound) (ht : d.Timed) {f : Floor}
    (hf : Floor.Reaches Host.Named ⟨d, []⟩ f) (hidle : f.desk.session.isBusy = false)
    (hsource : Baseline.hasSource f.desk.session.tree = true)
    (hversion : HostPath.separator ∉ f.desk.session.version)
    (hdirectory : f.desk.site.archive.directory.Expanded)
    (holder : f.desk.site.archive.Older
      (f.desk.host.makeDirectories f.desk.site.archive.directory).1)
    (now : Int) {raw : Text} (hraw : verb? raw = some .exportSession)
    (hsuccess : ∃ l ∈ (begin f.desk now raw).1.said, l.kind = .success)
    (later : Int) {line : Text} (hline : isLoad line = true) (hargs : line.words.tail = []) :
    let s := f.desk.session
    let archive := f.desk.site.archive
    let a := (begin f.desk now raw).1
    ∃ version filename bytes,
      Version.bump? s.version = some version ∧
      Version.snapshotName version (.integer now) = .ok filename ∧
      (Snapshot.ofSession (s.say now .input raw) version now).toBytes = .ok bytes ∧
      archive.write f.desk.host bytes filename = (a.desk.host, .ok (archive.pathOf filename)) ∧
      a.said = [s.nextLine now .input raw,
        (s.say now .input raw).nextLine now .success ("SESSION EXPORTED: " ++ filename)] ∧
      a.session.version = version ∧
      loadName a.desk [] = .ok (some (archive.pathOf filename).toText) ∧
      archive.read a.desk.host (archive.pathOf filename).toText = .ok bytes ∧
      (begin a.desk later line).2 = none ∧
      let report := (a.session.say later .input line).nextLines later .system
        (loadReport filename version false)
      (begin a.desk later line).1.desk = { f.desk with
        host := a.desk.host
        session := {
          tree := s.tree
          lines := s.lines ++ s.nextLine now .input raw :: report
          cwd := Path.root
          version := version
          state := .idle
          lastOutcome := s.lastOutcome
          loadedName := filename
          activeFile := none
          drawn := s.drawn
          issued := s.issued + 9
          told := s.told ++ a.said ++ a.session.nextLine later .input line :: report }
        dialogue := [] } := by
  intro s archive a
  have htimed : (echo f.desk now raw).desk.Timed :=
    timed_of_saying (Says.say (f.desk.silent now) .input raw) (hf.timed ht)
  obtain ⟨e, host, he, hwrite, hbegin⟩ := begin_of_export now hraw hsuccess
  obtain ⟨hbump, hfilename, hbytes⟩ := Export.ofDesk_eq_ok he
  obtain ⟨ha, -⟩ := Prod.mk.inj hbegin
  replace ha : a = _ := ha
  have hhost : a.desk.host = host := by rw [ha]; rfl
  have hsite : a.desk.site = f.desk.site := by rw [ha]; rfl
  have hbusy : a.desk.session.isBusy = false := by rw [ha]; exact hidle
  have hversioned : a.session.version = e.version := by rw [ha]; rfl
  have hlast : a.desk.session.lastOutcome = s.lastOutcome := by rw [ha]; rfl
  have hdrawn : a.desk.session.drawn = s.drawn := by rw [ha]; rfl
  have hissued : a.desk.session.issued = s.issued + 2 := by rw [ha]; rfl
  have hsaid : a.said = [s.nextLine now .input raw,
      (s.say now .input raw).nextLine now .success ("SESSION EXPORTED: " ++ e.filename)] := by
    rw [ha]
    rfl
  have htold : a.desk.session.told = s.told ++ a.said := by
    rw [ha]
    exact List.append_assoc ..
  rw [← hhost] at hwrite
  obtain ⟨hload, hread, hname⟩ := loadable_of_export (d := (echo f.desk now raw).desk) (k := a.desk)
    (hf.sound hd).tree htimed hsource hversion hdirectory holder he hwrite hsite
  have hnamed := hload.named
  rw [← hargs] at hload
  obtain ⟨hnone, hdesk⟩ := begin_of_loadable hbusy later hline hload
  have hlines : (echo f.desk now raw).desk.session.lines = s.lines ++ [s.nextLine now .input raw] :=
    rfl
  have hkept : (!Baseline.hasSource (echo f.desk now raw).desk.session.tree) = false := by
    rw [Bool.not_eq_false']
    exact hsource
  refine ⟨e.version, e.filename, e.bytes, hbump, hfilename, hbytes, hwrite, hsaid, hversioned,
    hnamed, hread, hnone, ?_⟩
  rw [hdesk, hname, hkept, hsite, hlast, hdrawn, hissued, htold, hlines, List.append_assoc]
  rfl

theorem restored_after_export_again :
    let tree : Tree := ⟨[.directory "src" "/src" [.file ⟨"a.py", "/src/a.py", some "pass"⟩]]⟩
    let d := Desk.bare (Session.withoutHistory tree "1.0")
    let f : Floor := ⟨{ d with host := { d.host with
      clock := .integer 7
      entries := [(["x"], .directory (.integer 0)),
        (["x", "retrodeck_v9.json"], .file [] (.integer 6) 0o644)] } }, []⟩
    let a := (begin f.desk 7000 "export").1
    let s := (begin a.desk 8000 "load").1.desk.session
    s.tree = tree ∧ s.version = "1.0.1" ∧
      s.loadedName = "retrodeck_v1.0.1_1970-01-01T00-00-07.json" := by
  intro tree d f a s
  have hsound : f.desk.Sound := by
    refine ⟨HostPath.plain_ofText _, HostPath.plain_ofText _, ⟨nofun, by decide +kernel⟩, ?_⟩
    exact ⟨⟨by decide, rfl, ⟨by decide, rfl⟩, by simp, trivial⟩, by simp, trivial⟩
  have hdirectory : f.desk.site.archive.directory.Expanded :=
    ⟨.inr (.inl rfl), HostPath.plain_ofText _, nofun⟩
  have hthere : f.desk.host.isDirectory? f.desk.site.archive.directory = .ok true := rfl
  have holder : f.desk.site.archive.Older f.desk.host := by
    intro place hplace e he _
    have hlocate : f.desk.host.locate f.desk.site.archive.directory = .ok ["x"] := rfl
    obtain rfl := Except.ok.inj (hlocate.symm.trans hplace)
    have hchildren : f.desk.host.children ["x"] =
        [(("retrodeck_v9.json" : Text), HostEntry.file [] (.integer 6) 0o644)] := rfl
    rw [hchildren] at he
    obtain rfl := List.mem_singleton.1 he
    decide
  have hraw : verb? "export" = some .exportSession := by decide
  have hsuccess : ∃ l ∈ (begin f.desk 7000 "export").1.said, l.kind = .success := by decide +kernel
  have hline : isLoad "load" = true := by decide
  obtain ⟨version, filename, bytes, hbump, hfilename, -, -, -, -, -, -, -, hdesk⟩ :=
    restored_after_export hsound (List.forall_mem_nil _) .refl rfl rfl (by decide) hdirectory
      ((Archive.older_made_iff hthere).2 holder) 7000 hraw hsuccess 8000 hline (by decide)
  obtain rfl : version = "1.0.1" := Option.some.inj (hbump.symm.trans (by decide +kernel))
  have hstamp : (Version.snapshotName "1.0.1" (.integer 7000)).toOption =
      some "retrodeck_v1.0.1_1970-01-01T00-00-07.json" := by decide +kernel
  rw [hfilename] at hstamp
  obtain rfl := Option.some.inj hstamp
  have hs : s = _ := congrArg Desk.session hdesk
  rw [hs]
  exact ⟨rfl, rfl, rfl⟩

/-- A loaded version with a separator is exported under a name that no snapshot has in the archive, and
the load that follows finds nothing. -/
theorem lost_after_export :
    let tree : Tree := ⟨[.directory "src" "/src" []]⟩
    let start := Desk.bare (Session.withoutHistory ⟨[]⟩ "1.0")
    let d := { start with host := { start.host with
      clock := .integer 6
      entries := [(["x"], .directory (.integer 0)),
        (["x", "a.json"], .file ((Snapshot.toBytes ⟨"1/2", .integer 0, tree, []⟩).toOption.getD [])
          (.integer 0) 0o644)] } }
    let e := (begin d 6000 "load a.json").1.desk
    let a := (begin e 7000 "export").1
    let b := (begin a.desk 8000 "load").1
    Floor.Reaches Host.Named ⟨d, []⟩ ⟨e, []⟩ ∧
      e.session.isBusy = false ∧ e.session.version = "1/2" ∧
      Baseline.hasSource e.session.tree = true ∧
      a.said.map Line.text =
        ["export", "SESSION EXPORTED: retrodeck_v1/2.1_1970-01-01T00-00-07.json"] ∧
      a.said.map Line.kind = [.input, .success] ∧
      b.said.map Line.text = ["load", "LOAD FAILED: no saved sessions found"] ∧
      b.said.map Line.kind = [.input, .error] := by
  intro tree start d e a b
  have hload : isLoad "load a.json" = true := by decide
  have hstep : Floor.Step Host.Named ⟨d, []⟩ ⟨e, []⟩ := by
    have h := @Floor.Step.line Host.Named ⟨d, []⟩ 6000 "load a.json"
    rwa [begin_of_isLoad hload] at h
  refine ⟨.single hstep, ?_⟩
  decide +kernel

/- An archive whose path begins with a tilde is written where the path says, and read in a home. -/
example :
    let start := Desk.bare (Session.withoutHistory ⟨[.directory "src" "/src" []]⟩ "1.0")
    let d := { start with site := { start.site with archive := ⟨HostPath.ofText "~/x"⟩ } }
    let a := (begin d 7000 "export").1
    let b := (begin a.desk 8000 "load").1
    a.said.map Line.kind = [.input, .success] ∧ b.said.map Line.kind = [.input, .error] := by
  decide +kernel

end Shell

end ThreatDesk
