import ThreatDesk.Proofs.Host.Faults
import ThreatDesk.Proofs.Shell.Saving
import ThreatDesk.Proofs.Snapshot.Rewritten

/-!
# How saving and loading fail

An export or a load that fails says so under its own label and leaves the session alone
(`persistence_reported`), as long as nothing else than the system and the document can object: paths and
texts are made of characters that can be passed on, a tilde stands for a home that is known, and numbers and
trees are small enough. What else can object is not reported as a failure to save or to load
(`persistence_unreported`).
-/

namespace ThreatDesk

open Host (nameFault? nameFault?_eq_none_iff)
open Json.Reader (TooLong)

/-! ## Texts that can be passed on -/

def Text.IsProper (t : Text) : Prop := ∀ c ∈ t, c.isSurrogate = false ∧ c.val ≠ 0

namespace Text

theorem isProper_append {s t : Text} : IsProper (s ++ t) ↔ IsProper s ∧ IsProper t :=
  List.forall_mem_append

theorem IsProper.isScalar {t : Text} (h : t.IsProper) : t.IsScalar := fun c hc => (h c hc).1

theorem IsProper.nameFault? {t : Text} (h : t.IsProper) : Host.nameFault? t = none :=
  nameFault?_eq_none_iff.2 fun c hc => ⟨.inl (h c hc).1, (h c hc).2⟩

theorem proper_of_isDigit {c : CodePoint} (h : c.isDigit = true) :
    c.isSurrogate = false ∧ c.val ≠ 0 := by
  simp only [CodePoint.isDigit, Bool.and_eq_true, decide_eq_true_eq] at h
  simp only [CodePoint.isSurrogate, Bool.and_eq_false_iff, decide_eq_false_iff_not]
  omega

end Text

namespace Version

theorem isProper_of_bump? {v w : Text} (h : bump? v = some w) (hv : v.IsProper) : w.IsProper := by
  intro c hc
  rcases mem_of_bump? h hc with hc | hc | rfl | rfl
  · exact hv c hc
  · exact Text.proper_of_isDigit hc
  · decide
  · decide

theorem isProper_snapshotName {v name : Text} {timestamp : Number}
    (h : snapshotName v timestamp = .ok name) (hv : v.IsProper) : name.IsProper := by
  obtain ⟨date, rfl⟩ := snapshotName_eq_ok h
  have hstamp : Text.IsProper date.fileStamp := by
    intro c hc
    rcases mem_fileStamp hc with hc | rfl | rfl
    · exact Text.proper_of_isDigit hc
    · decide
    · decide
  have hstart : Text.IsProper "retrodeck_v" := by unfold Text.IsProper; decide
  have hbetween : Text.IsProper "_" := by unfold Text.IsProper; decide
  have hend : Text.IsProper ".json" := by unfold Text.IsProper; decide
  simp only [Text.isProper_append]
  exact ⟨⟨⟨⟨hstart, hv⟩, hbetween⟩, hstamp⟩, hend⟩

end Version

/-! ## Sessions that have bytes -/

/-- What a session has to meet for its snapshot to have bytes and a name. -/
structure Session.Encodable (s : Session) : Prop where
  version : s.version.IsProper
  nodes : Node.IsScalarAll s.tree.children
  lines : ∀ l ∈ s.lines, l.id.IsScalar ∧ l.text.IsScalar
  times : ∀ l ∈ s.lines, ∃ text, l.timestamp.written = .ok text
  shallow : Json.nestingItems (Snapshot.nodesToJson s.tree.children) + 2 ≤ Json.nestingLimit

theorem Session.Encodable.say {s : Session} (h : s.Encodable) {now : Int}
    (hnow : ∃ text, (Number.integer now).written = .ok text) (kind : LineKind) {text : Text}
    (ht : text.IsScalar) : (s.say now kind text).Encodable where
  version := h.version
  nodes := h.nodes
  lines := List.forall_mem_append.2
    ⟨h.lines, List.forall_mem_singleton.2 ⟨Text.isScalar_hex 8 _, ht⟩⟩
  times := List.forall_mem_append.2 ⟨h.times, List.forall_mem_singleton.2 hnow⟩
  shallow := h.shallow

namespace Snapshot

theorem nestingItems_lines_le (lines : List Line) :
    Json.nestingItems (lines.map lineToJson) ≤ 1 :=
  Json.nestingItems_le_iff.2 (List.forall_mem_map.2 fun _ _ => Nat.le_refl 1)

theorem nesting_ofSession {s : Session} (h : s.Encodable) (version : Text) (now : Int) :
    (ofSession s version now).toJson.nesting ≤ Json.nestingLimit := by
  have hlines := nestingItems_lines_le s.lines
  have hshallow := h.shallow
  have hlimit : 3 ≤ Json.nestingLimit := by decide
  simp only [toJson, ofSession, Json.nesting, Json.nestingFields]
  omega

theorem toBytes_ofSession {s : Session} (h : s.Encodable) (hw : s.tree.WellFormed) {version : Text}
    (hv : version.IsScalar) {now : Int} (hnow : ∃ text, (Number.integer now).written = .ok text) :
    ∃ bytes, (ofSession s version now).toBytes = .ok bytes := by
  have hversion : (ofSession s version now).version.IsScalar := by
    unfold ofSession
    simp only
    split
    · exact h.version.isScalar
    · exact hv
  apply exists_toBytes
  · exact scalar_toJson hversion hw h.nodes h.lines
  · exact List.forall_mem_cons.2 ⟨hnow, List.forall_mem_map.2 h.times⟩
  · exact nesting_ofSession h version now

end Snapshot

namespace Shell

/-! ## Export -/

structure Datable (now : Int) : Prop where
  date : ∃ date, Calendar.ofMilliseconds (.integer now) = .ok date
  written : ∃ text, (Number.integer now).written = .ok text

theorem Export.ofDesk_cases {d : Desk} {now : Int} (hs : d.session.Encodable)
    (hw : d.session.tree.WellFormed) (hnow : Datable now) :
    (∃ e, Export.ofDesk d now = .ok e ∧ nameFault? e.filename = none) ∨
      ∃ fault, Export.ofDesk d now = .error (.snapshot fault) := by
  unfold Export.ofDesk Snapshot.bump
  cases hv : Version.bump? d.session.version with
  | none => exact .inr ⟨_, rfl⟩
  | some version =>
    have hproper := Version.isProper_of_bump? hv hs.version
    obtain ⟨bytes, hb⟩ := Snapshot.toBytes_ofSession hs hw hproper.isScalar hnow.written
    obtain ⟨date, hdate⟩ := hnow.date
    have hname : Version.snapshotName version (.integer now) =
        .ok ("retrodeck_v" ++ version ++ "_" ++ date.fileStamp ++ ".json") := by
      rw [Version.snapshotName, hdate]
      rfl
    refine .inl ⟨⟨version, _, bytes⟩, ?_, (Version.isProper_snapshotName hname hproper).nameFault?⟩
    show ((Version.snapshotName version (.integer now)).mapError Fault.calendar >>= fun filename =>
      (Snapshot.ofSession d.session version now).toBytes.mapError Fault.ofWrite >>= fun bytes =>
        Except.ok (⟨version, filename, bytes⟩ : Export)) = _
    rw [hname, hb]
    rfl

theorem export_ends {a : Answer} (hs : a.desk.session.Encodable)
    (hw : a.desk.session.tree.WellFormed) (hnow : Datable a.now)
    (hd : a.desk.site.archive.directory.Nameable) :
    (∃ version filename host, exportSession a =
      ((a.withHost host).withSession fun s => { s with version := version }).success
        ("SESSION EXPORTED: " ++ filename)) ∨
      ∃ host message, exportSession a = (a.withHost host).error (exportLabel ++ message) := by
  have hmade := Export.ofDesk_cases hs hw hnow
  have hends := export_cases a
  generalize exportSession a = b at hends ⊢
  cases hends with
  | unmade he =>
    rcases hmade with ⟨e, hok, -⟩ | ⟨fault, hfault⟩
    · exact nomatch he.symm.trans hok
    · obtain rfl := Except.error.inj (he.symm.trans hfault)
      exact .inr ⟨a.desk.host, _, rfl⟩
  | @unwritten e host fault he hwrite =>
    rcases hmade with ⟨made, hok, hname⟩ | ⟨fault, hfault⟩
    · obtain rfl := Except.ok.inj (he.symm.trans hok)
      have hsystem := Archive.isSystem_of_write hd hname (congrArg Prod.snd hwrite)
      exact .inr ⟨host, fault.message, if_pos hsystem⟩
    · exact nomatch he.symm.trans hfault
  | written he hwrite => exact .inl ⟨_, _, _, rfl⟩

/-! ## Load -/

/-- What a name has to meet for the file under it to be read as a snapshot or not at all. -/
structure Legible (d : Desk) (name : Text) : Prop where
  nameable : nameFault? name = none
  home : ∃ path, d.host.expandUser (HostPath.ofText name) = .ok path
  digits : ∀ bytes, d.site.archive.read d.host name = .ok bytes →
    ∀ document, (Snapshot.Payload.bytes bytes).document? = some document →
      ∀ fault, ¬ TooLong document fault

theorem readSnapshot_cases {d : Desk} {name : Text} (hd : d.site.archive.directory.Nameable)
    (hn : Legible d name) :
    (∃ snapshot, readSnapshot d name = .ok snapshot) ∨
      ∃ fault : Fault, readSnapshot d name = .error fault ∧ fault.isReported = true := by
  unfold readSnapshot
  cases hr : d.site.archive.read d.host name with
  | error fault => exact .inr ⟨_, rfl, Archive.isSystem_of_read hd hn.nameable hn.home hr⟩
  | ok bytes =>
    rcases Snapshot.Payload.snapshot_cases (.bytes bytes) with ⟨s, hs⟩ | ⟨fault, hf⟩ | hlong
    · have hs : Snapshot.ofBytes bytes = .ok s := hs
      exact .inl ⟨s, by simp only [hs]; rfl⟩
    · have hf : Snapshot.ofBytes bytes = .error (.rejected fault) := hf
      exact .inr ⟨.snapshot fault, by simp only [hf]; rfl, rfl⟩
    · obtain ⟨document, fault, hdocument, htoo, -⟩ := hlong
      exact absurd htoo (hn.digits bytes hr document hdocument fault)

theorem latest_ok {a : Archive} {h : Host} (hd : ∃ there, h.isDirectory? a.directory = .ok there) :
    ∃ found, a.latest h = .ok found := by
  obtain ⟨there, hd⟩ := hd
  unfold Archive.latest
  rw [hd]
  cases there with
  | false => exact ⟨none, rfl⟩
  | true =>
    obtain ⟨entry, hlookup, hentry⟩ := exists_of_map_ok hd
    unfold Host.lookup at hlookup
    split at hlookup
    · next place hl =>
      simp only [hl]
      exact ⟨_, rfl⟩
    · exact nomatch hlookup
    · obtain rfl := Except.ok.inj hlookup
      exact nomatch hentry

/-- What a load with those arguments has to find. -/
structure Loading (d : Desk) (args : List Text) : Prop where
  place : args = [] → ∃ there, d.host.isDirectory? d.site.archive.directory = .ok there
  legible : ∀ name, loadName d args = .ok (some name) → Legible d name
  modules : ∃ modules, d.modules = .ok modules

theorem Loading.named {d : Desk} {args : List Text} (h : Loading d args) :
    ∃ found, loadName d args = .ok found := by
  cases args with
  | nil =>
    obtain ⟨found, hfound⟩ := latest_ok (h.place rfl)
    refine ⟨found.map HostPath.toText, ?_⟩
    rw [loadName, hfound]
    rfl
  | cons name args => exact ⟨some name, rfl⟩

theorem restore_ok {d : Desk} (hm : ∃ modules, d.modules = .ok modules) (name : Text)
    (snapshot : Snapshot) :
    ∃ e added, restore d name snapshot =
      .ok (e, loadReport (HostPath.ofText name).name snapshot.version added) := by
  obtain ⟨modules, hm⟩ := hm
  unfold restore Snapshot.restore Baseline.reconcile
  rw [hm]
  split
  · exact ⟨_, false, rfl⟩
  · exact ⟨_, true, rfl⟩

theorem load_ends {a : Answer} {args : List Text} (hd : a.desk.site.archive.directory.Nameable)
    (h : Loading a.desk args) :
    (a.session.isBusy = true ∧ load a args = a.error "BUSY.") ∨
      (∃ name version added, (load a args).said.map shown =
        a.said.map shown ++ (loadReport name version added).map (.system, ·)) ∨
      ∃ message, load a args = a.error (loadLabel ++ message) := by
  unfold load
  split
  · next hbusy => exact .inl ⟨hbusy, rfl⟩
  · obtain ⟨found, hfound⟩ := h.named
    rw [hfound]
    cases found with
    | none => exact .inr (.inr ⟨_, rfl⟩)
    | some name =>
      rcases readSnapshot_cases hd (h.legible name hfound) with ⟨snapshot, hs⟩ | ⟨fault, hs, hf⟩
      · obtain ⟨e, added, hr⟩ := restore_ok h.modules name snapshot
        have hload : loadNamed a name = ({ a with desk := e } : Answer).sayAll .system
            (loadReport (HostPath.ofText name).name snapshot.version added) := by
          rw [loadNamed, hs]
          simp only [hr]
        refine .inr (.inl ⟨(HostPath.ofText name).name, snapshot.version, added, ?_⟩)
        show (loadNamed a name).said.map shown = _
        rw [hload, shown_sayAll]
      · have hload : loadNamed a name = a.error (loadLabel ++ fault.message) := by
          rw [loadNamed, hs]
          exact if_pos hf
        exact .inr (.inr ⟨fault.message, hload⟩)

/-! ## Lines -/

/-- Whatever a shell has been through, and whatever stands on the host: an export or a load succeeds, is
turned away, or says under its label what the system or the document objects to, and then the session is as
it was but for that. Paths and texts are made of characters that can be passed on, no number and no tree is
too large, and the clock, the home and the modules can be made out. -/
theorem persistence_reported {d : Desk} (hd : d.Sound) {f : Floor}
    (hf : Floor.Reaches Host.Named ⟨d, []⟩ f)
    (harchive : f.desk.site.archive.directory.Nameable) (now : Int) (raw : Text) :
    (verb? raw = some .exportSession → f.desk.session.Encodable → raw.IsScalar → Datable now →
      (∃ version filename host, begin f.desk now raw =
        ((((echo f.desk now raw).withHost host).withSession fun s =>
          { s with version := version }).success ("SESSION EXPORTED: " ++ filename), none)) ∨
      ∃ host message, begin f.desk now raw =
        (((echo f.desk now raw).withHost host).error (exportLabel ++ message), none)) ∧
    (isLoad raw = true → Loading f.desk raw.words.tail →
      (f.desk.session.isBusy = true ∧
        begin f.desk now raw = ((echo f.desk now raw).error "BUSY.", none)) ∨
      ((begin f.desk now raw).2 = none ∧
        ∃ name version added, (begin f.desk now raw).1.said.map shown =
          (.input, raw) :: (loadReport name version added).map (.system, ·)) ∨
      ∃ message, begin f.desk now raw =
        ((echo f.desk now raw).error (loadLabel ++ message), none)) := by
  constructor
  · intro hverb hsession hraw hnow
    have hwell : (echo f.desk now raw).desk.session.tree.WellFormed := (hf.sound hd).tree
    have hecho : (echo f.desk now raw).desk.session.Encodable :=
      hsession.say hnow.written .input hraw
    rw [begin_of_verb? hverb]
    rcases export_ends hecho hwell hnow harchive with
      ⟨version, filename, host, h⟩ | ⟨host, message, h⟩
    · exact .inl ⟨version, filename, host, congrArg (·, none) h⟩
    · exact .inr ⟨host, message, congrArg (·, none) h⟩
  · intro hline hloading
    -- The echo changes nothing that a load goes by.
    have hecho : Loading (echo f.desk now raw).desk raw.words.tail :=
      ⟨hloading.place, fun name hn => ⟨(hloading.legible name hn).1, (hloading.legible name hn).2,
        (hloading.legible name hn).3⟩, hloading.modules⟩
    rw [begin_of_isLoad hline]
    rcases load_ends harchive hecho with ⟨hbusy, h⟩ | ⟨name, version, added, h⟩ | ⟨message, h⟩
    · exact .inl ⟨hbusy, congrArg (·, none) h⟩
    · exact .inr (.inl ⟨rfl, name, version, added, h⟩)
    · exact .inr (.inr ⟨message, congrArg (·, none) h⟩)

theorem persistence_reported_missing :
    let d := Desk.bare (Session.withoutHistory ⟨[.directory "src" "/src" []]⟩ "1.0")
    (∃ version filename host, begin d 7000 "export" =
      ((((echo d 7000 "export").withHost host).withSession fun s =>
        { s with version := version }).success ("SESSION EXPORTED: " ++ filename), none)) ∧
      ∃ message, begin d 7000 "load a.json" =
        ((echo d 7000 "load a.json").error (loadLabel ++ message), none) := by
  intro d
  have hsound : d.Sound := by
    refine ⟨HostPath.plain_ofText _, HostPath.plain_ofText _, ⟨nofun, nofun⟩, ?_⟩
    exact ⟨⟨by decide, rfl, trivial⟩, by simp, trivial⟩
  have harchive : d.site.archive.directory.Nameable := HostPath.nameable_ofText (by decide)
  have hexport := (persistence_reported hsound .refl harchive 7000 "export").1
  have hload := (persistence_reported hsound .refl harchive 7000 "load a.json").2
  have hsession : d.session.Encodable := by
    constructor
    · unfold Text.IsProper; decide
    · exact ⟨⟨Text.isScalar_ofString _, trivial⟩, trivial⟩
    · exact List.forall_mem_nil _
    · exact List.forall_mem_nil _
    · decide
  have hnow : Datable 7000 :=
    ⟨exists_of_isSome_toOption (by decide +kernel), exists_of_isSome_toOption (by decide +kernel)⟩
  have hloading : Loading d ["a.json"] := by
    refine ⟨nofun, ?_, exists_of_isSome_toOption (by decide +kernel)⟩
    intro name hname
    obtain rfl : "a.json" = name := Option.some.inj (Except.ok.inj hname)
    refine ⟨by decide, ⟨_, rfl⟩, ?_⟩
    intro bytes hread
    have hnone : (d.site.archive.read d.host "a.json").toOption.isSome = false := by decide +kernel
    rw [hread] at hnone
    exact nomatch hnone
  constructor
  · rcases hexport (by decide) hsession (Text.isScalar_ofString _) hnow with h | ⟨host, message, h⟩
    · exact h
    · have hkinds : (begin d 7000 "export").1.said.map Line.kind = [.input, .success] := by
        decide +kernel
      rw [h] at hkinds
      exact nomatch hkinds
  · have hkinds : (begin d 7000 "load a.json").1.said.map Line.kind = [.input, .error] := by
      decide +kernel
    rcases hload (by decide) hloading with ⟨hbusy, -⟩ | ⟨-, name, version, added, h⟩ | h
    · exact nomatch hbusy
    · have hlength := congrArg List.length h
      have hshort := congrArg List.length hkinds
      simp [loadReport] at hlength hshort
      omega
    · exact h

/-- A user who has no home, and a version with a character that no path has, end a load and an export
without their label. -/
theorem persistence_unreported :
    let start := Desk.bare (Session.withoutHistory ⟨[]⟩ "1.0")
    let d := { start with host := { start.host with entries := [(["x"], .directory 0),
      (["x", "a.json"], .file ((Snapshot.toBytes ⟨"1\x00", 0, ⟨[]⟩, []⟩).toOption.getD []) 0
        0o644)] } }
    let e := (begin d 6000 "load a.json").1.desk
    Floor.Reaches Host.Named ⟨d, []⟩ ⟨e, []⟩ ∧
      (begin d 6000 "load ~nobody/x").1.said.map shown =
        [(LineKind.input, ("load ~nobody/x" : Text)),
          (LineKind.error, ("CRITICAL ERROR: Could not determine home directory." : Text))] ∧
      (begin e 7000 "export").1.said.map shown =
        [(LineKind.input, ("export" : Text)),
          (LineKind.error, ("CRITICAL ERROR: embedded null byte" : Text))] := by
  intro start d e
  have hload : isLoad "load a.json" = true := by decide
  have hstep : Floor.Step Host.Named ⟨d, []⟩ ⟨e, []⟩ := by
    have h := @Floor.Step.line Host.Named ⟨d, []⟩ 6000 "load a.json"
    rwa [begin_of_isLoad hload] at h
  refine ⟨.single hstep, ?_⟩
  decide +kernel

end Shell

end ThreatDesk
