import ThreatDesk.Proofs.Shell.Saving

/-!
# An export happens in full or not at all

The session gets its next version only when the snapshot of that version is in the archive, and whatever
goes wrong before leaves nothing in it but the complaint. Main statement: `exported_begin`.
-/

namespace ThreatDesk

namespace Shell

/-- What has come of an export line: the snapshot is stored, with the line itself at the end of its history
and under the version that the session has from now on, or there is an error and the session has it in its
history. -/
inductive Exported (d : Desk) (now : Int) (raw : Text) (b : Answer) : Prop
  | stored {version filename : Text} {bytes : Bytes}
    (hversion : Version.bump? d.session.version = some version)
    (hfilename : Version.snapshotName version (.integer now) = .ok filename)
    (hbytes : Snapshot.toBytes ⟨version, .integer now, d.session.tree,
      d.session.lines ++ [d.session.nextLine now .input raw]⟩ = .ok bytes)
    (hfile : b.desk.host.readBytes
      (d.site.archive.directory.child (HostPath.ofText filename).name) = .ok bytes)
    (hsaid : b.said = [d.session.nextLine now .input raw,
      (d.session.say now .input raw).nextLine now .success ("SESSION EXPORTED: " ++ filename)])
    (hdesk : b.desk = { d with
      host := b.desk.host
      session := { d.session with
        version := version
        lines := d.session.lines ++ b.said
        issued := d.session.issued + 2
        told := d.session.told ++ b.said } })
  | refused {text : Text}
    (hsaid : b.said = [d.session.nextLine now .input raw,
      (d.session.say now .input raw).nextLine now .error text])
    (hdesk : b.desk = { d with
      host := b.desk.host
      session := { d.session with
        lines := d.session.lines ++ b.said
        issued := d.session.issued + 2
        told := d.session.told ++ b.said } })

theorem desk_answered (d : Desk) (now : Int) (raw : Text) (host : Host) (version : Text)
    (kind : LineKind) (text : Text) :
    let said := [d.session.nextLine now .input raw, (d.session.say now .input raw).nextLine now kind text]
    ((((echo d now raw).withHost host).withSession fun s => { s with version := version }).say
      kind text).desk = { d with
        host := host
        session := { d.session with
          version := version
          lines := d.session.lines ++ said
          issued := d.session.issued + 2
          told := d.session.told ++ said } } :=
  congrArg₂ (fun lines told => { d with
    host := host
    session := { d.session with
      version := version, lines := lines, issued := d.session.issued + 2, told := told } })
    (List.append_assoc ..) (List.append_assoc ..)

theorem exported_report (d : Desk) (now : Int) (raw : Text) (host : Host) (fault : Fault) :
    Exported d now raw (report ((echo d now raw).withHost host) exportLabel fault) := by
  obtain ⟨text, htext⟩ := report_eq ((echo d now raw).withHost host) exportLabel fault
  rw [htext]
  exact .refused rfl (desk_answered d now raw host d.session.version .error text)

/-- An export line is done at once, whatever the desk: either all of it has happened or none. -/
theorem exported_begin (d : Desk) (now : Int) {raw : Text} (hraw : verb? raw = some .exportSession) :
    (begin d now raw).2 = none ∧ Exported d now raw (begin d now raw).1 := by
  rw [begin_of_verb? hraw d now]
  refine ⟨rfl, ?_⟩
  have hends := export_cases (echo d now raw)
  show Exported d now raw (exportSession (echo d now raw))
  generalize exportSession (echo d now raw) = b at hends
  cases hends with
  | unmade he => exact exported_report d now raw d.host _
  | @unwritten e host fault he hw => exact exported_report d now raw host _
  | @written e host path he hw =>
    obtain ⟨hversion, hfilename, hbytes⟩ := Export.ofDesk_eq_ok he
    rw [Snapshot.ofSession, if_neg (by simp [Version.bump?_ne_nil hversion])] at hbytes
    exact .stored hversion hfilename hbytes (Archive.readBytes_of_write hw) rfl
      (desk_answered d now raw host e.version .success _)

theorem exported_and_refused :
    let d (version : Text) := Desk.bare (Session.withoutHistory ⟨[.directory "src" "/src" []]⟩ version)
    let raw : Text := " EXPORT now"
    let kinds (version : Text) := (begin (d version) 7000 raw).1.said.map Line.kind
    verb? raw = some .exportSession ∧
      (Exported (d "1.0.9") 7000 raw (begin (d "1.0.9") 7000 raw).1 ∧
        kinds "1.0.9" = [.input, .success]) ∧
      Exported (d "1.0.x") 7000 raw (begin (d "1.0.x") 7000 raw).1 ∧
        kinds "1.0.x" = [.input, .error] := by
  intro d raw kinds
  have hraw : verb? raw = some .exportSession := by decide
  have hstored : kinds "1.0.9" = [.input, .success] := by decide +kernel
  have hrefused : kinds "1.0.x" = [.input, .error] := by decide +kernel
  exact ⟨hraw, ⟨(exported_begin (d "1.0.9") 7000 hraw).2, hstored⟩,
    (exported_begin (d "1.0.x") 7000 hraw).2, hrefused⟩

end Shell

end ThreatDesk
