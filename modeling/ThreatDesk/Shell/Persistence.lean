import ThreatDesk.Shell.Desk
import ThreatDesk.Snapshot.Basic

/-!
# Saving and loading

A session is exported as a snapshot under its next version, and a snapshot takes the place of a
session. Either happens in full or not at all.
-/

namespace ThreatDesk

namespace Shell

/-! ## Export -/

structure Export where
  version : Text
  filename : Text
  bytes : Bytes

def Export.ofDesk (d : Desk) (now : Int) : Except Fault Export := do
  let version ← (Snapshot.bump d.session.version).mapError .snapshot
  let snapshot := Snapshot.ofSession d.session version now
  let filename ← (Version.snapshotName version snapshot.timestamp).mapError .calendar
  let bytes ← snapshot.toBytes.mapError Fault.ofWrite
  return ⟨version, filename, bytes⟩

/-- Report a fault under the label, or as one that the command does not report itself. -/
def report (a : Answer) (label : Text) (fault : Fault) : Answer :=
  if fault.isReported then a.error (label ++ fault.message) else a.fail fault

def exportLabel : Text := "EXPORT FAILED: "

def exportSession (a : Answer) : Answer :=
  match Export.ofDesk a.desk a.now with
  | .error fault => report a exportLabel fault
  | .ok e =>
    match a.desk.site.archive.write a.desk.host e.bytes e.filename with
    | (host, .error fault) => report (a.withHost host) exportLabel (.host fault)
    | (host, .ok _) =>
      ((a.withHost host).withSession fun s => { s with version := e.version }).success
        ("SESSION EXPORTED: " ++ e.filename)

/-! ## Load -/

def loadLabel : Text := "LOAD FAILED: "

/-- The name to load: the one given, or else the path of the latest snapshot, if there is any. -/
def loadName (d : Desk) : List Text → Except Host.Fault (Option Text)
  | name :: _ => .ok (some name)
  | [] => (d.site.archive.latest d.host).map fun path => path.map HostPath.toText

def readSnapshot (d : Desk) (name : Text) : Except Fault Snapshot :=
  match d.site.archive.read d.host name with
  | .error fault => .error (.host fault)
  | .ok bytes => (Snapshot.ofBytes bytes).mapError Fault.ofRead

/-- What is said of a snapshot that has been loaded; `added` tells whether it lacked the modules. -/
def loadReport (name version : Text) (added : Bool) : List Text :=
  ["INITIATING SYSTEM RESTORE...",
   "READING IMAGE: " ++ name,
   "SNAPSHOT VERSION: " ++ version,
   "CURRENT KERNEL: " ++ Baseline.version,
   if added then "SOURCE INTEGRITY: RESTORED DEFAULTS (MISSING)"
   else "SOURCE INTEGRITY: VERIFIED (USER EDITS PRESERVED)",
   "SYSTEM REBOOT COMPLETE."]

def restore (d : Desk) (name : Text) (snapshot : Snapshot) :
    Except Host.Fault (Desk × List Text) :=
  (Snapshot.restore d.session snapshot d.modules).map fun (session, added) =>
    let loaded := (HostPath.ofText name).name
    ({ d with session := { session with loadedName := loaded }, dialogue := [] },
      loadReport loaded snapshot.version added)

def loadNamed (a : Answer) (name : Text) : Answer :=
  match readSnapshot a.desk name with
  | .error fault => report a loadLabel fault
  | .ok snapshot =>
    match restore a.desk name snapshot with
    | .error fault => a.fail (.host fault)
    | .ok (desk, report) => { a with desk }.sayAll .system report

def load (a : Answer) (args : List Text) : Answer :=
  if a.session.isBusy then a.error "BUSY."
  else
    match loadName a.desk args with
    | .error fault => a.fail (.host fault)
    | .ok none => a.error (loadLabel ++ "no saved sessions found")
    | .ok (some name) => loadNamed a name

end Shell

end ThreatDesk
