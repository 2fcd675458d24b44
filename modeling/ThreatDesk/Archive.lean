import ThreatDesk.Host.Store

/-!
# The archive of snapshots

Files of one directory. A snapshot is written under the last part of its name, and found again by its
path, or by its name in the directory.
-/

namespace ThreatDesk

structure Archive where
  directory : HostPath

namespace Archive

def pathOf (a : Archive) (filename : Text) : HostPath :=
  a.directory.child (HostPath.ofText filename).name

def write (a : Archive) (h : Host) (bytes : Bytes) (filename : Text) :
    Host × Except Host.Fault HostPath :=
  match h.makeDirectories a.directory with
  | (made, some fault) => (made, .error fault)
  | (made, none) =>
    let path := a.pathOf filename
    match made.writeBytes path bytes with
    | .error fault => (made, .error fault)
    | .ok written => (written, .ok path)

/-- The file that a name means: itself if it is there, or else the one in the archive. -/
def resolve (a : Archive) (h : Host) (name : Text) : Except Host.Fault HostPath :=
  match h.expandUser (HostPath.ofText name) with
  | .error fault => .error fault
  | .ok path =>
    match h.exists? path with
    | .error fault => .error fault
    | .ok true => .ok path
    | .ok false => .ok (a.directory.child name)

def read (a : Archive) (h : Host) (name : Text) : Except Host.Fault Bytes :=
  match a.resolve h name with
  | .error fault => .error fault
  | .ok path => h.readBytes path

def isSnapshotName (name : Text) : Bool :=
  match Text.after? "retrodeck_v" name with
  | some rest => rest.endsWith ".json"
  | none => false

/-- Whether the first of two entries is older, or of the same time and not after it by name. -/
def notAfter (a b : Text × HostEntry) : Bool :=
  if a.2.modified.lt b.2.modified then true
  else if b.2.modified.lt a.2.modified then false
  else Text.le a.1 b.1

def newest : List (Text × HostEntry) → Option (Text × HostEntry)
  | [] => none
  | e :: es =>
    match newest es with
    | none => some e
    | some f => if notAfter e f then some f else some e

def latest (a : Archive) (h : Host) : Except Host.Fault (Option HostPath) :=
  match h.isDirectory? a.directory with
  | .error fault => .error fault
  | .ok false => .ok none
  | .ok true =>
    match h.locate a.directory with
    | .error fault => .error fault
    | .ok place =>
      let snapshots := (h.children place).filter fun (name, _) => isSnapshotName name
      .ok ((newest snapshots).map fun (name, _) =>
        ⟨a.directory.anchor, a.directory.parts ++ [name]⟩)

end Archive

end ThreatDesk
