import ThreatDesk.Session.Basic
import ThreatDesk.Json.Printer
import ThreatDesk.Json.Reader
import ThreatDesk.Encoding.Utf8

/-!
# Snapshots

A session as a JSON document and back. Reading checks everything before anything is built; paths are
computed from where a node stands, and of several nodes of one name the last one counts.

A version is text in dotted components. Bumping counts the third one up, and gives a shorter version
another component.
-/

namespace ThreatDesk

/-! ## Versions -/

namespace Version

def dot : CodePoint := '.'

/-- The version with its third component, which `bumped` holds. -/
def withThird (components : List Text) (bumped : Text) : Text :=
  Text.intercalate "." (components.take 2 ++ bumped :: components.drop 3)

/-- The next version; none if the third component is no integer. -/
def bump? (version : Text) : Option Text :=
  let components := version.splitOn dot
  match components[2]? with
  | none => some (version ++ ".1")
  | some third =>
    match Integer.ofText third with
    | .error _ => none
    | .ok n =>
      match Integer.toText (n + 1) with
      | .error _ => none
      | .ok bumped => some (withThird components bumped)

def snapshotName (version : Text) (timestamp : Number) : Except Calendar.Fault Text :=
  (Calendar.ofMilliseconds timestamp).map fun date =>
    "retrodeck_v" ++ version ++ "_" ++ date.fileStamp ++ ".json"

end Version

/-! ## Snapshots -/

structure Snapshot where
  version : Text
  timestamp : Number
  tree : Tree
  lines : List Line
deriving DecidableEq

namespace Snapshot

/-! ## Writing -/

mutual

def nodeToJson : Node → Json
  | .file f =>
    let content : Json.Fields :=
      match f.content with
      | some t => [("content", .text t)]
      | none => []
    .object (("name", .text f.name) :: ("type", .text "file") :: ("path", .text f.path) :: content)
  | .directory name path children =>
    .object [("name", .text name), ("type", .text "directory"), ("path", .text path),
      ("children", .array (nodesToJson children))]

def nodesToJson : List Node → List Json
  | [] => []
  | n :: ns => nodeToJson n :: nodesToJson ns

end

def lineToJson (l : Line) : Json :=
  .object [("id", .text l.id), ("type", .text l.kind.toText), ("text", .text l.text),
    ("timestamp", .number l.timestamp)]

def toJson (s : Snapshot) : Json :=
  .object [("version", .text s.version), ("timestamp", .number s.timestamp),
    ("files", .array (nodesToJson s.tree.children)),
    ("terminalLines", .array (s.lines.map lineToJson))]

def toText (s : Snapshot) : Text := s.toJson.toDocument

def times (s : Snapshot) : List Number := s.timestamp :: s.lines.map Line.timestamp

/-- Why a snapshot has no bytes: directories stand too deep in one another, a time has too many digits,
or a text holds what is no character. -/
inductive WriteFault
  | nested
  | number (fault : Integer.Fault)
  | unencodable (fault : Encoding.EncodeFault)

def toBytes (s : Snapshot) : Except WriteFault Bytes :=
  if s.toJson.nesting > Json.nestingLimit then .error .nested
  else
    match s.times.mapM Number.written with
    | .error fault => .error (.number fault)
    | .ok _ => (Utf8.encode s.toText).mapError .unencodable

def ofSession (s : Session) (version : Text) (now : Int) : Snapshot where
  version := if version.isEmpty then s.version else version
  timestamp := .integer now
  tree := s.tree
  lines := s.lines

/-! ## Reading -/

/-- Why a document is no snapshot. `place` says where in it. -/
inductive Fault
  | unparsable (fault : Json.Fault)
  | tooDeep
  | notBumpable (version : Text)
  | notObject
  | nodeNotObject (place : Text)
  | lineNotObject (place : Text)
  | missing (place field : Text)
  | wrongType (place field : Text)
  | invalidName (place name : Text)
  | unknownNodeType (place kind : Text)
  | unknownLineType (place kind : Text)

def Fault.message : Fault → Text
  | .unparsable fault => "unparsable snapshot: " ++ fault.message
  | .tooDeep => "snapshot nested too deeply"
  | .notBumpable version => "Cannot bump non-numeric version: " ++ version.quoted
  | .notObject => "snapshot must be a JSON object"
  | .nodeNotObject place => place ++ ": node must be an object"
  | .lineNotObject place => place ++ ": line must be an object"
  | .missing place field => place ++ ": missing field '" ++ field ++ "'"
  | .wrongType place field => place ++ ": field '" ++ field ++ "' has wrong type"
  | .invalidName place name => place ++ ": invalid node name " ++ name.quoted
  | .unknownNodeType place kind => place ++ ": unknown node type " ++ kind.quoted
  | .unknownLineType place kind => place ++ ": unknown line type " ++ kind.quoted

def bump (version : Text) : Except Fault Text :=
  match Version.bump? version with
  | some bumped => .ok bumped
  | none => .error (.notBumpable version)

def field {α : Type} (convert : Json → Option α) (fields : Json.Fields) (name place : Text) :
    Except Fault α :=
  match Json.Fields.get? name fields with
  | none => .error (.missing place name)
  | some v =>
    match convert v with
    | some a => .ok a
    | none => .error (.wrongType place name)

def number? : Json → Option Number
  | .number n => some n
  | _ => none

def array? : Json → Option (List Json)
  | .array items => some items
  | _ => none

/-- An identifier, which may be an integer. There is no limit to its digits here: no integer that has been
read has more of them than may be written (`Json.fits_ofBytes`). -/
def identifier? : Json → Option Text
  | .text t => some t
  | .number (.integer n) => some (Text.ofInt n)
  | _ => none

def content (fields : Json.Fields) (place : Text) : Except Fault (Option Text) :=
  match Json.Fields.get? "content" fields with
  | none | some .null => .ok none
  | some (.text t) => .ok (some t)
  | some _ => .error (.wrongType place "content")

theorem sizeOf_get? {name : Text} {fields : Json.Fields} {v : Json}
    (h : Json.Fields.get? name fields = some v) : sizeOf v < sizeOf fields := by
  fun_induction Json.Fields.get? name fields with
  | case1 => simp at h
  | case2 w fields =>
    obtain rfl : w = v := by simpa using h
    simp only [List.cons.sizeOf_spec, Prod.mk.sizeOf_spec]
    omega
  | case3 k w fields hk ih =>
    have := ih h
    simp only [List.cons.sizeOf_spec]
    omega

mutual

def nodeOf (place : Text) : Json → Except Fault Node
  | .object fields =>
    match field Json.text? fields "name" place with
    | .error fault => .error fault
    | .ok name =>
      if !Path.isName name then .error (.invalidName place name)
      else
        match field Json.text? fields "type" place with
        | .error fault => .error fault
        | .ok kind =>
          let place := place ++ "/" ++ name
          if kind = "file" then (content fields place).map (Node.newFile name)
          else if kind = "directory" then
            match h : Json.Fields.get? "children" fields with
            | none => .ok (Node.newDirectory name [])
            | some (.array items) =>
              have : sizeOf items < sizeOf fields := by
                have := sizeOf_get? h
                simp only [Json.array.sizeOf_spec] at this
                omega
              (nodesOf place (Path.join Path.root name) [] items).map fun children =>
                .directory name (Path.join Path.root name) children
            | some _ => .error (.wrongType place "children")
          else .error (.unknownNodeType place kind)
  | _ => .error (.nodeNotObject place)
termination_by v => sizeOf v

/-- The children of `parent` with the nodes of the items put among them. -/
def nodesOf (place parent : Text) (read : List Node) : List Json → Except Fault (List Node)
  | [] => .ok read
  | item :: items =>
    match nodeOf place item with
    | .error fault => .error fault
    | .ok node => nodesOf place parent (Nodes.upsert parent node read) items
termination_by items => sizeOf items

end

def linePlace (index : Nat) : Text := "terminalLines[" ++ Text.ofNat index ++ "]"

def lineOf (index : Nat) : Json → Except Fault Line
  | .object fields =>
    let place := linePlace index
    match field Json.text? fields "type" place with
    | .error fault => .error fault
    | .ok kind =>
      match LineKind.ofText? kind with
      | none => .error (.unknownLineType place kind)
      | some kind => do
        let id ← field identifier? fields "id" place
        let text ← field Json.text? fields "text" place
        let timestamp ← field number? fields "timestamp" place
        return ⟨id, kind, text, timestamp⟩
  | _ => .error (.lineNotObject (linePlace index))

def linesOf (index : Nat) : List Json → Except Fault (List Line)
  | [] => .ok []
  | item :: items => do
    let line ← lineOf index item
    let lines ← linesOf (index + 1) items
    return line :: lines

def ofJson : Json → Except Fault Snapshot
  | .object fields => do
    let version ← field Json.text? fields "version" "snapshot"
    let _ ← bump version
    let timestamp ← field number? fields "timestamp" "snapshot"
    let files ← field array? fields "files" "snapshot"
    let lines ← field array? fields "terminalLines" "snapshot"
    let children ← nodesOf "files" Path.root [] files
    let lines ← linesOf 0 lines
    return ⟨version, timestamp, ⟨children⟩, lines⟩
  | _ => .error .notObject

inductive ReadFault
  | rejected (fault : Fault)
  | number (fault : Integer.Fault)

def ReadFault.message : ReadFault → Text
  | .rejected fault => fault.message
  | .number fault => fault.message

def read (document : Except Json.Fault Json) : Except ReadFault Snapshot :=
  match document with
  | .ok v => (ofJson v).mapError .rejected
  | .error (.nested _) => .error (.rejected .tooDeep)
  | .error (.number fault) => .error (.number fault)
  | .error fault => .error (.rejected (.unparsable fault))

def ofText (t : Text) : Except ReadFault Snapshot := read (Json.ofText t)

def ofBytes (bytes : Bytes) : Except ReadFault Snapshot := read (Json.ofBytes bytes)

/-! ## Restoring -/

/-- The session with the snapshot in place of what it had, and whether the modules were added. -/
def restore {ε : Type} (s : Session) (snapshot : Snapshot)
    (modules : Except ε (List Baseline.Module)) : Except ε (Session × Bool) :=
  (Baseline.reconcile snapshot.tree modules).map fun (tree, added) =>
    ({ s with
        tree := tree
        lines := snapshot.lines
        version := snapshot.version
        cwd := Path.root
        state := .idle
        activeFile := none }, added)

end Snapshot

end ThreatDesk
