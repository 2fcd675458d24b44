import ThreatDesk.Host.Path
import ThreatDesk.Number.Basic
import ThreatDesk.Encoding.Utf8

/-!
# The host

What the shell reaches outside its own tree: a clock, the environment, and files. Files are found by
the names from the root; a path is followed part by part, and two dots go up one directory. Main
statement: what has been written is read back (`find?_put_self`).
-/

namespace ThreatDesk

inductive HostEntry
  | file (bytes : Bytes) (modified : Number) (mode : Nat)
  | directory (modified : Number)

structure Host where
  clock : Number
  environment : List (Text × Text)
  home : HostPath
  /-- The home directories of the users by name; whoever runs the shell comes first. -/
  users : List (Text × Text)
  workingDirectory : List Text
  /-- What stands where; a directory's entries have longer places. -/
  entries : List (List Text × HostEntry)

namespace Host

inductive Problem
  | notFound
  | exists
  | notDirectory
  | isDirectory
  | nameTooLong
deriving DecidableEq

def Problem.message : Problem → Text
  | .notFound => "[Errno 2] No such file or directory: "
  | .exists => "[Errno 17] File exists: "
  | .notDirectory => "[Errno 20] Not a directory: "
  | .isDirectory => "[Errno 21] Is a directory: "
  | .nameTooLong => "[Errno 36] File name too long: "

inductive Fault
  | system (problem : Problem) (path : HostPath)
  | nullByte
  | unencodable (fault : Encoding.EncodeFault)
  | undecodable (fault : Encoding.DecodeFault)
  | noHome

def Fault.message : Fault → Text
  | .system problem path => problem.message ++ path.toText.quoted
  | .nullByte => "embedded null byte"
  | .unencodable fault => fault.message
  | .undecodable fault => fault.message
  | .noHome => "Could not determine home directory."

def Fault.isSystem : Fault → Bool
  | .system .. => true
  | _ => false

/-! ## The environment -/

def getEnv? (h : Host) (name : Text) : Option Text :=
  (h.environment.find? fun (k, _) => k = name).map (·.2)

def setEnv (h : Host) (name : Text) (value : Option Text) : Host :=
  let others := h.environment.filter fun (k, _) => k ≠ name
  { h with environment := match value with
      | some v => others ++ [(name, v)]
      | none => others }

/-- The surrogates that stand for bytes which are no text. -/
def isByteMark (c : CodePoint) : Bool := 0xDC80 ≤ c.val && c.val ≤ 0xDCFF

def nameFault? (name : Text) : Option Fault :=
  match Encoding.unmarkedRun? isByteMark 0 name with
  | some fault => some (.unencodable fault)
  | none => if name.any fun c => c.val = 0 then some .nullByte else none

def ownHome? (h : Host) : Option Text :=
  match h.getEnv? "HOME" with
  | some home => some home
  | none => (h.users.head?).map (·.2)

def homeOf? (h : Host) (user : Text) : Except Fault (Option Text) :=
  match nameFault? user with
  | some fault => .error fault
  | none => .ok ((h.users.find? fun (name, _) => name = user).map (·.2))

def trimmed (directory : Text) : Text :=
  let d := (directory.reverse.dropWhile (· = HostPath.separator)).reverse
  if d.isEmpty then "/" else d

/-- The path with a tilde in front, and the name of a user if one follows it, replaced by a home
directory. -/
def expandUser (h : Host) (p : HostPath) : Except Fault HostPath :=
  match p.anchor, p.parts with
  | [], (c :: user) :: rest =>
    if c ≠ '~' then .ok p
    else
      match if user.isEmpty then .ok h.ownHome? else h.homeOf? user with
      | .error fault => .error fault
      | .ok none => .error .noHome
      | .ok (some home) =>
        let home := trimmed home
        if home.head? = some ('~' : CodePoint) then .error .noHome
        else
          let base := HostPath.ofText home
          .ok ⟨base.anchor, base.parts ++ rest⟩
  | _, _ => .ok p

/-! ## Files -/

def samePlace (p q : List Text) : Bool := p.length = q.length && p = q

@[simp] theorem samePlace_eq (p q : List Text) : samePlace p q = decide (p = q) := by
  by_cases h : p = q <;> simp [samePlace, h]

def find? (h : Host) (place : List Text) : Option HostEntry :=
  if place = [] then some (.directory 0)
  else (h.entries.find? fun (p, _) => samePlace p place).map (·.2)

def isDirectoryAt (h : Host) (place : List Text) : Bool :=
  match h.find? place with
  | some (.directory _) => true
  | _ => false

def putEntry (place : List Text) (entry : HostEntry) :
    List (List Text × HostEntry) → List (List Text × HostEntry)
  | [] => [(place, entry)]
  | (p, e) :: es => if p = place then (p, entry) :: es else (p, e) :: putEntry place entry es

def put (h : Host) (place : List Text) (entry : HostEntry) : Host :=
  { h with entries := putEntry place entry h.entries }

theorem find?_putEntry (place : List Text) (entry : HostEntry)
    (es : List (List Text × HostEntry)) (q : List Text) :
    (putEntry place entry es).find? (fun (p, _) => p = q) =
      if q = place then some (place, entry) else es.find? fun (p, _) => p = q := by
  fun_induction putEntry place entry es with
  | case1 => by_cases h : q = place <;> simp [h, eq_comm]
  | case2 e es =>
    by_cases h : q = place
    · simp [h]
    · simp [h, Ne.symm h]
  | case3 p e es hp ih =>
    by_cases h : p = q
    · subst h; simp [hp]
    · simp [h, ih]

theorem find?_put_self (h : Host) {place : List Text} (hp : place ≠ []) (entry : HostEntry) :
    (h.put place entry).find? place = some entry := by
  simp [find?, put, hp, find?_putEntry]

theorem find?_put_of_ne (h : Host) {place q : List Text} (hq : q ≠ place) (entry : HostEntry) :
    (h.put place entry).find? q = h.find? q := by
  simp [find?, put, hq, find?_putEntry]

def nameLimit : Nat := 255
def pathLimit : Nat := 4096

def nameSize (name : Text) : Nat :=
  Utf8.size (name.filter fun c => !isByteMark c) + name.countP isByteMark

/-- The place that the parts lead to from `stack`, innermost name first, or what is in the way. -/
def follow (h : Host) (stack : List Text) : List Text → Except Problem (List Text)
  | [] => .ok stack
  | part :: rest =>
    match h.find? stack.reverse with
    | none => .error .notFound
    | some (.file ..) => .error .notDirectory
    | some (.directory _) =>
      if part = ".." then follow h stack.tail rest
      else if nameSize part > nameLimit then .error .nameTooLong
      else follow h (part :: stack) rest

/-- The place of a path, which need not hold anything but whose directory is there. -/
def locate (h : Host) (p : HostPath) : Except Fault (List Text) :=
  match nameFault? p.toText with
  | some fault => .error fault
  | none =>
    if nameSize p.toText ≥ pathLimit then .error (.system .nameTooLong p)
    else
      match h.follow (if p.isAbsolute then [] else h.workingDirectory.reverse) p.parts with
      | .ok stack => .ok stack.reverse
      | .error problem => .error (.system problem p)

def lookup (h : Host) (p : HostPath) : Except Fault (Option HostEntry) :=
  match h.locate p with
  | .ok place => .ok (h.find? place)
  | .error (.system .nameTooLong q) => .error (.system .nameTooLong q)
  | .error _ => .ok none

def exists? (h : Host) (p : HostPath) : Except Fault Bool := (h.lookup p).map Option.isSome

def isDirectory? (h : Host) (p : HostPath) : Except Fault Bool :=
  (h.lookup p).map fun
    | some (.directory _) => true
    | _ => false

def readBytes (h : Host) (p : HostPath) : Except Fault Bytes :=
  match h.locate p with
  | .error fault => .error fault
  | .ok place =>
    match h.find? place with
    | none => .error (.system .notFound p)
    | some (.directory _) => .error (.system .isDirectory p)
    | some (.file bytes _ _) => .ok bytes

def readText (h : Host) (p : HostPath) : Except Fault Text :=
  match h.readBytes p with
  | .error fault => .error fault
  | .ok bytes =>
    match Utf8.scheme.strict bytes with
    | .ok t => .ok t.normaliseNewlines
    | .error fault => .error (.undecodable fault)

def defaultMode : Nat := 0o644

def writeBytes (h : Host) (p : HostPath) (bytes : Bytes) : Except Fault Host :=
  match h.locate p with
  | .error fault => .error fault
  | .ok place =>
    match h.find? place with
    | some (.directory _) => .error (.system .isDirectory p)
    | some (.file _ _ mode) => .ok (h.put place (.file bytes h.clock mode))
    | none => .ok (h.put place (.file bytes h.clock defaultMode))

def restrict (h : Host) (p : HostPath) : Host :=
  match h.locate p with
  | .error _ => h
  | .ok place =>
    match h.find? place with
    | some (.file bytes modified _) => h.put place (.file bytes modified 0o600)
    | _ => h

def makeDirectory (h : Host) (p : HostPath) : Except Fault Host :=
  match h.locate p with
  | .error fault => .error fault
  | .ok place =>
    match h.find? place with
    | some _ => .error (.system .exists p)
    | none => .ok (h.put place (.directory h.clock))

def orDirectory (h : Host) (p : HostPath) (fault : Fault) : Option Fault :=
  if !fault.isSystem then some fault
  else
    match h.isDirectory? p with
    | .ok true => none
    | .ok false => some fault
    | .error fault => some fault

/-- The host with the directory at the path and those that it is in, as far as they can be made, and
what is in the way of the others. The parts come innermost first. -/
def makeDirectoriesAt (h : Host) (anchor : Text) : List Text → Host × Option Fault
  | [] =>
    match h.makeDirectory ⟨anchor, []⟩ with
    | .ok h => (h, none)
    | .error fault => (h, h.orDirectory ⟨anchor, []⟩ fault)
  | part :: rest =>
    let p : HostPath := ⟨anchor, (part :: rest).reverse⟩
    match h.makeDirectory p with
    | .ok h => (h, none)
    | .error (.system .notFound _) =>
      match makeDirectoriesAt h anchor rest with
      | (h, some fault) => (h, some fault)
      | (h, none) =>
        match h.makeDirectory p with
        | .ok h => (h, none)
        | .error (.system .notFound q) => (h, some (.system .notFound q))
        | .error fault => (h, h.orDirectory p fault)
    | .error fault => (h, h.orDirectory p fault)

def makeDirectories (h : Host) (p : HostPath) : Host × Option Fault :=
  h.makeDirectoriesAt p.anchor p.parts.reverse

def children (h : Host) (place : List Text) : List (Text × HostEntry) :=
  h.entries.filterMap fun (p, e) =>
    match p.getLast? with
    | some name => if p.dropLast = place then some (name, e) else none
    | none => none

end Host

def HostEntry.modified : HostEntry → Number
  | .file _ modified _ => modified
  | .directory modified => modified

end ThreatDesk
