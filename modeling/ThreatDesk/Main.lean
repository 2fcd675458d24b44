import ThreatDesk.Hub.Reach
import Std.Time.DateTime.Timestamp

/-!
# The command line

The shell at the terminal it is started from. Files are read before a line that can reach them, and
those that a line has changed are written after it. A directory holds what has been read or written
there by name. There is no client of the service here.
-/

namespace ThreatDesk

namespace Console

def report (text : Text) : IO Unit := do
  (← IO.getStderr).putStrLn text.toString

def display (text : Text) : IO Unit := do
  let stdout ← IO.getStdout
  stdout.putStr text.toString
  stdout.flush

/-! ## The host -/

def now : IO Number := do
  let milliseconds := (← Std.Time.Timestamp.now).toMillisecondsSinceUnixEpoch.val
  return .real (Binary64.ofRatio (milliseconds < 0) milliseconds.natAbs 1000)

def environment : IO (List (Text × Text)) :=
  Program.variableNames.filterMapM fun name => do
    return (← IO.getEnv name.toString).map fun value => (name, Text.ofString value)

def newHost : IO Host := do
  let environment ← environment
  let home : Text := ((environment.find? fun (k, _) => k = "HOME").map (·.2)).getD "/"
  return ⟨← now, environment, HostPath.ofText home, [],
    (HostPath.ofText (← IO.currentDir).toString).parts, []⟩

def inspect (p : HostPath) (modified : Number) : IO (Option HostEntry) := do
  match ← (IO.FS.readBinFile p.toText.toString).toBaseIO with
  | .ok bytes => return some (.file bytes.toList modified Host.defaultMode)
  | .error (.inappropriateType ..) => return some (.directory modified)
  | .error _ => return none

def visit (h : Host) (p : HostPath) : IO Host :=
  (Host.waysTo p).foldlM (fun h p => do
    match h.locate p with
    | .error _ => return h
    | .ok _ => return h.learn p (← inspect p h.clock)) h

def look (h : Host) (paths : List HostPath) : IO Host := do
  let h := { h with clock := ← now }
  let h ← visit h ⟨"/", h.workingDirectory⟩
  paths.foldlM visit h

def put : List Text × HostEntry → IO Unit
  | (place, .directory _) => IO.FS.createDirAll (HostPath.mk "/" place).toText.toString
  | (place, .file bytes _ mode) => do
    let path := (HostPath.mk "/" place).toText.toString
    IO.FS.writeBinFile path ⟨bytes.toArray⟩
    if mode ≠ Host.defaultMode then
      IO.setAccessRights path { user := { read := true, write := true } }

def putAll (entries : List (List Text × HostEntry)) : IO Unit := do
  match ← (entries.forM put).toBaseIO with
  | .ok () => return
  | .error e => report (Text.ofString (toString e))

/-! ## The conversation -/

/-- The bytes up to the end of a line, which comes with them. -/
partial def readLine (stdin : IO.FS.Stream) (read : Bytes) : IO Bytes := do
  match (← stdin.read 1).toList with
  | [] => return read.reverse
  | b :: _ => if b = 0x0A then return (b :: read).reverse else readLine stdin (b :: read)

def prepare (t : Terminal (Engine.Online Unit)) : Typed → IO (Terminal (Engine.Online Unit))
  | .line raw => do
    let desk := t.hub.desk
    let host ← look desk.host (desk.reach raw)
    return { t with hub := { t.hub with desk := { desk with host } } }
  | _ => return t

partial def converse (stdin : IO.FS.Stream) (t : Terminal (Engine.Online Unit)) : IO UInt32 := do
  display t.prompt
  let typed := (Terminal.typedOf (← readLine stdin [])).headD .endOfInput
  let before ← prepare t typed
  match before.respond typed with
  | .error fault =>
    report fault.message
    return 1
  | .ok (after, shown, goesOn) =>
    display shown
    putAll (after.hub.desk.host.changedSince before.hub.desk.host)
    if goesOn then converse stdin after else return 0

def drawnFrom (g : StdGen) : Nat → Nat
  | 0 => (randNat g 0 0xFFFFFFFF).1
  | n + 1 => drawnFrom (randNat g 0 0xFFFFFFFF).2 n

def begin (h : Host) : IO UInt32 := do
  let modules := (Settings.homeDirectory h).child "modules"
  let seed := (← IO.getRandomBytes 8).toList.foldl (fun n b => n * 256 + b.toNat) 0
  match Program.terminal h modules Client.absent () (drawnFrom (mkStdGen seed)) with
  | .error fault =>
    report fault.message
    return 1
  | .ok t =>
    let t := { t with color := ← (← IO.getStdout).isTty }
    display (Program.opening t)
    display Terminal.banner
    converse (← IO.getStdin) t

def run (arguments : List Text) : IO UInt32 := do
  let h ← newHost
  let h ← look h (Program.settingsReach h)
  match Program.Task.ofArguments arguments with
  | .usage =>
    display Program.usage
    return 1
  | .health =>
    let keys := (Program.settings h).toOption.map fun s => s.keyFile
    match Program.health (← look h keys.toList) Client.absent () with
    | .error fault =>
      report fault.message
      return 1
    | .ok answers =>
      display (Program.healthReport answers)
      return if answers then 0 else 1
  | .shell => begin h

end Console

end ThreatDesk

def main (arguments : List String) : IO UInt32 :=
  ThreatDesk.Console.run (arguments.map ThreatDesk.Text.ofString)
