import ThreatDesk.Hub.Program
import ThreatDesk.Host.Store

/-!
# What a line can reach

The paths of the host that a line can lead to. Whoever runs the shell on a real disk looks there first. A
host in memory knows a part of the files that there are: what is learned is put in at its place, and what
has been changed since some earlier moment is what has to be written.
-/

namespace ThreatDesk

/-! ## Changes of a host -/

namespace Host

/-- The path and the directories that it leads through, outermost first. -/
def waysTo (p : HostPath) : List HostPath :=
  (List.range p.parts.length).map fun n => ⟨p.anchor, p.parts.take (n + 1)⟩

def sameContent : HostEntry → HostEntry → Bool
  | .file bytes _ mode, .file bytes' _ mode' => bytes = bytes' && mode = mode'
  | .directory _, .directory _ => true
  | _, _ => false

def stands (h : Host) (place : List Text) (entry : HostEntry) : Bool :=
  match h.find? place with
  | some e => sameContent e entry
  | none => false

/-- The host with what has been found at the path; an entry that was known keeps its time. -/
def learn (h : Host) (p : HostPath) (found : Option HostEntry) : Host :=
  match h.locate p, found with
  | .error _, _ | .ok [], _ => h
  | .ok place, some entry => if h.stands place entry then h else h.put place entry
  | .ok place, none => { h with entries := h.entries.filter fun (p, _) => p ≠ place }

def changedSince (h before : Host) : List (List Text × HostEntry) :=
  h.entries.filter fun (place, entry) => !before.stands place entry

theorem stands_learn {h : Host} {p : HostPath} {place : List Text} (hl : h.locate p = .ok place)
    (hp : place ≠ []) (entry : HostEntry) : (h.learn p (some entry)).stands place entry = true := by
  have hs : sameContent entry entry = true := by cases entry <;> simp [sameContent]
  obtain ⟨name, names, rfl⟩ := List.exists_cons_of_ne_nil hp
  unfold learn
  simp only [hl]
  split
  · assumption
  · simp [stands, find?_put_self h hp, hs]

theorem find?_learn_none {h : Host} {p : HostPath} {place : List Text}
    (hl : h.locate p = .ok place) (hp : place ≠ []) : (h.learn p none).find? place = none := by
  obtain ⟨name, names, rfl⟩ := List.exists_cons_of_ne_nil hp
  simp [learn, hl, find?]

end Host

/-! ## Paths -/

def Archive.meanings (a : Archive) (h : Host) (name : Text) : List HostPath :=
  match h.expandUser (HostPath.ofText name) with
  | .ok path => [path, a.directory.child name]
  | .error _ => []

namespace Desk

def loadedBy? (raw : Text) : Option Text :=
  match raw.words with
  | word :: name :: _ => if Verb.ofText? word.lower = some .load then some name else none
  | _ => none

def reach (d : Desk) (raw : Text) : List HostPath :=
  d.site.keys.path :: d.site.archive.directory ::
    match loadedBy? raw with
    | some name => d.site.archive.meanings d.host name
    | none => []

end Desk

namespace Program

def settingsReach (h : Host) : List HostPath := Settings.places h (Settings.homeDirectory h) none

def variableNames : List Text :=
  ["HOME", KeyStore.defaultVariable, "RETRODECK_HOME", "RETRODECK_ENGINE", "RETRODECK_MODEL",
   "RETRODECK_TIMEOUT", "RETRODECK_EXPORT_DIR", "RETRODECK_LOG_LEVEL"]

end Program

end ThreatDesk
