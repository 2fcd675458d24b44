import ThreatDesk.Text.Basic

/-!
# Paths of the host

Repeated separators and single dots mean nothing; two dots are kept, because what they lead to
depends on the files there. Main statement: a path joined to an absolute one is the absolute one.
-/

namespace ThreatDesk

/-- A path of the host: how many separators it begins with (none, one or two) and its parts. -/
structure HostPath where
  anchor : Text
  parts : List Text
deriving DecidableEq

namespace HostPath

def separator : CodePoint := '/'

/-- The separators in front: exactly two are kept, any other number counts as one. -/
def anchorOf (t : Text) : Text :=
  match (t.takeWhile (· = separator)).length with
  | 0 => []
  | 2 => "//"
  | _ => "/"

def ofText (t : Text) : HostPath where
  anchor := anchorOf t
  parts := (t.splitOn separator).filter fun p => !p.isEmpty && p ≠ "."

def toText (p : HostPath) : Text :=
  if p.anchor.isEmpty && p.parts.isEmpty then "." else p.anchor ++ Text.intercalate "/" p.parts

def isAbsolute (p : HostPath) : Bool := !p.anchor.isEmpty

def append (p q : HostPath) : HostPath :=
  if q.isAbsolute then q else ⟨p.anchor, p.parts ++ q.parts⟩

instance : Append HostPath := ⟨append⟩

def child (p : HostPath) (t : Text) : HostPath := p ++ ofText t

def parent (p : HostPath) : HostPath := ⟨p.anchor, p.parts.dropLast⟩

def name (p : HostPath) : Text := p.parts.getLast?.getD []

theorem append_absolute {p q : HostPath} (h : q.isAbsolute = true) : p ++ q = q := by
  show append p q = q
  simp [append, h]

end HostPath

end ThreatDesk
