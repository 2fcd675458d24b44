import ThreatDesk.Text.Blank

/-!
# Markdown in model replies

Code fences around a reply and links inside it.
-/

namespace ThreatDesk

namespace Markdown

def fence : Text := "\x60\x60\x60"

def isAsciiLetter (c : CodePoint) : Bool :=
  (0x41 ≤ c.val && c.val ≤ 0x5A) || (0x61 ≤ c.val && c.val ≤ 0x7A)

/-- The text behind an opening fence, whose info string may hold letters alone and ends the line. -/
def withoutOpening (t : Text) : Text :=
  match Text.after? fence t with
  | none => t
  | some rest =>
    match rest.dropWhile isAsciiLetter with
    | [] => t
    | c :: body => if c = Text.newline then body else t

def withoutClosing (t : Text) : Text :=
  match Text.after? fence t.reverse with
  | none => t
  | some [] => []
  | some (c :: rest) => if c = Text.newline then rest.reverse else (c :: rest).reverse

def unfence (t : Text) : Text :=
  let clean := t.trim
  if clean.startsWith fence then (withoutClosing (withoutOpening clean)).trim else clean

/-! ## Links -/

def linkAt? (t : Text) : Option (Text × Nat) :=
  let label := t.takeWhile (· ≠ (']' : CodePoint))
  if label.isEmpty then none
  else
    match Text.after? "](" (t.drop label.length) with
    | none => none
    | some target =>
      let address := target.takeWhile (· ≠ (')' : CodePoint))
      let host :=
        match Text.after? "http://" address with
        | some host => some host
        | none => Text.after? "https://" address
      match host, target.drop address.length with
      | some (_ :: _), _ :: _ => some (address, label.length + 2 + address.length + 1)
      | _, _ => none

/-- The addresses of the links, in order; `skip` characters belong to the link before. -/
def linksFrom : (skip : Nat) → Text → List Text
  | _, [] => []
  | skip + 1, _ :: t => linksFrom skip t
  | 0, c :: t =>
    if c = '[' then
      match linkAt? t with
      | some (address, length) => address :: linksFrom length t
      | none => linksFrom 0 t
    else linksFrom 0 t

def links (t : Text) : List Text := linksFrom 0 t

end Markdown

end ThreatDesk
