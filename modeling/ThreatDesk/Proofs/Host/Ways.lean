import ThreatDesk.Proofs.Host.Named

/-!
# Where paths lead

A path is followed through directories, part by part (`follow_cons`). Where it leads does not depend on
what is there, only whether it leads anywhere does (`locate_eq_placeOf`).
-/

namespace ThreatDesk

namespace Host

/-! ## Ways -/

theorem isDirectoryAt_iff {h : Host} {place : List Text} :
    h.isDirectoryAt place = true ↔ ∃ modified, h.find? place = some (.directory modified) := by
  unfold isDirectoryAt
  split
  · next modified hf => exact ⟨fun _ => ⟨modified, hf⟩, fun _ => rfl⟩
  · next hf => exact iff_of_false (by simp) fun ⟨modified, h⟩ => hf modified h

theorem follow_cons {h : Host} {stack place rest : List Text} {part : Text} :
    h.follow stack (part :: rest) = .ok place ↔
      h.isDirectoryAt stack.reverse = true ∧
        (part = ".." ∧ h.follow stack.tail rest = .ok place ∨
          part ≠ ".." ∧ nameSize part ≤ nameLimit ∧ h.follow (part :: stack) rest = .ok place) := by
  rw [isDirectoryAt_iff, follow]
  split
  · next hf => simp [hf]
  · next hf => simp [hf]
  · next modified hf =>
    simp only [hf, Option.some.injEq, HostEntry.directory.injEq, exists_eq', true_and]
    split
    · next hup => simp [hup]
    · next hup =>
      split
      · next hlong => simp [hup, Nat.not_le.2 hlong]
      · next hlong => simp [hup, Nat.not_lt.1 hlong]

theorem follow_append {h : Host} {stack place parts rest : List Text} :
    h.follow stack (parts ++ rest) = .ok place ↔
      ∃ via, h.follow stack parts = .ok via ∧ h.follow via rest = .ok place := by
  induction parts generalizing stack with
  | nil => simp [follow]
  | cons part parts ih =>
    rw [List.cons_append, follow_cons, ih, ih]
    simp only [follow_cons]
    constructor
    · rintro ⟨hd, ⟨hup, via, hv, hr⟩ | ⟨hup, hlong, via, hv, hr⟩⟩
      · exact ⟨via, ⟨hd, .inl ⟨hup, hv⟩⟩, hr⟩
      · exact ⟨via, ⟨hd, .inr ⟨hup, hlong, hv⟩⟩, hr⟩
    · rintro ⟨via, ⟨hd, ⟨hup, hv⟩ | ⟨hup, hlong, hv⟩⟩, hr⟩
      · exact ⟨hd, .inl ⟨hup, via, hv, hr⟩⟩
      · exact ⟨hd, .inr ⟨hup, hlong, via, hv, hr⟩⟩

theorem locate_eq_ok_iff {h : Host} {p : HostPath} {place : List Text} :
    h.locate p = .ok place ↔
      nameFault? p.toText = none ∧ nameSize p.toText < pathLimit ∧
        h.follow (if p.isAbsolute then [] else h.workingDirectory.reverse) p.parts =
          .ok place.reverse := by
  unfold locate
  split
  · next fault hf => simp [hf]
  · next hf =>
    split
    · next hlong => simp [hf, Nat.not_lt.2 hlong]
    · next hlong =>
      split
      · next stack hs => simp [hf, Nat.not_le.1 hlong, hs, List.reverse_eq_iff]
      · next problem hs => simp [hs]

/-! ## Places -/

variable {h k : Host} {p : HostPath} {place : List Text}

/-- Where the parts lead from `stack`, innermost name first, if they lead anywhere. -/
def walked (stack : List Text) : List Text → List Text
  | [] => stack
  | part :: rest => walked (if part = ".." then stack.tail else part :: stack) rest

def placeOf (h : Host) (p : HostPath) : List Text :=
  (walked (if p.isAbsolute then [] else h.workingDirectory.reverse) p.parts).reverse

theorem follow_eq_walked {stack parts : List Text} (hf : h.follow stack parts = .ok place) :
    place = walked stack parts := by
  induction parts generalizing stack with
  | nil => exact (Except.ok.inj hf).symm
  | cons part rest ih =>
    obtain ⟨-, ⟨hup, hrest⟩ | ⟨hup, -, hrest⟩⟩ := follow_cons.1 hf
    · rw [ih hrest, walked, if_pos hup]
    · rw [ih hrest, walked, if_neg hup]

theorem locate_eq_placeOf (hl : h.locate p = .ok place) : place = h.placeOf p := by
  obtain ⟨-, -, hfollow⟩ := locate_eq_ok_iff.1 hl
  rw [placeOf, ← follow_eq_walked hfollow, List.reverse_reverse]

theorem walked_append (stack parts rest : List Text) :
    walked stack (parts ++ rest) = walked (walked stack parts) rest := by
  induction parts generalizing stack with
  | nil => rfl
  | cons part parts ih => exact ih _

theorem placeOf_append_singleton (h : Host) (anchor : Text) (parts : List Text) {name : Text}
    (hup : name ≠ "..") :
    h.placeOf ⟨anchor, parts ++ [name]⟩ = h.placeOf ⟨anchor, parts⟩ ++ [name] := by
  show (walked _ (parts ++ [name])).reverse = _
  rw [walked_append, walked, if_neg hup, walked, List.reverse_cons]
  rfl

theorem follow_ne_nameTooLong {stack parts : List Text} (hk : k.follow stack parts = .ok place) :
    h.follow stack parts ≠ .error .nameTooLong := by
  induction parts generalizing stack with
  | nil => exact fun he => by cases he
  | cons part rest ih =>
    obtain ⟨-, hstep⟩ := follow_cons.1 hk
    rw [follow]
    split
    · exact fun he => by cases he
    · exact fun he => by cases he
    · rcases hstep with ⟨hup, hrest⟩ | ⟨hup, hshort, hrest⟩
      · rw [if_pos hup]
        exact ih hrest
      · rw [if_neg hup, if_neg (Nat.not_lt.2 hshort)]
        exact ih hrest

end Host

end ThreatDesk
