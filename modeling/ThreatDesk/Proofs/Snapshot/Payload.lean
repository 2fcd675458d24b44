import ThreatDesk.Proofs.Json.Reading
import ThreatDesk.Snapshot.Basic

/-!
# What reading a payload comes to

Whatever its encoding, its syntax and its values are, a payload is a snapshot or is rejected, with one
exception: an integer of too many digits ends the reading without a rejection. Main statement:
`rejected_unless_tooLong`.
-/

namespace ThreatDesk

namespace Snapshot

/-- What a snapshot is read from: a text, or bytes in an encoding that is told from the first of them. -/
inductive Payload
  | text (document : Text)
  | bytes (bs : Bytes)

namespace Payload

def document? : Payload → Option Text
  | .text document => some document
  | .bytes bs => (Encoding.readDocument bs).toOption

def json : Payload → Except Json.Fault Json
  | .text document => Json.ofText document
  | .bytes bs => Json.ofBytes bs

def snapshot : Payload → Except ReadFault Snapshot
  | .text document => ofText document
  | .bytes bs => ofBytes bs

theorem snapshot_eq (p : Payload) : p.snapshot = Snapshot.read p.json := by
  cases p <;> rfl

/-- The only fault of a number is one of too many digits in the text. -/
theorem tooLong_json {p : Payload} {fault : Integer.Fault} (h : p.json = .error (.number fault)) :
    ∃ document, p.document? = some document ∧ Json.Reader.TooLong document fault := by
  cases p with
  | text document => exact ⟨document, rfl, Json.refuses_ofText h⟩
  | bytes bs =>
    simp only [json, Json.ofBytes] at h
    split at h
    · next document hd => exact ⟨document, by rw [document?, hd]; rfl, Json.refuses_ofUnmarked h⟩
    · cases h

theorem snapshot_cases (p : Payload) :
    (∃ s, p.snapshot = .ok s) ∨ (∃ fault, p.snapshot = .error (.rejected fault)) ∨
      ∃ document fault, p.document? = some document ∧ Json.Reader.TooLong document fault ∧
        p.snapshot = .error (.number fault) := by
  rw [snapshot_eq]
  cases hjson : p.json with
  | ok v =>
    cases hv : ofJson v with
    | ok s => exact .inl ⟨s, by rw [Snapshot.read, hv]; rfl⟩
    | error fault => exact .inr (.inl ⟨fault, by rw [Snapshot.read, hv]; rfl⟩)
  | error fault =>
    cases fault with
    | number fault =>
      obtain ⟨document, hd, hlong⟩ := tooLong_json hjson
      exact .inr (.inr ⟨document, fault, hd, hlong, rfl⟩)
    | malformed | nested | undecodable => exact .inr (.inl ⟨_, rfl⟩)

/-! ## Integers of too many digits -/

theorem snapshot_tooLong (p : Payload) (n : Int) (hn : tenTo Integer.digitLimit ≤ n.natAbs)
    (hp : p.document? = some (Text.ofInt n)) :
    p.snapshot = .error (.number (.tooLong (Text.ofNat n.natAbs).length)) := by
  have hjson : p.json = .error (.number (.tooLong (Text.ofNat n.natAbs).length)) := by
    cases p with
    | text document =>
      obtain rfl : document = Text.ofInt n := Option.some.inj hp
      exact Json.ofText_tooLong hn
    | bytes bs =>
      rw [document?] at hp
      rw [json, Json.ofBytes]
      cases hd : Encoding.readDocument bs with
      | error fault =>
        rw [hd] at hp
        exact nomatch hp
      | ok document =>
        rw [hd] at hp
        obtain rfl : document = Text.ofInt n := Option.some.inj hp
        exact Json.ofUnmarked_tooLong hn
  rw [snapshot_eq, hjson]
  rfl

/-- A payload is a snapshot or is rejected, unless an integer of more digits than can be read stands in
its text; and a payload that is such an integer is neither. -/
theorem rejected_unless_tooLong (p : Payload) :
    ((∃ s, p.snapshot = .ok s) ∨ (∃ fault, p.snapshot = .error (.rejected fault)) ∨
      ∃ document fault, p.document? = some document ∧ Json.Reader.TooLong document fault ∧
        p.snapshot = .error (.number fault)) ∧
    ∀ n : Int, tenTo Integer.digitLimit ≤ n.natAbs → p.document? = some (Text.ofInt n) →
      p.snapshot = .error (.number (.tooLong (Text.ofNat n.natAbs).length)) :=
  ⟨snapshot_cases p, fun n hn hp => snapshot_tooLong p n hn hp⟩

theorem rejected_unless_tooLong_least :
    (Payload.text (Text.ofNat (tenTo Integer.digitLimit))).snapshot =
      .error (.number (.tooLong 4301)) := by
  have hlength : 4301 = (Text.ofNat (tenTo Integer.digitLimit)).length :=
    (Text.length_tenTo (by decide)).symm
  rw [hlength]
  -- The integer stays a variable, so that it is never computed.
  generalize hn : tenTo Integer.digitLimit = n
  exact (rejected_unless_tooLong (.text (Text.ofNat n))).2 (Int.ofNat n) hn.le rfl

/-- Such a payload is no snapshot and is not rejected either. -/
theorem neither_snapshot_nor_rejected :
    ¬ ((∃ s, (Payload.text (Text.ofNat (tenTo Integer.digitLimit))).snapshot = .ok s) ∨
      ∃ fault, (Payload.text (Text.ofNat (tenTo Integer.digitLimit))).snapshot =
        .error (.rejected fault)) := by
  generalize hn : tenTo Integer.digitLimit = n
  have htooLong := snapshot_tooLong (.text (Text.ofNat n)) (Int.ofNat n) hn.le rfl
  rintro (⟨s, hs⟩ | ⟨fault, hf⟩)
  · exact nomatch htooLong.symm.trans hs
  · exact nomatch htooLong.symm.trans hf

end Payload

end Snapshot

end ThreatDesk
