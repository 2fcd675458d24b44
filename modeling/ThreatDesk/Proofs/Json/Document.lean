import ThreatDesk.Proofs.Encoding.Utf8
import ThreatDesk.Proofs.Json.RoundTrip

/-!
# Documents as bytes

The document of a value without surrogates has bytes, and the value of an object is read back from
them (`ofBytes_toDocument`).
-/

namespace ThreatDesk

namespace Text

theorem isScalar_hexDigit {n : Nat} (h : n < 16) : (hexDigit n).isSurrogate = false := by
  have hall : ∀ n, n < 16 → (hexDigit n).isSurrogate = false := by decide
  exact hall n h

theorem isScalar_hex (width n : Nat) : IsScalar (hex width n) := by
  induction width generalizing n with
  | zero => exact isScalar_nil
  | succ width ih =>
    refine isScalar_append.2 ⟨ih _, isScalar_cons.2 ⟨?_, isScalar_nil⟩⟩
    exact isScalar_hexDigit (Nat.mod_lt _ (by decide))

theorem isScalar_ofNat (n : Nat) : IsScalar (ofNat n) := by
  intro c hc
  have hd := isDigit_of_mem_ofNat n c hc
  simp only [CodePoint.isDigit, Bool.and_eq_true, decide_eq_true_eq] at hd
  simp only [CodePoint.isSurrogate, Bool.and_eq_false_iff, decide_eq_false_iff_not]
  omega

theorem isScalar_ofInt (n : Int) : IsScalar (ofInt n) := by
  cases n with
  | ofNat n => exact isScalar_ofNat n
  | negSucc n => exact isScalar_append.2 ⟨isScalar_ofString "-", isScalar_ofNat (n + 1)⟩

theorem isScalar_replicate (n : Nat) {t : Text} (h : IsScalar t) : IsScalar (replicate n t) := by
  intro c hc
  obtain ⟨u, hu, hc⟩ := List.mem_flatten.1 hc
  rw [List.eq_of_mem_replicate hu] at hc
  exact h c hc

theorem IsScalar.take {t : Text} (h : IsScalar t) (n : Nat) : IsScalar (t.take n) :=
  fun c hc => h c (List.mem_of_mem_take hc)

theorem IsScalar.drop {t : Text} (h : IsScalar t) (n : Nat) : IsScalar (t.drop n) :=
  fun c hc => h c (List.mem_of_mem_drop hc)

theorem isScalar_ofNatPadded (width n : Nat) : IsScalar (ofNatPadded width n) := by
  refine isScalar_append.2 ⟨fun c hc => ?_, isScalar_ofNat n⟩
  rw [List.eq_of_mem_replicate hc]
  decide

end Text

namespace Binary64

open Text (IsScalar isScalar_append isScalar_cons isScalar_ofString)

theorem isScalar_exponentText (p : Int) : IsScalar (exponentText p) :=
  isScalar_append.2 ⟨isScalar_ofString _, Text.isScalar_ofNatPadded 2 _⟩

theorem isScalar_decimalText (digits : Nat) (p : Int) : IsScalar (decimalText digits p) := by
  have hds := Text.isScalar_ofNat digits
  have hzeros (n : Nat) := Text.isScalar_replicate n (isScalar_ofString "0")
  have hpower := isScalar_exponentText (p + (Text.ofNat digits).length - 1)
  unfold decimalText
  dsimp only
  split_ifs
  · exact isScalar_append.2 ⟨isScalar_append.2 ⟨hds, hzeros _⟩, isScalar_ofString _⟩
  · exact isScalar_append.2 ⟨isScalar_append.2 ⟨hds.take _, isScalar_ofString _⟩, hds.drop _⟩
  · exact isScalar_append.2 ⟨isScalar_append.2 ⟨isScalar_ofString _, hzeros _⟩, hds⟩
  · generalize Text.ofNat digits = ds at hds hpower ⊢
    match ds with
    | [] => exact Text.isScalar_nil
    | [d] => exact isScalar_cons.2 ⟨(isScalar_cons.1 hds).1, hpower⟩
    | d :: e :: rest =>
      refine isScalar_cons.2 ⟨(isScalar_cons.1 hds).1, isScalar_append.2 ⟨?_, hpower⟩⟩
      exact isScalar_append.2 ⟨isScalar_ofString _, (isScalar_cons.1 hds).2⟩

theorem isScalar_toText (x : Binary64) : IsScalar x.toText := by
  match x with
  | .nan => exact isScalar_ofString _
  | .infinity true | .infinity false => exact isScalar_ofString _
  | .finite s m e =>
    have hmagnitude (t : Text) (ht : IsScalar t) : IsScalar (if s then "-" ++ t else t) := by
      split
      · exact isScalar_append.2 ⟨isScalar_ofString _, ht⟩
      · exact ht
    refine hmagnitude _ ?_
    split
    · exact isScalar_ofString _
    · exact isScalar_decimalText _ _

end Binary64

namespace Json

open Printer.Layout (document)
open Text (IsScalar isScalar_append isScalar_ofString)

mutual

def Scalar : Json → Prop
  | .text t => IsScalar t
  | .array vs => ScalarItems vs
  | .object fs => ScalarFields fs
  | .null | .bool _ | .number _ => True

def ScalarItems : List Json → Prop
  | [] => True
  | v :: vs => Scalar v ∧ ScalarItems vs

def ScalarFields : List (Text × Json) → Prop
  | [] => True
  | (k, v) :: fs => IsScalar k ∧ Scalar v ∧ ScalarFields fs

end

namespace Printer

theorem isScalar_short {c : CodePoint} {t : Text} (h : short? c = some t) : IsScalar t := by
  unfold short? at h
  repeat' split at h
  all_goals cases h
  all_goals exact isScalar_ofString _

theorem isScalar_character {c : CodePoint} (h : c.isSurrogate = false) :
    IsScalar (character false c) := by
  unfold character
  split
  · next t ht => exact isScalar_short ht
  · split
    · exact isScalar_append.2 ⟨isScalar_ofString _, Text.isScalar_hex 4 _⟩
    · rw [Bool.not_false, Bool.true_or, if_pos rfl]
      exact Text.isScalar_cons.2 ⟨h, Text.isScalar_nil⟩

theorem isScalar_string {t : Text} (h : IsScalar t) : IsScalar (string false t) := by
  refine isScalar_append.2 ⟨isScalar_append.2 ⟨isScalar_ofString _, ?_⟩, isScalar_ofString _⟩
  intro c hc
  obtain ⟨d, hd, hc⟩ := List.mem_flatMap.1 hc
  exact isScalar_character (h d hd) c hc

theorem isScalar_break (depth : Nat) : IsScalar (document.break depth) :=
  isScalar_append.2 ⟨isScalar_ofString _, Text.isScalar_replicate depth (isScalar_ofString _)⟩

theorem isScalar_comma (depth : Nat) : IsScalar (document.comma depth) :=
  isScalar_append.2 ⟨isScalar_ofString _, isScalar_break depth⟩

theorem isScalar_number (n : Number) : IsScalar (number n) := by
  match n with
  | .integer n => exact Text.isScalar_ofInt n
  | .real .nan => exact isScalar_ofString _
  | .real (.infinity true) | .real (.infinity false) => exact isScalar_ofString _
  | .real (.finite s m e) => exact Binary64.isScalar_toText (.finite s m e)

mutual

theorem isScalar_value (v : Json) (h : Scalar v) (depth : Nat) {rest : Text}
    (hr : IsScalar rest) : IsScalar (value document depth v rest) := by
  match v with
  | .null | .bool true | .bool false => exact isScalar_append.2 ⟨isScalar_ofString _, hr⟩
  | .number n => exact isScalar_append.2 ⟨isScalar_number n, hr⟩
  | .text t => exact isScalar_append.2 ⟨isScalar_string h, hr⟩
  | .array [] | .object [] => exact isScalar_append.2 ⟨isScalar_ofString _, hr⟩
  | .array (v :: vs) =>
    have hclose := isScalar_append.2
      ⟨isScalar_break depth, isScalar_append.2 ⟨isScalar_ofString "]", hr⟩⟩
    have hitems := isScalar_items vs h.2 (depth + 1) hclose
    have hvalue := isScalar_value v h.1 (depth + 1) hitems
    exact isScalar_append.2
      ⟨isScalar_ofString _, isScalar_append.2 ⟨isScalar_break (depth + 1), hvalue⟩⟩
  | .object ((k, v) :: fs) =>
    have hclose := isScalar_append.2
      ⟨isScalar_break depth, isScalar_append.2 ⟨isScalar_ofString "\x7d", hr⟩⟩
    have hfields := isScalar_fields fs h.2.2 (depth + 1) hclose
    have hvalue := isScalar_value v h.2.1 (depth + 1) hfields
    exact isScalar_append.2 ⟨isScalar_ofString _, isScalar_append.2 ⟨isScalar_break (depth + 1),
      isScalar_append.2 ⟨isScalar_string h.1, isScalar_append.2 ⟨isScalar_ofString _, hvalue⟩⟩⟩⟩

theorem isScalar_items (vs : List Json) (h : ScalarItems vs) (depth : Nat)
    {rest : Text} (hr : IsScalar rest) : IsScalar (items document depth vs rest) := by
  match vs with
  | [] => exact hr
  | v :: vs =>
    have hitems := isScalar_items vs h.2 depth hr
    exact isScalar_append.2 ⟨isScalar_comma depth, isScalar_value v h.1 depth hitems⟩

theorem isScalar_fields (fs : List (Text × Json)) (h : ScalarFields fs)
    (depth : Nat) {rest : Text} (hr : IsScalar rest) :
    IsScalar (fields document depth fs rest) := by
  match fs with
  | [] => exact hr
  | (k, v) :: fs =>
    have hfields := isScalar_fields fs h.2.2 depth hr
    have hvalue := isScalar_value v h.2.1 depth hfields
    exact isScalar_append.2 ⟨isScalar_comma depth,
      isScalar_append.2 ⟨isScalar_string h.1, isScalar_append.2 ⟨isScalar_ofString _, hvalue⟩⟩⟩

end

end Printer

theorem isScalar_toDocument {v : Json} (h : Scalar v) : IsScalar v.toDocument :=
  Printer.isScalar_value v h 0 Text.isScalar_nil

/-! ## Bytes -/

theorem readDocument_encoded {t : Text} (h : IsScalar t) {rest : Text}
    (ht : t = ('{' : CodePoint) :: ('\n' : CodePoint) :: rest) :
    Encoding.readDocument (t.flatMap Utf8.encodeCodePoint) = .ok t := by
  have hg (bs : Bytes) : Encoding.guess (0x7B :: 0x0A :: bs) = ⟨Utf8.scheme, 0, true⟩ := by
    match bs with
    | [] | [_] | _ :: _ :: _ => rfl
  have hb : t.flatMap Utf8.encodeCodePoint =
      0x7B :: 0x0A :: rest.flatMap Utf8.encodeCodePoint := by
    rw [ht]
    rfl
  have hread := Utf8.tolerant_encoded h
  unfold Encoding.readDocument
  rw [hb, hg, ← hb]
  simp only [List.drop_zero, hread]

theorem ofBytes_of_encode {f : Text × Json} {fs : List (Text × Json)}
    (he : Exact (.object (f :: fs))) (hn : nesting (.object (f :: fs)) ≤ nestingLimit)
    {bytes : Bytes} (h : Utf8.encode (toDocument (.object (f :: fs))) = .ok bytes) :
    ofBytes bytes = .ok (.object (f :: fs)) := by
  obtain ⟨hscalar, rfl⟩ := Utf8.encode_eq_ok h
  rw [ofBytes, readDocument_encoded hscalar rfl]
  exact ofUnmarked_toDocument he hn

/-- An object with something in it is read back from the bytes of its document. -/
theorem ofBytes_toDocument {f : Text × Json} {fs : List (Text × Json)}
    (he : Exact (.object (f :: fs))) (hs : Scalar (.object (f :: fs)))
    (hn : nesting (.object (f :: fs)) ≤ nestingLimit) :
    ∃ bytes, Utf8.encode (toDocument (.object (f :: fs))) = .ok bytes ∧
      ofBytes bytes = .ok (.object (f :: fs)) := by
  have hencode := Utf8.encode_of_isScalar (isScalar_toDocument hs)
  exact ⟨_, hencode, ofBytes_of_encode he hn hencode⟩

end Json

end ThreatDesk
