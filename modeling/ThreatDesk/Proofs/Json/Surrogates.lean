import ThreatDesk.Proofs.Encoding.Surrogates
import ThreatDesk.Proofs.Json.Document

/-!
# Documents that have no bytes

What is written around the texts of a value are characters, so the first run of surrogates in its document
is the first one in its texts (`surrogates?_toDocument`).
-/

namespace ThreatDesk

theorem Encoding.EncodeFault.isScalar_message (f : EncodeFault) : f.message.IsScalar := by
  have hs := Text.isScalar_ofString
  have hn := Text.isScalar_ofNat
  have hends := hs ": surrogates not allowed"
  unfold message
  split
  · have hfirst := Text.isScalar_append.2 ⟨hs "'utf-8' codec can't encode character '\\u",
      Text.isScalar_hex 4 f.first.val⟩
    have hplace := Text.isScalar_append.2
      ⟨Text.isScalar_append.2 ⟨hfirst, hs "' in position "⟩, hn f.start⟩
    exact Text.isScalar_append.2 ⟨hplace, hends⟩
  · have hstart := Text.isScalar_append.2
      ⟨hs "'utf-8' codec can't encode characters in position ", hn f.start⟩
    have hplace := Text.isScalar_append.2
      ⟨Text.isScalar_append.2 ⟨hstart, hs "-"⟩, hn (f.start + f.length - 1)⟩
    exact Text.isScalar_append.2 ⟨hplace, hends⟩

namespace Json

open Printer.Layout (document)
open Text (isScalar_ofString isScalar_append surrogates?_scalar_append)

mutual

/-- The first run of surrogates in the texts of a value, in the order in which they are written. -/
def surrogates? : Json → Option (Nat × CodePoint)
  | .text t => t.surrogates?
  | .array vs => surrogatesOfItems? vs
  | .object fs => surrogatesOfFields? fs
  | .null | .bool _ | .number _ => none

def surrogatesOfItems? : List Json → Option (Nat × CodePoint)
  | [] => none
  | v :: vs => (surrogates? v).or (surrogatesOfItems? vs)

def surrogatesOfFields? : List (Text × Json) → Option (Nat × CodePoint)
  | [] => none
  | (k, v) :: fs => k.surrogates?.or ((surrogates? v).or (surrogatesOfFields? fs))

end

namespace Printer

theorem character_ne_nil (c : CodePoint) : character false c ≠ [] := by
  unfold character
  split
  · next t ht =>
    unfold short? at ht
    repeat' split at ht
    all_goals cases ht
    all_goals simp [Text.ofString]
  · split
    · simp [unit, Text.ofString]
    · simp

theorem character_of_isSurrogate {c : CodePoint} (h : c.isSurrogate = true) :
    character false c = [c] := by
  have hv : 0xD800 ≤ c.val := by
    simp only [CodePoint.isSurrogate, Bool.and_eq_true, decide_eq_true_eq] at h
    exact h.1
  have hne (d : Char) (hd : d.toNat < 0xD800) : c ≠ (d : CodePoint) := by
    rintro rfl
    exact absurd hv (Nat.not_le.2 hd)
  have hshort : short? c = none := by
    unfold short?
    rw [if_neg (hne _ (by decide)), if_neg (hne _ (by decide)), if_neg (hne _ (by decide)),
      if_neg (hne _ (by decide)), if_neg (hne _ (by decide)), if_neg (by omega), if_neg (by omega)]
  unfold character
  rw [hshort]
  simp only
  rw [if_neg (by omega), Bool.not_false, Bool.true_or, if_pos rfl]

theorem rewrites_character : Text.Rewrites (character false) where
  kept _ h := character_of_isSurrogate h
  written c h := ⟨character_ne_nil c, isScalar_character h⟩

theorem surrogates?_string (t rest : Text) :
    (string false t ++ rest).surrogates? = t.surrogates?.or rest.surrogates? := by
  have hquote : CodePoint.isSurrogate ('"' : CodePoint) = false := by decide
  have hstring : string false t ++ rest =
      ('"' : CodePoint) :: (t.flatMap (character false) ++ ('"' : CodePoint) :: rest) := by
    simp [string, Text.ofString]
  rw [hstring, Text.surrogates?_cons hquote, Text.surrogates?_append_cons hquote,
    Text.surrogates?_flatMap rewrites_character]

mutual

theorem surrogates?_value (depth : Nat) (v : Json) (rest : Text) :
    (value document depth v rest).surrogates? = v.surrogates?.or rest.surrogates? := by
  -- What stands between the texts of a document has no surrogates.
  match v with
  | .null | .bool true | .bool false => exact surrogates?_scalar_append (isScalar_ofString _) rest
  | .number n => exact surrogates?_scalar_append (isScalar_number n) rest
  | .text t => exact surrogates?_string t rest
  | .array [] | .object [] => exact surrogates?_scalar_append (isScalar_ofString _) rest
  | .array (v :: vs) =>
    rw [value, surrogates?_scalar_append (isScalar_ofString _),
      surrogates?_scalar_append (isScalar_break (depth + 1)), surrogates?_value, surrogates?_items,
      surrogates?_scalar_append (isScalar_break depth), surrogates?_scalar_append (isScalar_ofString _),
      Json.surrogates?, surrogatesOfItems?, Option.or_assoc]
  | .object ((k, v) :: fs) =>
    rw [value, surrogates?_scalar_append (isScalar_ofString _),
      surrogates?_scalar_append (isScalar_break (depth + 1)), Reader.ascii_document, surrogates?_string,
      surrogates?_scalar_append (isScalar_ofString _), surrogates?_value, surrogates?_fields,
      surrogates?_scalar_append (isScalar_break depth), surrogates?_scalar_append (isScalar_ofString _),
      Json.surrogates?, surrogatesOfFields?, Option.or_assoc, Option.or_assoc]

theorem surrogates?_items (depth : Nat) (vs : List Json) (rest : Text) :
    (items document depth vs rest).surrogates? = (surrogatesOfItems? vs).or rest.surrogates? := by
  match vs with
  | [] => rfl
  | v :: vs =>
    rw [items, surrogates?_scalar_append (isScalar_comma depth), surrogates?_value, surrogates?_items,
      surrogatesOfItems?, Option.or_assoc]

theorem surrogates?_fields (depth : Nat) (fs : List (Text × Json)) (rest : Text) :
    (fields document depth fs rest).surrogates? = (surrogatesOfFields? fs).or rest.surrogates? := by
  match fs with
  | [] => rfl
  | (k, v) :: fs =>
    rw [fields, surrogates?_scalar_append (isScalar_comma depth), Reader.ascii_document, surrogates?_string,
      surrogates?_scalar_append (isScalar_ofString _), surrogates?_value, surrogates?_fields,
      surrogatesOfFields?, Option.or_assoc, Option.or_assoc]

end

end Printer

theorem surrogates?_toDocument (v : Json) : v.toDocument.surrogates? = v.surrogates? := by
  have h := Printer.surrogates?_value 0 v []
  rwa [Text.surrogates?, Option.or_none] at h

end Json

end ThreatDesk
