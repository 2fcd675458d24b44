import ThreatDesk.Json.Printer
import ThreatDesk.Json.Reader

/-!
# Strings read back

A string of a document is read back as its text, whatever code points it holds (`string_string`).
-/

namespace ThreatDesk

namespace Json.Reader

theorem hexValue?_hexDigit {n : Nat} (h : n < 16) : (Text.hexDigit n).hexValue? = some n := by
  have hall : ∀ n, n < 16 → (Text.hexDigit n).hexValue? = some n := by decide
  exact hall n h

theorem hex4?_hex {n : Nat} (h : n < 0x10000) :
    hex4? (Text.hexDigit (n / 16 / 16 / 16 % 16)) (Text.hexDigit (n / 16 / 16 % 16))
      (Text.hexDigit (n / 16 % 16)) (Text.hexDigit (n % 16)) = some n := by
  simp only [hex4?, hexValue?_hexDigit (Nat.mod_lt _ (by decide : 0 < 16)), Option.bind_eq_bind,
    Option.bind_some, Option.pure_def, Option.some.injEq]
  omega

theorem unit_eq (n : Nat) : Printer.unit n =
    [('\\' : CodePoint), ('u' : CodePoint), Text.hexDigit (n / 16 / 16 / 16 % 16),
      Text.hexDigit (n / 16 / 16 % 16), Text.hexDigit (n / 16 % 16), Text.hexDigit (n % 16)] := rfl

theorem string_skip (start read skipped rest : Text) :
    string start read skipped.length (skipped ++ rest) = string start read 0 rest := by
  induction skipped with
  | nil => rfl
  | cons c t ih =>
    rw [List.length_cons, List.cons_append, string]
    exact ih

theorem string_raw (start read : Text) {c : CodePoint} (hq : c ≠ '"') (hb : c ≠ '\\')
    (hc : ¬ c.val < 0x20) (rest : Text) :
    string start read 0 (c :: rest) = string start (c :: read) 0 rest := by
  rw [string, if_neg hq, if_neg hb, if_neg hc]

theorem string_short (start read : Text) {l c : CodePoint} (hu : l ≠ 'u')
    (h : simpleEscape? l = some c) (rest : Text) :
    string start read 0 (('\\' : CodePoint) :: l :: rest) = string start (c :: read) 0 rest := by
  have he : escape start (l :: rest) = .ok (c, 1) := by
    unfold escape
    simp only [if_neg hu, h]
  rw [string, if_neg (by decide), if_pos rfl, he]
  exact string_skip start (c :: read) [l] rest

theorem string_unit (start read : Text) {c : CodePoint} (hc : c.val < 0x20) {rest : Text}
    (hr : rest ≠ []) :
    string start read 0 (Printer.unit c.val ++ rest) = string start (c :: read) 0 rest := by
  cases rest with
  | nil => exact absurd rfl hr
  | cons e rest =>
    have hh : Utf16.isHigh c.val = false := by
      simp only [Utf16.isHigh, Bool.and_eq_false_iff, decide_eq_false_iff_not]
      omega
    have hx := hex4?_hex (by omega : c.val < 0x10000)
    have he (d0 d1 d2 d3 : CodePoint) (hd : hex4? d0 d1 d2 d3 = some c.val) :
        escape start (('u' : CodePoint) :: d0 :: d1 :: d2 :: d3 :: e :: rest) = .ok (c, 5) := by
      rw [escape, if_pos rfl]
      simp only [hd, hh, Bool.false_eq_true, if_false, CodePoint.ofNat_val]
    rw [unit_eq]
    simp only [List.cons_append, List.nil_append]
    rw [string, if_neg (by decide), if_pos rfl, he _ _ _ _ hx]
    exact string_skip start (c :: read) [('u' : CodePoint), _, _, _, _] (e :: rest)

/-- Every character of a string is read back from how it is written. -/
theorem string_character (start read : Text) (c : CodePoint) {rest : Text} (hr : rest ≠ []) :
    string start read 0 (Printer.character false c ++ rest) = string start (c :: read) 0 rest := by
  unfold Printer.character Printer.short?
  by_cases hq : c = '"'
  · subst hq
    exact string_short start read (by decide) (by decide) rest
  by_cases hb : c = '\\'
  · subst hb
    exact string_short start read (by decide) (by decide) rest
  by_cases hn : c = '\n'
  · subst hn
    exact string_short start read (by decide) (by decide) rest
  by_cases hcr : c = '\r'
  · subst hcr
    exact string_short start read (by decide) (by decide) rest
  by_cases ht : c = '\t'
  · subst ht
    exact string_short start read (by decide) (by decide) rest
  by_cases h8 : c.val = 8
  · obtain rfl : c = CodePoint.ofNat 8 := CodePoint.ext h8
    exact string_short start read (l := 'b') (by decide) (by decide) rest
  by_cases h12 : c.val = 12
  · obtain rfl : c = CodePoint.ofNat 12 := CodePoint.ext h12
    exact string_short start read (l := 'f') (by decide) (by decide) rest
  simp only [if_neg hq, if_neg hb, if_neg hn, if_neg hcr, if_neg ht, if_neg h8, if_neg h12]
  by_cases hc : c.val < 0x20
  · rw [if_pos hc]
    exact string_unit start read hc hr
  · rw [if_neg hc]
    exact string_raw start read hq hb hc rest

theorem string_characters (start read t rest : Text) :
    string start read 0 (t.flatMap (Printer.character false) ++ (('"' : CodePoint) :: rest)) =
      .ok (read.reverse ++ t, rest) := by
  induction t generalizing read with
  | nil =>
    rw [List.flatMap_nil, List.nil_append, string, if_pos rfl, List.append_nil]
  | cons c t ih =>
    rw [List.flatMap_cons, List.append_assoc, string_character _ _ _ (by simp), ih]
    simp

theorem string_string (start t rest : Text) :
    ∃ inner, Printer.string false t ++ rest = ('"' : CodePoint) :: inner ∧
      string start [] 0 inner = .ok (t, rest) := by
  refine ⟨t.flatMap (Printer.character false) ++ (('"' : CodePoint) :: rest), ?_, ?_⟩
  · simp only [Printer.string, List.append_assoc]
    rfl
  · exact string_characters start [] t rest

end Json.Reader

end ThreatDesk
