import ThreatDesk.Encoding.Utf16

/-!
# UTF-8 read back

Text without surrogates has bytes, and they are read back as the text (`tolerant_encoded`).
-/

namespace ThreatDesk

def Text.IsScalar (t : Text) : Prop := ∀ c ∈ t, c.isSurrogate = false

namespace Text

instance (t : Text) : Decidable t.IsScalar := inferInstanceAs (Decidable (∀ c ∈ t, _))

theorem isScalar_nil : IsScalar [] := by
  simp [IsScalar]

theorem isScalar_cons {c : CodePoint} {t : Text} :
    IsScalar (c :: t) ↔ c.isSurrogate = false ∧ IsScalar t := by
  simp [IsScalar]

theorem isScalar_append {s t : Text} : IsScalar (s ++ t) ↔ IsScalar s ∧ IsScalar t := by
  simp only [IsScalar, List.mem_append]
  constructor
  · intro h
    exact ⟨fun c hc => h c (Or.inl hc), fun c hc => h c (Or.inr hc)⟩
  · rintro ⟨hs, ht⟩ c (hc | hc)
    · exact hs c hc
    · exact ht c hc

theorem isScalar_ofString (s : String) : IsScalar (ofString s) := by
  intro c hc
  obtain ⟨d, -, rfl⟩ := List.mem_map.1 hc
  have hd := d.valid
  unfold UInt32.isValidChar Nat.isValidChar at hd
  have hv : (CodePoint.ofChar d).val = d.val.toNat := rfl
  simp only [CodePoint.isSurrogate, hv, Bool.and_eq_false_iff, decide_eq_false_iff_not]
  omega

end Text

namespace Encoding

theorem unmarkedRun?_of_isScalar {isMark : CodePoint → Bool} {t : Text} (h : t.IsScalar)
    (pos : Nat) : unmarkedRun? isMark pos t = none := by
  induction t generalizing pos with
  | nil => rfl
  | cons c t ih =>
    obtain ⟨hc, ht⟩ := Text.isScalar_cons.1 h
    rw [unmarkedRun?, if_neg (by simp [hc])]
    exact ih ht (pos + 1)

theorem unmarkedRun?_eq_none_iff {isMark : CodePoint → Bool} {t : Text} (pos : Nat) :
    unmarkedRun? isMark pos t = none ↔ ∀ c ∈ t, c.isSurrogate = false ∨ isMark c = true := by
  induction t generalizing pos with
  | nil => simp [unmarkedRun?]
  | cons c t ih =>
    rw [unmarkedRun?, List.forall_mem_cons, ← ih (pos + 1)]
    cases hs : c.isSurrogate <;> cases hm : isMark c <;> simp

theorem decodeFrom_skip (s : Scheme) (mend : Mend) (read : Text) (bs rest : Bytes) (pos : Nat) :
    decodeFrom s mend read bs.length pos (bs ++ rest) =
      decodeFrom s mend read 0 (pos + bs.length) rest := by
  induction bs generalizing pos with
  | nil => rfl
  | cons b bs ih =>
    rw [List.length_cons, List.cons_append, decodeFrom, ih, Nat.add_right_comm, Nat.add_assoc]

theorem decodeFrom_code {s : Scheme} {bs rest : Bytes} {c : CodePoint} (hne : bs ≠ [])
    (h : s.next (bs ++ rest) = .code c bs.length) (mend : Mend) (read : Text) (pos : Nat) :
    decodeFrom s mend read 0 pos (bs ++ rest) =
      decodeFrom s mend (c :: read) 0 (pos + bs.length) rest := by
  cases bs with
  | nil => exact absurd rfl hne
  | cons b bs =>
    rw [List.cons_append] at h ⊢
    rw [decodeFrom]
    simp only [h, List.length_cons, Nat.add_sub_cancel]
    rw [decodeFrom_skip, Nat.add_right_comm, Nat.add_assoc]

end Encoding

namespace Utf8

open Encoding

theorem toNat_ofNat {n : Nat} (h : n < 256) : (UInt8.ofNat n).toNat = n := by
  rw [UInt8.toNat_ofNat']
  exact Nat.mod_eq_of_lt h

theorem ofNat_lt_iff {n : Nat} (h : n < 256) (b : UInt8) : UInt8.ofNat n < b ↔ n < b.toNat := by
  rw [UInt8.lt_iff_toNat_lt, toNat_ofNat h]

theorem ofNat_eq_iff {n : Nat} (h : n < 256) (b : UInt8) : UInt8.ofNat n = b ↔ n = b.toNat := by
  rw [← UInt8.toNat_inj, toNat_ofNat h]

theorem le_ofNat_iff {n : Nat} (h : n < 256) (b : UInt8) : b ≤ UInt8.ofNat n ↔ b.toNat ≤ n := by
  rw [UInt8.le_iff_toNat_le, toNat_ofNat h]

theorem ofNat_le_iff {n : Nat} (h : n < 256) (b : UInt8) : UInt8.ofNat n ≤ b ↔ n ≤ b.toNat := by
  rw [UInt8.le_iff_toNat_le, toNat_ofNat h]

theorem isTail_tail {n : Nat} (h : n < 64) : isTail (UInt8.ofNat (0x80 + n)) = true := by
  have hb : 0x80 + n < 256 := by omega
  simp only [isTail, Bool.and_eq_true, decide_eq_true_eq, le_ofNat_iff hb, ofNat_le_iff hb]
  exact ⟨Nat.le_add_right _ _, show 128 + n ≤ 191 by omega⟩

theorem tailBits_tail {n : Nat} (h : n < 64) : tailBits (UInt8.ofNat (0x80 + n)) = n := by
  rw [tailBits, toNat_ofNat (by omega)]
  omega

theorem ofNat_eq {n : Nat} {c : CodePoint} (h : n = c.val) : CodePoint.ofNat n = c := by
  rw [h, CodePoint.ofNat_val]

/-! ## One code point -/

theorem next_ofNat {n : Nat} (h : n < 256) (bs : Bytes) :
    next (UInt8.ofNat n :: bs) =
      if n < 0x80 then .code (CodePoint.ofNat n) 1
      else if n < 0xC2 then invalidStart
      else if n < 0xE0 then two (UInt8.ofNat n) bs
      else if n < 0xF0 then three (UInt8.ofNat n) bs
      else if n < 0xF5 then four (UInt8.ofNat n) bs
      else invalidStart := by
  simp only [next, ofNat_lt_iff h, toNat_ofNat h, UInt8.reduceToNat]

theorem next_one {c : CodePoint} (h : c.val < 0x80) (rest : Bytes) :
    next (UInt8.ofNat c.val :: rest) = .code c 1 := by
  rw [next_ofNat (by omega), if_pos h, CodePoint.ofNat_val]

theorem next_two {c : CodePoint} (hl : 0x80 ≤ c.val) (hu : c.val < 0x800) (rest : Bytes) :
    next (UInt8.ofNat (0xC0 + c.val / 64) :: UInt8.ofNat (0x80 + c.val % 64) :: rest) =
      .code c 2 := by
  have ha : 0xC0 + c.val / 64 < 256 := by omega
  rw [next_ofNat ha, if_neg (by omega), if_neg (by omega), if_pos (by omega), two,
    if_pos (isTail_tail (by omega)), toNat_ofNat ha, tailBits_tail (by omega),
    ofNat_eq (by omega : _ = c.val)]

theorem isSecond_three {n : Nat} (hl : 0x800 ≤ n) (hu : n < 0x10000)
    (hs : ¬ (0xD800 ≤ n ∧ n ≤ 0xDFFF)) :
    isSecond (UInt8.ofNat (0xE0 + n / 4096)) (UInt8.ofNat (0x80 + n / 64 % 64)) = true := by
  have ha : 0xE0 + n / 4096 < 256 := by omega
  have hb : 0x80 + n / 64 % 64 < 256 := by omega
  simp only [isSecond, isTail_tail (by omega : n / 64 % 64 < 64), ofNat_eq_iff ha, ofNat_lt_iff hb,
    le_ofNat_iff hb, Bool.true_and, Bool.and_eq_true, Bool.not_eq_true', Bool.and_eq_false_iff,
    decide_eq_false_iff_not, UInt8.reduceToNat]
  omega

theorem next_three {c : CodePoint} (hl : 0x800 ≤ c.val) (hu : c.val < 0x10000)
    (hs : c.isSurrogate = false) (rest : Bytes) :
    next (UInt8.ofNat (0xE0 + c.val / 4096) :: UInt8.ofNat (0x80 + c.val / 64 % 64) ::
      UInt8.ofNat (0x80 + c.val % 64) :: rest) = .code c 3 := by
  have hs : ¬ (0xD800 ≤ c.val ∧ c.val ≤ 0xDFFF) := by
    simpa [CodePoint.isSurrogate] using hs
  have ha : 0xE0 + c.val / 4096 < 256 := by omega
  rw [next_ofNat ha, if_neg (by omega), if_neg (by omega), if_neg (by omega), if_pos (by omega),
    three, isSecond_three hl hu hs, isTail_tail (by omega), toNat_ofNat ha,
    tailBits_tail (by omega), tailBits_tail (by omega), ofNat_eq (by omega : _ = c.val)]
  rfl

theorem isSecond_four {n : Nat} (hl : 0x10000 ≤ n) (hu : n < 0x110000) :
    isSecond (UInt8.ofNat (0xF0 + n / 262144)) (UInt8.ofNat (0x80 + n / 4096 % 64)) = true := by
  have ha : 0xF0 + n / 262144 < 256 := by omega
  have hb : 0x80 + n / 4096 % 64 < 256 := by omega
  simp only [isSecond, isTail_tail (by omega : n / 4096 % 64 < 64), ofNat_eq_iff ha,
    ofNat_lt_iff hb, le_ofNat_iff hb, Bool.true_and, Bool.and_eq_true, Bool.not_eq_true',
    Bool.and_eq_false_iff, decide_eq_false_iff_not, UInt8.reduceToNat]
  omega

theorem next_four {c : CodePoint} (hl : 0x10000 ≤ c.val) (rest : Bytes) :
    next (UInt8.ofNat (0xF0 + c.val / 262144) :: UInt8.ofNat (0x80 + c.val / 4096 % 64) ::
      UInt8.ofNat (0x80 + c.val / 64 % 64) :: UInt8.ofNat (0x80 + c.val % 64) :: rest) =
      .code c 4 := by
  have hu := c.isLt
  have ha : 0xF0 + c.val / 262144 < 256 := by omega
  rw [next_ofNat ha, if_neg (by omega), if_neg (by omega), if_neg (by omega), if_neg (by omega),
    if_pos (by omega), four, isSecond_four hl hu, isTail_tail (by omega), isTail_tail (by omega),
    toNat_ofNat ha, tailBits_tail (by omega), tailBits_tail (by omega), tailBits_tail (by omega),
    ofNat_eq (by omega : _ = c.val)]
  rfl

theorem next_encodeCodePoint {c : CodePoint} (h : c.isSurrogate = false) (rest : Bytes) :
    next (encodeCodePoint c ++ rest) = .code c (encodeCodePoint c).length := by
  unfold encodeCodePoint
  simp only [Nat.div_one]
  split
  · next h1 => exact next_one h1 rest
  · split
    · next h1 h2 => exact next_two (Nat.not_lt.1 h1) h2 rest
    · split
      · next h2 h3 => exact next_three (Nat.not_lt.1 h2) h3 h rest
      · next h3 => exact next_four (Nat.not_lt.1 h3) rest

theorem encodeCodePoint_ne_nil (c : CodePoint) : encodeCodePoint c ≠ [] := by
  unfold encodeCodePoint
  simp only
  split
  · exact List.cons_ne_nil _ _
  · split
    · exact List.cons_ne_nil _ _
    · split <;> exact List.cons_ne_nil _ _

/-! ## Text -/

theorem decodeFrom_encoded {t : Text} (h : t.IsScalar) (mend : Mend) (read : Text) (pos : Nat) :
    decodeFrom scheme mend read 0 pos (t.flatMap encodeCodePoint) = .ok (read.reverse ++ t) := by
  induction t generalizing read pos with
  | nil => simp [decodeFrom]
  | cons c t ih =>
    obtain ⟨hc, ht⟩ := Text.isScalar_cons.1 h
    rw [List.flatMap_cons, decodeFrom_code (encodeCodePoint_ne_nil c) (next_encodeCodePoint hc _),
      ih ht]
    simp

theorem tolerant_encoded {t : Text} (h : t.IsScalar) :
    scheme.tolerant (t.flatMap encodeCodePoint) = .ok t :=
  decodeFrom_encoded h _ [] 0

theorem strict_encoded {t : Text} (h : t.IsScalar) :
    scheme.strict (t.flatMap encodeCodePoint) = .ok t :=
  decodeFrom_encoded h _ [] 0

theorem encode_of_isScalar {t : Text} (h : t.IsScalar) :
    encode t = .ok (t.flatMap encodeCodePoint) := by
  rw [encode, surrogateRun?, unmarkedRun?_of_isScalar h]

theorem encode_eq_ok {t : Text} {bytes : Bytes} (h : encode t = .ok bytes) :
    t.IsScalar ∧ bytes = t.flatMap encodeCodePoint := by
  unfold encode surrogateRun? at h
  split at h
  · exact nomatch h
  · next hnone =>
    have hmarks := (unmarkedRun?_eq_none_iff 0).1 hnone
    exact ⟨fun c hc => (hmarks c hc).resolve_right (by simp), (Except.ok.inj h).symm⟩

end Utf8

end ThreatDesk
