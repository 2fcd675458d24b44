import ThreatDesk.Json.Reader
import Mathlib.Data.List.TakeWhile

/-!
# Decimal numbers

What is written of a natural number is read back as the number (`digitsValue_ofNat`), takes as many
digits as the limit on its size allows (`length_ofNat_le`), and is all of a whole part
(`whole?_ofNat`).
-/

namespace ThreatDesk

namespace Text

def digit (n : Nat) : CodePoint := CodePoint.ofChar n.digitChar

theorem val_digit {n : Nat} (h : n < 10) : (digit n).val = 0x30 + n :=
  Nat.toNat_digitChar_of_lt_ten h

theorem isDigit_digit {n : Nat} (h : n < 10) : (digit n).isDigit = true := by
  simp only [CodePoint.isDigit, val_digit h, Bool.and_eq_true, decide_eq_true_eq]
  omega

theorem ofNat_of_lt {n : Nat} (h : n < 10) : ofNat n = [digit n] := by
  rw [ofNat, Nat.toDigits_of_lt_base h]
  rfl

theorem ofNat_of_le {n : Nat} (h : 10 ≤ n) : ofNat n = ofNat (n / 10) ++ [digit (n % 10)] := by
  rw [ofNat, Nat.toDigits_of_base_le (by omega) h, List.map_append]
  rfl

theorem ofNat_ne_nil (n : Nat) : ofNat n ≠ [] := by
  simp [ofNat]

theorem isDigit_of_mem_ofNat (n : Nat) : ∀ c ∈ ofNat n, c.isDigit = true := by
  induction n using Nat.strongRecOn with
  | ind n ih =>
    rcases Nat.lt_or_ge n 10 with h | h
    · rw [ofNat_of_lt h]
      simpa using isDigit_digit h
    · rw [ofNat_of_le h]
      intro c hc
      rcases List.mem_append.1 hc with hc | hc
      · exact ih (n / 10) (by omega) c hc
      · rw [List.mem_singleton.1 hc]
        exact isDigit_digit (by omega)

theorem length_ofNat_le {n k : Nat} (hk : 0 < k) (h : n < tenTo k) : (ofNat n).length ≤ k := by
  rw [ofNat, List.length_map]
  exact (Nat.length_toDigits_le_iff (by omega) hk).2 h

theorem lt_length_ofNat {n k : Nat} (hk : 0 < k) (h : tenTo k ≤ n) : k < (ofNat n).length := by
  rw [ofNat, List.length_map, ← Nat.not_le]
  exact fun hle => Nat.not_lt.2 h ((Nat.length_toDigits_le_iff (by omega) hk).1 hle)

theorem length_tenTo {k : Nat} (hk : 0 < k) : (ofNat (tenTo k)).length = k + 1 := by
  have hlow := lt_length_ofNat hk (Nat.le_refl (tenTo k))
  have hone : tenTo 1 = 10 := rfl
  have hpos := tenTo_pos k
  have hnext : tenTo k < tenTo (k + 1) := by
    rw [tenTo_add, hone]
    omega
  exact Nat.le_antisymm (length_ofNat_le (Nat.succ_pos k) hnext) hlow

theorem head?_ofNat {n : Nat} (h : n ≠ 0) : (ofNat n).head? ≠ some (digit 0) := by
  induction n using Nat.strongRecOn with
  | ind n ih =>
    rcases Nat.lt_or_ge n 10 with hn | hn
    · rw [ofNat_of_lt hn]
      intro he
      have hv := congrArg CodePoint.val (Option.some.inj he)
      rw [val_digit hn, val_digit (by omega)] at hv
      omega
    · have hne := ofNat_ne_nil (n / 10)
      have hi := ih (n / 10) (by omega) (by omega)
      rw [ofNat_of_le hn]
      cases ht : ofNat (n / 10) with
      | nil => exact absurd ht hne
      | cons c t =>
        rw [ht] at hi
        exact hi

end Text

namespace Json.Reader

theorem digitsValue_append (t : Text) (c : CodePoint) :
    digitsValue (t ++ [c]) = digitsValue t * 10 + (c.val - 0x30) := by
  simp [digitsValue, Integer.value]

theorem digitsValue_ofNat (n : Nat) : digitsValue (Text.ofNat n) = n := by
  induction n using Nat.strongRecOn with
  | ind n ih =>
    rcases Nat.lt_or_ge n 10 with h | h
    · rw [Text.ofNat_of_lt h]
      simp [digitsValue, Integer.value, Text.val_digit h]
    · rw [Text.ofNat_of_le h, digitsValue_append, ih _ (by omega), Text.val_digit (by omega)]
      omega

def EndsDigits (rest : Text) : Prop := ∀ c ∈ rest.head?, c.isDigit = false

/-- What follows a number does not go on with it: no digit, no point and no power. -/
def EndsNumber (rest : Text) : Prop :=
  ∀ c ∈ rest.head?, c.isDigit = false ∧ c ≠ '.' ∧ c ≠ 'e' ∧ c ≠ 'E'

theorem EndsNumber.endsDigits {rest : Text} (h : EndsNumber rest) : EndsDigits rest :=
  fun c hc => (h c hc).1

theorem takeWhile_isDigit {t rest : Text} (ht : ∀ c ∈ t, c.isDigit = true)
    (hr : EndsDigits rest) : (t ++ rest).takeWhile CodePoint.isDigit = t := by
  rw [List.takeWhile_append_of_pos ht]
  cases rest with
  | nil => simp
  | cons c rest =>
    have hc := hr c rfl
    simp [hc]

theorem dropWhile_isDigit {t rest : Text} (ht : ∀ c ∈ t, c.isDigit = true)
    (hr : EndsDigits rest) : (t ++ rest).dropWhile CodePoint.isDigit = rest := by
  rw [List.dropWhile_append_of_pos ht]
  cases rest with
  | nil => rfl
  | cons c rest =>
    have hc := hr c rfl
    simp [hc]

theorem whole?_digits {t rest : Text} (hd : ∀ c ∈ t, c.isDigit = true) (hne : t ≠ [])
    (hz : t.head? = some (Text.digit 0) → t = [Text.digit 0]) (hr : EndsDigits rest) :
    whole? (t ++ rest) = some (t, rest) := by
  cases t with
  | nil => exact absurd rfl hne
  | cons c t =>
    by_cases hc : c = '0'
    · obtain ⟨rfl, rfl⟩ := List.cons.inj (hz (congrArg some hc))
      rfl
    · have htd : ∀ d ∈ t, d.isDigit = true := fun d hm => hd d (List.mem_cons_of_mem _ hm)
      rw [List.cons_append, whole?, if_neg hc, if_pos (hd c List.mem_cons_self),
        takeWhile_isDigit htd hr, dropWhile_isDigit htd hr]

theorem whole?_ofNat (n : Nat) {rest : Text} (hr : EndsDigits rest) :
    whole? (Text.ofNat n ++ rest) = some (Text.ofNat n, rest) := by
  refine whole?_digits (Text.isDigit_of_mem_ofNat n) (Text.ofNat_ne_nil n) (fun hz => ?_) hr
  by_cases hn : n = 0
  · rw [hn, Text.ofNat_of_lt (by omega)]
  · exact absurd hz (Text.head?_ofNat hn)

theorem fraction?_of_ends {rest : Text} (hr : EndsNumber rest) : fraction? rest = none := by
  match rest with
  | [] => rfl
  | [c] => rfl
  | c :: d :: t =>
    have hc := (hr c rfl).2.1
    rw [fraction?, if_neg (fun h => hc h.1)]

theorem exponent?_of_ends {rest : Text} (hr : EndsNumber rest) : exponent? rest = none := by
  match rest with
  | [] => rfl
  | c :: t =>
    have hc := (hr c rfl).2.2
    have hn : ¬ (c = 'e' ∨ c = 'E') := fun h => Or.elim h hc.1 hc.2
    unfold exponent?
    simp only [if_neg hn]

theorem number_ofInt_eq (n : Int) {rest : Text} (hr : EndsNumber rest) (start : Text) :
    number start (Text.ofInt n ++ rest) =
      if (Text.ofNat n.natAbs).length > Integer.digitLimit then
        .error (.number (.tooLong (Text.ofNat n.natAbs).length))
      else .ok (.number (.integer n), rest) := by
  cases n with
  | ofNat m =>
    have hd := Text.isDigit_of_mem_ofNat m
    cases ht : Text.ofNat m with
    | nil => exact absurd ht (Text.ofNat_ne_nil m)
    | cons c t =>
      have hc : c ≠ '-' := by
        rintro rfl
        have := hd '-' (by rw [ht]; exact List.mem_cons_self)
        revert this
        decide
      rw [Text.ofInt, ht, List.cons_append, number, if_neg hc, ← List.cons_append, ← ht]
      simp only [whole?_ofNat m hr.endsDigits, fraction?_of_ends hr, exponent?_of_ends hr, Bool.or_self,
        Bool.false_eq_true, if_false, digitsValue_ofNat]
      rfl
  | negSucc m =>
    have hs : Text.ofInt (Int.negSucc m) ++ rest =
        ('-' : CodePoint) :: (Text.ofNat (m + 1) ++ rest) := rfl
    rw [hs, number, if_pos rfl]
    simp only [whole?_ofNat (m + 1) hr.endsDigits, fraction?_of_ends hr, exponent?_of_ends hr, Bool.or_self,
      Bool.false_eq_true, if_false, digitsValue_ofNat, if_true]
    rfl

theorem number_ofInt {n : Int} (h : n.natAbs < tenTo Integer.digitLimit) {rest : Text}
    (hr : EndsNumber rest) (start : Text) :
    number start (Text.ofInt n ++ rest) = .ok (.number (.integer n), rest) := by
  have hlen := Text.length_ofNat_le (by decide) h
  rw [number_ofInt_eq n hr, if_neg (Nat.not_lt.2 hlen)]

theorem number_tooLong {n : Int} (h : tenTo Integer.digitLimit ≤ n.natAbs) {rest : Text}
    (hr : EndsNumber rest) (start : Text) :
    number start (Text.ofInt n ++ rest) =
      .error (.number (.tooLong (Text.ofNat n.natAbs).length)) := by
  rw [number_ofInt_eq n hr, if_pos (Text.lt_length_ofNat (by decide) h)]

end Json.Reader

end ThreatDesk
