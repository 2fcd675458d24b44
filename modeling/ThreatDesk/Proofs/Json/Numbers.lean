import ThreatDesk.Proofs.Number.Shortest
import ThreatDesk.Proofs.Text.Decimal

/-!
# Doubles read back

What is written of a double is read back as the double (`number_toText`). Each of the five layouts of
its text is one way to fill in a number's parts (`writes_decimalText`), and a number is read part by part
(`number_written`).
-/

namespace ThreatDesk

namespace Text

theorem replicate_zero_eq (n : Nat) : replicate n "0" = List.replicate n (digit 0) := by
  rw [replicate, show (("0" : String) : Text) = [digit 0] from rfl, List.flatten_replicate_singleton]

theorem isDigit_of_mem_zeros {n : Nat} : ∀ c ∈ List.replicate n (digit 0), c.isDigit = true := by
  intro c hc
  rw [List.eq_of_mem_replicate hc]
  exact isDigit_digit (by decide)

theorem isDigit_of_mem_padded (width n : Nat) : ∀ c ∈ ofNatPadded width n, c.isDigit = true := by
  intro c hc
  rcases List.mem_append.1 hc with hc | hc
  · exact isDigit_of_mem_zeros c hc
  · exact isDigit_of_mem_ofNat n c hc

theorem ofNatPadded_ne_nil (width n : Nat) : ofNatPadded width n ≠ [] := by
  simp [ofNatPadded, ofNat_ne_nil]

end Text

namespace Json.Reader

open Binary64 (decimalText exponentText)

theorem digitsValue_append_text (s t : Text) :
    digitsValue (s ++ t) = digitsValue s * 10 ^ t.length + digitsValue t := by
  induction t using List.reverseRecOn with
  | nil => simp [digitsValue, Integer.value]
  | append_singleton t c ih =>
    rw [← List.append_assoc, digitsValue_append, digitsValue_append, ih, List.length_append]
    rw [List.length_singleton, pow_succ]
    ring

theorem digitsValue_zeros (n : Nat) : digitsValue (List.replicate n (Text.digit 0)) = 0 := by
  induction n with
  | zero => rfl
  | succ n ih =>
    rw [List.replicate_succ', digitsValue_append, ih]
    rfl

theorem digitsValue_padded (width n : Nat) : digitsValue (Text.ofNatPadded width n) = n := by
  have h := digitsValue_append_text
    (List.replicate (width - (Text.ofNat n).length) (Text.digit 0)) (Text.ofNat n)
  rw [digitsValue_zeros, digitsValue_ofNat, Nat.zero_mul, Nat.zero_add] at h
  exact h

/-! ## The parts of a number -/

def pointed : Text → Text
  | [] => []
  | d :: places => '.' :: d :: places

def raised : Option Int → Text
  | none => []
  | some p => exponentText p

def EndsPlaces (rest : Text) : Prop := ∀ c ∈ rest.head?, c.isDigit = false ∧ c ≠ '.'

theorem EndsPlaces.endsDigits {rest : Text} (h : EndsPlaces rest) : EndsDigits rest :=
  fun c hc => (h c hc).1

theorem exponentText_cons (p : Int) : ∃ t, exponentText p = ('e' : CodePoint) :: t := by
  unfold exponentText
  split <;> exact ⟨_, rfl⟩

theorem endsPlaces_raised (power? : Option Int) {rest : Text} (hr : EndsNumber rest) :
    EndsPlaces (raised power? ++ rest) := by
  cases power? with
  | none => exact fun c hc => ⟨(hr c hc).1, (hr c hc).2.1⟩
  | some p =>
    obtain ⟨t, ht⟩ := exponentText_cons p
    intro c hc
    rw [raised, ht] at hc
    obtain rfl : 'e' = c := Option.some.inj hc
    decide

theorem endsDigits_pointed (places : Text) {rest : Text} (hr : EndsPlaces rest) :
    EndsDigits (pointed places ++ rest) := by
  cases places with
  | nil => exact hr.endsDigits
  | cons d places =>
    intro c hc
    obtain rfl : '.' = c := Option.some.inj hc
    decide

theorem fraction?_pointed {places rest : Text} (hd : ∀ c ∈ places, c.isDigit = true)
    (hr : EndsPlaces rest) :
    fraction? (pointed places ++ rest) =
      if places = [] then none else some (places, rest) := by
  cases places with
  | nil =>
    match rest with
    | [] => rfl
    | [c] => rfl
    | c :: d :: t =>
      have hc := (hr c rfl).2
      show fraction? (c :: d :: t) = none
      rw [fraction?, if_neg (fun h => hc h.1)]
  | cons d places =>
    have hc : d.isDigit = true := hd d List.mem_cons_self
    have hpd : ∀ c ∈ places, c.isDigit = true := fun c hm => hd c (List.mem_cons_of_mem _ hm)
    show fraction? ('.' :: d :: (places ++ rest)) = some (d :: places, rest)
    rw [fraction?, if_pos ⟨rfl, hc⟩, takeWhile_isDigit hpd hr.endsDigits,
      dropWhile_isDigit hpd hr.endsDigits]

theorem exponent?_exponentText (p : Int) {rest : Text} (hr : EndsDigits rest) :
    exponent? (exponentText p ++ rest) = some (p, rest) := by
  have hd := Text.isDigit_of_mem_padded 2 p.natAbs
  have hne : ((Text.ofNatPadded 2 p.natAbs).isEmpty) = false :=
    List.isEmpty_eq_false_iff.2 (Text.ofNatPadded_ne_nil 2 p.natAbs)
  have htake := takeWhile_isDigit hd hr
  have hdrop := dropWhile_isDigit hd hr
  have hvalue := digitsValue_padded 2 p.natAbs
  unfold exponentText
  split
  · next hp =>
    have hpower : -Int.ofNat p.natAbs = p := by rw [Int.ofNat_eq_natCast]; omega
    show exponent? (('e' : CodePoint) :: '-' :: (Text.ofNatPadded 2 p.natAbs ++ rest)) = _
    unfold exponent?
    simp only [true_or, if_true, htake, hdrop, hne, hvalue, hpower, Bool.false_eq_true, if_false]
  · next hp =>
    have hpower : Int.ofNat p.natAbs = p := by rw [Int.ofNat_eq_natCast]; omega
    have hplus : ¬ CodePoint.ofChar '+' = CodePoint.ofChar '-' := by decide
    show exponent? (('e' : CodePoint) :: '+' :: (Text.ofNatPadded 2 p.natAbs ++ rest)) = _
    unfold exponent?
    simp only [true_or, if_true, if_neg hplus, htake, hdrop, hne, hvalue, hpower,
      Bool.false_eq_true, if_false]

theorem exponent?_raised (power? : Option Int) {rest : Text} (hr : EndsNumber rest) :
    exponent? (raised power? ++ rest) = power?.map fun p => (p, rest) := by
  cases power? with
  | none => exact exponent?_of_ends hr
  | some p => exact exponent?_exponentText p hr.endsDigits

/-- The parts of a number that is no integer: the digits in front of the point and behind it, and the
power of ten. -/
structure Parts where
  whole : Text
  places : Text
  power? : Option Int

namespace Parts

def text (w : Parts) : Text := w.whole ++ (pointed w.places ++ raised w.power?)

def digits (w : Parts) : Nat := digitsValue (w.whole ++ w.places)

def power (w : Parts) : Int := w.power?.getD 0 - w.places.length

/-- What makes the parts a number: digits, no zero in front of others, and a point or a power. -/
structure Proper (w : Parts) : Prop where
  whole_digits : ∀ c ∈ w.whole, c.isDigit = true
  whole_ne_nil : w.whole ≠ []
  leading : w.whole.head? = some (Text.digit 0) → w.whole = [Text.digit 0]
  places_digits : ∀ c ∈ w.places, c.isDigit = true
  real : w.places ≠ [] ∨ w.power?.isSome = true

end Parts

def sign (negative : Bool) : Text := if negative then "-" else []

theorem unsigned_of_whole? {u whole behind : Text} (hu : ∀ c ∈ u.head?, c ≠ '-')
    (h : whole? u = some (whole, behind)) : ∃ c t, u = c :: t ∧ c ≠ '-' := by
  cases u with
  | nil => cases h
  | cons c t => exact ⟨c, t, rfl, hu c rfl⟩

theorem number_of_places {u whole behind places after rest : Text} {power : Int}
    (hu : ∀ c ∈ u.head?, c ≠ '-') (hwhole : whole? u = some (whole, behind))
    (hplaces : fraction? behind = some (places, after))
    (hpower : (exponent? after).getD (0, after) = (power, rest)) (s : Bool) (start : Text) :
    number start (sign s ++ u) =
      .ok (.number (.real (Binary64.ofDecimal s (digitsValue (whole ++ places))
        (power - places.length))), rest) := by
  obtain ⟨c, t, rfl, hc⟩ := unsigned_of_whole? hu hwhole
  cases s with
  | false =>
    show number start (c :: t) = _
    rw [number, if_neg hc]
    cases he : exponent? after <;> rw [he] at hpower <;> cases hpower
      <;> simp only [hwhole, hplaces, he, Bool.true_or, if_true]
  | true =>
    show number start ('-' :: c :: t) = _
    rw [number, if_pos rfl]
    cases he : exponent? after <;> rw [he] at hpower <;> cases hpower
      <;> simp only [hwhole, hplaces, he, Bool.true_or, if_true]

theorem number_of_power {u whole behind rest : Text} {power : Int}
    (hu : ∀ c ∈ u.head?, c ≠ '-') (hwhole : whole? u = some (whole, behind))
    (hplaces : fraction? behind = none) (hpower : exponent? behind = some (power, rest)) (s : Bool)
    (start : Text) :
    number start (sign s ++ u) =
      .ok (.number (.real (Binary64.ofDecimal s (digitsValue whole) power)), rest) := by
  obtain ⟨c, t, rfl, hc⟩ := unsigned_of_whole? hu hwhole
  have hnone : power - (([] : Text).length : Int) = power := Int.sub_zero power
  cases s with
  | false =>
    show number start (c :: t) = _
    rw [number, if_neg hc]
    simp only [hwhole, hplaces, hpower, Bool.or_true, if_true, List.append_nil, hnone]
  | true =>
    show number start ('-' :: c :: t) = _
    rw [number, if_pos rfl]
    simp only [hwhole, hplaces, hpower, Bool.or_true, if_true, List.append_nil, hnone]

theorem number_written {w : Parts} (hw : w.Proper) (s : Bool) {rest : Text} (hr : EndsNumber rest)
    (start : Text) :
    number start (sign s ++ (w.text ++ rest)) =
      .ok (.number (.real (Binary64.ofDecimal s w.digits w.power)), rest) := by
  obtain ⟨whole, places, power?⟩ := w
  obtain ⟨hwd, hwne, hlead, hpd, hreal⟩ := hw
  have hendsPlaces := endsPlaces_raised power? hr
  have hwhole := whole?_digits hwd hwne hlead (endsDigits_pointed places hendsPlaces)
  have hfraction := fraction?_pointed hpd hendsPlaces
  have hexponent := exponent?_raised power? hr
  have htext : (Parts.text ⟨whole, places, power?⟩) ++ rest =
      whole ++ (pointed places ++ (raised power? ++ rest)) := by
    simp only [Parts.text, List.append_assoc]
  have hunsigned : ∀ c ∈ (whole ++ (pointed places ++ (raised power? ++ rest))).head?, c ≠ '-' := by
    cases whole with
    | nil => exact absurd rfl hwne
    | cons c t =>
      rintro d hd rfl
      obtain rfl : c = '-' := Option.some.inj hd
      exact absurd (hwd '-' List.mem_cons_self) (by decide)
  rw [htext]
  cases places with
  | cons d places =>
    refine number_of_places hunsigned hwhole hfraction ?_ s start
    rw [hexponent]
    cases power? <;> rfl
  | nil =>
    cases power? with
    | none => exact absurd hreal (by simp)
    | some p =>
      rw [number_of_power hunsigned hwhole hfraction hexponent s start]
      simp [Parts.digits, Parts.power]

/-! ## The layouts -/

def Writes (t : Text) (digits : Nat) (p : Int) : Prop :=
  ∃ w : Parts, w.Proper ∧ t = w.text ∧ (w.digits : ℚ) * 10 ^ w.power = digits * 10 ^ p

variable {digits : Nat} {p : Int}

theorem writes_whole (hd : digits ≠ 0) (hp : 0 ≤ p) :
    Writes (Text.ofNat digits ++ Text.replicate p.toNat "0" ++ ".0") digits p := by
  refine ⟨⟨Text.ofNat digits ++ List.replicate p.toNat (Text.digit 0), [Text.digit 0], none⟩,
    ⟨?_, ?_, ?_, ?_, .inl (List.cons_ne_nil _ _)⟩, ?_, ?_⟩
  · intro c hc
    exact (List.mem_append.1 hc).elim (Text.isDigit_of_mem_ofNat digits c)
      (Text.isDigit_of_mem_zeros c)
  · simp [Text.ofNat_ne_nil]
  · intro h
    rw [List.head?_append_of_ne_nil _ (Text.ofNat_ne_nil digits)] at h
    exact absurd h (Text.head?_ofNat hd)
  · intro c hc
    rw [List.mem_singleton.1 hc]
    decide
  · rw [Text.replicate_zero_eq]
    rfl
  · have hvalue : Parts.digits ⟨Text.ofNat digits ++ List.replicate p.toNat (Text.digit 0),
        [Text.digit 0], none⟩ = digits * 10 ^ p.toNat * 10 := by
      rw [Parts.digits, digitsValue_append, digitsValue_append_text, digitsValue_zeros,
        digitsValue_ofNat, List.length_replicate]
      rfl
    have hpower : (10 : ℚ) ^ p = 10 ^ p.toNat := by
      rw [← zpow_natCast, Int.toNat_of_nonneg hp]
    rw [hvalue, hpower]
    simp only [Parts.power, Option.getD_none, List.length_singleton]
    push_cast
    norm_num
    ring

theorem writes_pointed (hd : digits ≠ 0) {k : Nat} (hk : 0 < k)
    (hlt : k < (Text.ofNat digits).length) (hp : p = k - (Text.ofNat digits).length) :
    Writes ((Text.ofNat digits).take k ++ "." ++ (Text.ofNat digits).drop k) digits p := by
  have hdigits := Text.isDigit_of_mem_ofNat digits
  have hplaces : (Text.ofNat digits).drop k ≠ [] := by simp [hlt]
  refine ⟨⟨(Text.ofNat digits).take k, (Text.ofNat digits).drop k, none⟩,
    ⟨fun c hc => hdigits c (List.mem_of_mem_take hc), ?_, ?_,
      fun c hc => hdigits c (List.mem_of_mem_drop hc), .inl hplaces⟩, ?_, ?_⟩
  · simp [Text.ofNat_ne_nil, hk.ne']
  · intro h
    rw [List.head?_take, if_neg hk.ne'] at h
    exact absurd h (Text.head?_ofNat hd)
  · cases hdrop : (Text.ofNat digits).drop k with
    | nil => exact absurd hdrop hplaces
    | cons c t =>
      simp only [Parts.text, pointed, raised, List.append_assoc, List.append_nil]
      rfl
  · have hpower : Parts.power ⟨(Text.ofNat digits).take k, (Text.ofNat digits).drop k, none⟩ = p := by
      simp only [Parts.power, Option.getD_none, List.length_drop]
      omega
    rw [hpower, Parts.digits, List.take_append_drop, digitsValue_ofNat]

theorem writes_small {n : Nat} (hp : p = -(n + (Text.ofNat digits).length)) :
    Writes ("0." ++ Text.replicate n "0" ++ Text.ofNat digits) digits p := by
  have hplaces : List.replicate n (Text.digit 0) ++ Text.ofNat digits ≠ [] := by
    simp [Text.ofNat_ne_nil]
  refine ⟨⟨[Text.digit 0], List.replicate n (Text.digit 0) ++ Text.ofNat digits, none⟩,
    ⟨?_, List.cons_ne_nil _ _, fun _ => rfl, ?_, .inl hplaces⟩, ?_, ?_⟩
  · intro c hc
    rw [List.mem_singleton.1 hc]
    decide
  · intro c hc
    exact (List.mem_append.1 hc).elim (Text.isDigit_of_mem_zeros c)
      (Text.isDigit_of_mem_ofNat digits c)
  · rw [Text.replicate_zero_eq, List.append_assoc]
    cases hcons : List.replicate n (Text.digit 0) ++ Text.ofNat digits with
    | nil => exact absurd hcons hplaces
    | cons c t =>
      simp only [Parts.text, pointed, raised, List.append_nil]
      rfl
  · have hpower : Parts.power ⟨[Text.digit 0],
        List.replicate n (Text.digit 0) ++ Text.ofNat digits, none⟩ = p := by
      simp only [Parts.power, Option.getD_none, List.length_append, List.length_replicate]
      omega
    have hvalue : digitsValue [Text.digit 0] = 0 := rfl
    rw [hpower, Parts.digits, digitsValue_append_text, digitsValue_append_text, digitsValue_zeros,
      hvalue, digitsValue_ofNat, Nat.zero_mul, Nat.zero_add, Nat.zero_mul, Nat.zero_add]

theorem writes_raised (hd : digits ≠ 0) {c : CodePoint} {t : Text}
    (hdigits : Text.ofNat digits = c :: t) :
    Writes (c :: (pointed t ++ exponentText (p + t.length))) digits p := by
  have hall := Text.isDigit_of_mem_ofNat digits
  rw [hdigits] at hall
  refine ⟨⟨[c], t, some (p + t.length)⟩, ⟨?_, List.cons_ne_nil _ _, ?_,
    fun d hm => hall d (List.mem_cons_of_mem _ hm), .inr rfl⟩, rfl, ?_⟩
  · intro d hm
    rw [List.mem_singleton.1 hm]
    exact hall c List.mem_cons_self
  · intro h
    have hhead := Text.head?_ofNat hd
    rw [hdigits] at hhead
    exact absurd h hhead
  · have hpower : Parts.power ⟨[c], t, some (p + t.length)⟩ = p := Int.add_sub_cancel p t.length
    rw [hpower, Parts.digits]
    show ((digitsValue (c :: t) : Nat) : ℚ) * 10 ^ p = _
    rw [← hdigits, digitsValue_ofNat]

theorem writes_decimalText (hd : digits ≠ 0) (p : Int) : Writes (decimalText digits p) digits p := by
  have hpos : 0 < (Text.ofNat digits).length := List.length_pos_iff.2 (Text.ofNat_ne_nil digits)
  unfold decimalText
  dsimp only
  split_ifs with hrange hp htop
  · exact writes_whole hd hp
  · exact writes_pointed hd (by omega) (by omega) (by omega)
  · exact writes_small (by omega)
  · cases hdigits : Text.ofNat digits with
    | nil => exact absurd hdigits (Text.ofNat_ne_nil digits)
    | cons c t =>
      have htop : p + ((c :: t).length : Int) - 1 = p + t.length := by
        rw [List.length_cons]
        omega
      rw [htop]
      cases t with
      | nil => exact writes_raised hd hdigits
      | cons d t => exact writes_raised hd hdigits

/-! ## Doubles -/

theorem toText_finite {m : Nat} {e : Int} (hc : Binary64.Canonical m e) (s : Bool) :
    ∃ w : Parts, w.Proper ∧ (Binary64.finite s m e).toText = sign s ++ w.text ∧
      Binary64.ofDecimal s w.digits w.power = .finite s m e := by
  have hsigned (t : Text) : (if s then "-" ++ t else t) = sign s ++ t := by cases s <;> rfl
  -- Zero is written on its own, since no decimal is chosen for it.
  by_cases hm : m = 0
  · subst hm
    obtain rfl : e = Binary64.leastExponent := hc.full.resolve_left (by decide)
    refine ⟨⟨[Text.digit 0], [Text.digit 0], none⟩, ⟨by decide, List.cons_ne_nil _ _, fun _ => rfl,
      by decide, .inl (List.cons_ne_nil _ _)⟩, ?_, rfl⟩
    simp only [Binary64.toText, if_true, hsigned]
    rfl
  · obtain ⟨digits, p, hstrip⟩ : ∃ digits p,
        Shortest.stripZeros 20 (Shortest.decimal m e).1 (Shortest.decimal m e).2 = (digits, p) :=
      ⟨_, _, rfl⟩
    have hvalue := Shortest.stripZeros_value 20 (Shortest.decimal m e).1 (Shortest.decimal m e).2
    rw [hstrip] at hvalue
    have hd : digits ≠ 0 := by
      rintro rfl
      have hpos := Shortest.decimal_pos hc hm
      rw [← hvalue, Nat.cast_zero, zero_mul] at hpos
      exact absurd hpos (lt_irrefl 0)
    obtain ⟨w, hw, htext, hwrites⟩ := writes_decimalText hd p
    refine ⟨w, hw, ?_, Shortest.ofDecimal_of_eq hc hm (hwrites.trans hvalue) s⟩
    simp only [Binary64.toText, if_neg hm, hstrip, hsigned, htext]

/-- What is written of a finite double is read back in front of what ends a number. -/
theorem number_toText {m : Nat} {e : Int} (hc : Binary64.Canonical m e) (s : Bool) {rest : Text}
    (hr : EndsNumber rest) (start : Text) :
    number start ((Binary64.finite s m e).toText ++ rest) =
      .ok (.number (.real (.finite s m e)), rest) := by
  obtain ⟨w, hw, htext, hround⟩ := toText_finite hc s
  rw [htext, List.append_assoc, number_written hw s hr, hround]

end Json.Reader

end ThreatDesk
