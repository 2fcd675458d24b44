import ThreatDesk.Proofs.Number.Rounding

/-!
# The shortest decimal of a double

The decimal that is chosen for a double lies in the double's interval (`decimal_has`), so it is rounded
back to it (`ofDecimal_of_eq`): on a grid sixteen places below the leading digit the nearest point is
close enough, whatever the double.
-/

namespace ThreatDesk

namespace Shortest

open Binary64

/-! ## Quotients -/

theorem quotient_pos (n : Nat) (e p : Int) : 0 < (quotient n e p).2 :=
  Nat.mul_pos (twoTo_pos _) (tenTo_pos _)

theorem quotient_eq (n : Nat) (e p : Int) :
    ((quotient n e p).1 : ℚ) / (quotient n e p).2 = n * 2 ^ e / 10 ^ p := by
  rw [zpow_eq_div two_ne_zero e, zpow_eq_div (show (10 : ℚ) ≠ 0 by norm_num) p]
  simp only [quotient]
  push_cast [cast_twoTo, cast_tenTo]
  field_simp

theorem quotient_le_iff {n k : Nat} {e p : Int} :
    (quotient n e p).1 ≤ k * (quotient n e p).2 ↔ (n : ℚ) * 2 ^ e ≤ k * 10 ^ p := by
  have hpos : (0 : ℚ) < (quotient n e p).2 := by exact_mod_cast quotient_pos n e p
  rw [← div_le_iff₀ (by positivity), ← quotient_eq, div_le_iff₀ hpos]
  exact_mod_cast Iff.rfl

theorem le_quotient_iff {n k : Nat} {e p : Int} :
    k * (quotient n e p).2 ≤ (quotient n e p).1 ↔ (k : ℚ) * 10 ^ p ≤ n * 2 ^ e := by
  have hpos : (0 : ℚ) < (quotient n e p).2 := by exact_mod_cast quotient_pos n e p
  rw [← le_div_iff₀ (by positivity), ← quotient_eq, le_div_iff₀ hpos]
  exact_mod_cast Iff.rfl

theorem reads_iff {i : Interval} {e p : Int} {digits : Nat} :
    reads i e digits p = true ↔ i.Has e (digits * 10 ^ p) := by
  have hreads : reads i e digits p =
      if i.closed then
        (quotient i.low e p).1 ≤ digits * (quotient i.low e p).2 &&
          digits * (quotient i.high e p).2 ≤ (quotient i.high e p).1
      else
        (quotient i.low e p).1 < digits * (quotient i.low e p).2 &&
          digits * (quotient i.high e p).2 < (quotient i.high e p).1 := rfl
  rw [hreads, Interval.Has]
  split
  · rw [Bool.and_eq_true, decide_eq_true_iff, decide_eq_true_iff, quotient_le_iff, le_quotient_iff,
      Set.mem_Icc]
  · rw [Bool.and_eq_true, decide_eq_true_iff, decide_eq_true_iff, ← not_le, ← not_le,
      quotient_le_iff, le_quotient_iff, not_le, not_le, Set.mem_Ioo]

/-! ## The leading digit -/

/-- The guess at the power of ten of a power of two is too high by one at the most. -/
theorem tenTo_guess_le {k : Int} (hlow : -1100 ≤ k) (hhigh : k ≤ 1100) :
    (10 : ℚ) ^ (Int.fdiv (k * 30103) 100000 - 1) ≤ 2 ^ k := by
  -- The powers of two that a double can lie at are few enough to look at each.
  have hall : ∀ n : Nat, n < 2201 → let k : Int := n - 1100
      let g := Int.fdiv (k * 30103) 100000 - 1
      tenTo g.toNat * twoTo (-k).toNat ≤ twoTo k.toNat * tenTo (-g).toNat := by decide +kernel
  have h := hall (k + 1100).toNat (by omega)
  rw [show (((k + 1100).toNat : Nat) : Int) - 1100 = k by omega] at h
  dsimp only at h
  generalize Int.fdiv (k * 30103) 100000 - 1 = g at h ⊢
  rw [zpow_eq_div two_ne_zero k, zpow_eq_div (show (10 : ℚ) ≠ 0 by norm_num) g,
    div_le_div_iff₀ (by positivity) (by positivity), ← cast_tenTo, ← cast_tenTo, ← cast_twoTo,
    ← cast_twoTo]
  exact_mod_cast h

theorem magnitude_le {n : Nat} {e : Int} (hn : n ≠ 0) (hlow : -1100 ≤ (Nat.log2 n : Int) + e)
    (hhigh : (Nat.log2 n : Int) + e ≤ 1100) : (10 : ℚ) ^ magnitude n e ≤ n * 2 ^ e := by
  have hguess := tenTo_guess_le hlow hhigh
  have hmagnitude : magnitude n e =
      let guess := Int.fdiv (((Nat.log2 n : Int) + e) * 30103) 100000
      if (quotient n e (guess + 1)).2 ≤ (quotient n e (guess + 1)).1 then guess + 1
      else if (quotient n e guess).2 ≤ (quotient n e guess).1 then guess
      else guess - 1 := by
    simp only [magnitude, decide_eq_true_eq]
  have hat {p : Int} (hp : (quotient n e p).2 ≤ (quotient n e p).1) : (10 : ℚ) ^ p ≤ n * 2 ^ e := by
    have := le_quotient_iff.1 ((Nat.one_mul _).le.trans hp)
    rwa [Nat.cast_one, one_mul] at this
  rw [hmagnitude]
  dsimp only
  split_ifs with hup hsame
  · exact hat hup
  · exact hat hsame
  · calc (10 : ℚ) ^ (Int.fdiv (((Nat.log2 n : Int) + e) * 30103) 100000 - 1)
        ≤ 2 ^ ((Nat.log2 n : Int) + e) := hguess
      _ = 2 ^ Nat.log2 n * 2 ^ e := by rw [zpow_add₀ two_ne_zero, zpow_natCast]
      _ ≤ n * 2 ^ e := by
        gcongr
        exact_mod_cast Nat.log2_self_le hn

/-! ## The decimal that is chosen -/

theorem reads_of_onGrid? {i : Interval} {e p : Int} {digits : Nat}
    (h : onGrid? i e p = some digits) : reads i e digits p = true := by
  unfold onGrid? at h
  dsimp only at h
  split_ifs at h with hnearest hbelow habove
  · exact Option.some.inj h ▸ hnearest
  · exact Option.some.inj h ▸ hbelow
  · exact Option.some.inj h ▸ habove

theorem isSome_onGrid? {i : Interval} {e p : Int}
    (h : reads i e (roundDiv (quotient i.value e p).1 (quotient i.value e p).2) p = true) :
    (onGrid? i e p).isSome = true := by
  unfold onGrid?
  dsimp only
  rw [if_pos h]
  rfl

theorem nearest_spec (n : Nat) (e p : Int) :
    let nearest := roundDiv (quotient n e p).1 (quotient n e p).2
    (n : ℚ) * 2 ^ e - 10 ^ p / 2 ≤ nearest * 10 ^ p ∧ nearest * 10 ^ p ≤ (n : ℚ) * 2 ^ e + 10 ^ p / 2 := by
  have hpos : (0 : ℚ) < (quotient n e p).2 := by exact_mod_cast quotient_pos n e p
  have hten : (0 : ℚ) < 10 ^ p := by positivity
  obtain ⟨hhigh, hlow⟩ := @two_mul_sub_le_roundDiv (quotient n e p).1 _ (quotient_pos n e p)
  have hvalue := quotient_eq n e p
  rw [div_eq_div_iff hpos.ne' hten.ne'] at hvalue
  generalize roundDiv (quotient n e p).1 (quotient n e p).2 = nearest at hhigh hlow
  have hhigh : (2 : ℚ) * (nearest * (quotient n e p).2) ≤
      2 * (quotient n e p).1 + (quotient n e p).2 := by exact_mod_cast hhigh
  have hlow : (2 : ℚ) * (quotient n e p).1 ≤
      2 * (nearest * (quotient n e p).2) + (quotient n e p).2 := by exact_mod_cast hlow
  constructor
  · refine le_of_mul_le_mul_right ?_ hpos
    have := mul_le_mul_of_nonneg_right hlow hten.le
    linarith
  · refine le_of_mul_le_mul_right ?_ hpos
    have := mul_le_mul_of_nonneg_right hhigh hten.le
    linarith

theorem Interval.has_of_near {m : Nat} {e : Int} {v : ℚ} (hm : m ≠ 0)
    (hlow : (m : ℚ) * 2 ^ e - 2 ^ e / 2 < v) (hhigh : v < (m : ℚ) * 2 ^ e + 2 ^ e / 2)
    (hquarter : m = 2 ^ 52 → (m : ℚ) * 2 ^ e - 2 ^ e / 4 < v) : (interval m e).Has (e - 2) v := by
  have hpow : (2 : ℚ) ^ (e - 2) = 2 ^ e / 4 := by
    rw [zpow_sub₀ two_ne_zero]
    norm_num
  have hleft : ((interval m e).low : ℚ) * 2 ^ (e - 2) < v := by
    rw [hpow]
    unfold interval
    dsimp only
    split
    · next hpower =>
      rw [Nat.cast_sub (by omega)]
      push_cast
      linarith [hquarter (twoTo_eq 52 ▸ hpower.1)]
    · rw [Nat.cast_sub (by omega)]
      push_cast
      linarith
  have hright : v < ((interval m e).high : ℚ) * 2 ^ (e - 2) := by
    rw [hpow]
    simp only [interval]
    push_cast
    linarith
  unfold Interval.Has
  split
  · exact ⟨hleft.le, hright.le⟩
  · exact ⟨hleft, hright⟩

theorem value_interval (m : Nat) (e : Int) :
    (((interval m e).value : Nat) : ℚ) * 2 ^ (e - 2) = m * 2 ^ e := by
  rw [zpow_sub₀ two_ne_zero]
  simp only [interval]
  push_cast
  ring

/-- Sixteen places below its leading digit a double always has a decimal. -/
theorem isSome_onGrid?_of_magnitude {m : Nat} {e top : Int} (hm : m ≠ 0) (hshort : m < 2 ^ 53)
    (htop : (10 : ℚ) ^ top ≤ m * 2 ^ e) :
    (onGrid? (interval m e) (e - 2) (top - 16)).isSome = true := by
  have hstep : (10 : ℚ) ^ (top - 16) ≤ m * 2 ^ e / 10 ^ 16 := by
    rw [zpow_sub₀ (by norm_num)]
    gcongr
    norm_cast
  have hpow : (0 : ℚ) < 2 ^ e := by positivity
  have hless : (m : ℚ) * 2 ^ e < 2 ^ 53 * 2 ^ e := by
    gcongr
    exact_mod_cast hshort
  obtain ⟨hlow, hhigh⟩ := nearest_spec (interval m e).value (e - 2) (top - 16)
  rw [value_interval] at hlow hhigh
  refine isSome_onGrid? (reads_iff.2 (Interval.has_of_near hm ?_ ?_ ?_))
  · linarith
  · linarith
  · intro hpower
    have hpower : (m : ℚ) = 2 ^ 52 := by exact_mod_cast hpower
    rw [hpower] at hstep hlow ⊢
    linarith

/-- The decimal that is chosen for a positive double lies in its interval. -/
theorem decimal_has {m : Nat} {e : Int} (hc : Canonical m e) (hm : m ≠ 0) :
    (interval m e).Has (e - 2) ((decimal m e).1 * 10 ^ (decimal m e).2) := by
  have htop : (10 : ℚ) ^ magnitude (interval m e).value (e - 2) ≤ m * 2 ^ e := by
    have hvalue : (interval m e).value ≠ 0 := Nat.mul_ne_zero four_ne_zero hm
    have hlog : Nat.log2 (interval m e).value < 55 := by
      rw [Nat.log2_lt hvalue]
      have := hc.short
      simp only [interval]
      omega
    have hleast : -1074 ≤ e := hc.least
    have hgreatest : e ≤ 971 := hc.greatest
    rw [← value_interval]
    exact magnitude_le hvalue (by omega) (by omega)
  unfold decimal
  dsimp only
  split
  · next found hfound =>
    obtain ⟨p, -, hp⟩ := List.exists_of_findSome?_eq_some hfound
    obtain ⟨digits, hdigits, rfl⟩ := Option.map_eq_some_iff.1 hp
    exact reads_iff.1 (reads_of_onGrid? hdigits)
  · next hnone =>
    -- Sixteen places are tried as well, and they would have done.
    have hgrid := isSome_onGrid?_of_magnitude hm hc.short htop
    have := List.findSome?_eq_none_iff.1 hnone (magnitude (interval m e).value (e - 2) - 16)
      (List.mem_map.2 ⟨16, by decide, rfl⟩)
    rw [Option.map_eq_none_iff] at this
    rw [this] at hgrid
    cases hgrid

theorem stripZeros_value (fuel digits : Nat) (p : Int) :
    ((stripZeros fuel digits p).1 : ℚ) * 10 ^ (stripZeros fuel digits p).2 = digits * 10 ^ p := by
  induction fuel generalizing digits p with
  | zero => rfl
  | succ fuel ih =>
    unfold stripZeros
    split
    · next h =>
      have hten : digits % 10 = 0 := by
        rw [Bool.and_eq_true, decide_eq_true_iff] at h
        exact h.1
      have hdiv : ((digits / 10 : Nat) : ℚ) * 10 = digits := by
        exact_mod_cast Nat.div_mul_cancel (Nat.dvd_of_mod_eq_zero hten)
      rw [ih, zpow_add_one₀ (by norm_num), mul_comm (_ ^ p), ← mul_assoc, hdiv]
    · rfl

theorem ofDecimal_of_eq {m digits : Nat} {e p : Int} (hc : Canonical m e) (hm : m ≠ 0)
    (h : (digits : ℚ) * 10 ^ p = (decimal m e).1 * 10 ^ (decimal m e).2) (s : Bool) :
    ofDecimal s digits p = .finite s m e :=
  ofDecimal_of_has hc hm (h ▸ decimal_has hc hm) s

theorem decimal_pos {m : Nat} {e : Int} (hc : Canonical m e) (hm : m ≠ 0) :
    (0 : ℚ) < (decimal m e).1 * 10 ^ (decimal m e).2 := by
  have hone : (1 : ℚ) ≤ m := by exact_mod_cast Nat.one_le_iff_ne_zero.2 hm
  obtain ⟨hlow, -⟩ := (decimal_has hc hm).near hm
  rw [le_div_iff₀ (by positivity)] at hlow
  refine lt_of_lt_of_le (mul_pos (by linarith) (by positivity)) hlow

end Shortest

end ThreatDesk
