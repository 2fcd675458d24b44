import Mathlib.Algebra.Order.Field.Power
import Mathlib.Data.Rat.Cast.Order
import Mathlib.Tactic.FieldSimp
import Mathlib.Tactic.Linarith
import Mathlib.Tactic.Positivity
import Mathlib.Tactic.Ring
import ThreatDesk.Number.Shortest

/-!
# Rounding to doubles

What a decimal rounds to, in terms of the rational that it is. Whatever lies nearer to a double than to
its neighbours is rounded to it (`ofDecimal_of_has`), and whatever is rounded is a double in its one
form (`isCanonical_ofDecimal`).
-/

namespace ThreatDesk

/-! ## Powers as rationals -/

theorem twoTo_eq (n : Nat) : twoTo n = 2 ^ n := Nat.pow_eq

theorem cast_twoTo (n : Nat) : ((twoTo n : Nat) : ℚ) = 2 ^ n := by
  rw [twoTo, Nat.pow_eq, Nat.cast_pow, Nat.cast_ofNat]

theorem cast_tenTo (n : Nat) : ((tenTo n : Nat) : ℚ) = 10 ^ n := by
  rw [tenTo, Nat.pow_eq, Nat.cast_pow, Nat.cast_ofNat]

theorem zpow_eq_div {b : ℚ} (hb : b ≠ 0) (e : Int) : b ^ e = b ^ e.toNat / b ^ (-e).toNat := by
  rw [← zpow_natCast, ← zpow_natCast, ← zpow_sub₀ hb]
  congr 1
  omega

namespace Binary64

theorem scaled_pos {den : Nat} (hd : 0 < den) (num : Nat) (e : Int) :
    0 < (scaled num den e).2 := by
  unfold scaled
  split
  · exact Nat.mul_pos hd (twoTo_pos _)
  · exact hd

theorem scaled_eq (num den : Nat) (e : Int) :
    ((scaled num den e).1 : ℚ) / (scaled num den e).2 = num / den / 2 ^ e := by
  unfold scaled
  split
  · next he =>
    have hneg : (-e).toNat = 0 := by omega
    rw [zpow_eq_div two_ne_zero e, hneg, pow_zero, div_one]
    push_cast [cast_twoTo]
    rw [div_div]
  · next he =>
    have hpos : e.toNat = 0 := by omega
    rw [zpow_eq_div two_ne_zero e, hpos, pow_zero]
    push_cast [cast_twoTo]
    rw [one_div, div_inv_eq_mul, div_mul_eq_mul_div]

theorem roundDiv_eq {n d m : Nat} (hd : 0 < d) (hlow : 2 * (m * d) ≤ 2 * n + d)
    (hhigh : 2 * n ≤ 2 * (m * d) + d)
    (htie : 2 * (m * d) = 2 * n + d ∨ 2 * n = 2 * (m * d) + d → m % 2 = 0) :
    roundDiv n d = m := by
  have hn : n / d * d + n % d = n := Nat.div_add_mod' n d
  have hr : n % d < d := Nat.mod_lt n hd
  have hleast : n / d ≤ m := by
    by_contra hm
    have := Nat.mul_le_mul_right d (Nat.not_le.1 hm)
    rw [Nat.succ_mul] at this
    omega
  have hmost : m ≤ n / d + 1 := by
    by_contra hm
    have := Nat.mul_le_mul_right d (Nat.not_le.1 hm)
    rw [Nat.succ_mul, Nat.succ_mul] at this
    omega
  -- It is the quotient or the number after it; the remainder decides which, and the parity on a tie.
  unfold roundDiv
  dsimp only
  rcases Nat.eq_or_lt_of_le hleast with rfl | hlt
  · rw [if_neg (show ¬ d < 2 * (n % d) by omega)]
    split
    · rfl
    · rw [htie (by omega), Nat.add_zero]
  · obtain rfl : m = n / d + 1 := by omega
    rw [Nat.succ_mul (n / d)] at hlow hhigh htie
    rw [if_neg (show ¬ 2 * (n % d) < d by omega)]
    split
    · rfl
    · have := htie (by omega)
      omega

/-- The same for a quotient of rationals: a number off by at most a half, and even if by a half. -/
theorem roundDiv_eq_of_near {n d m : Nat} (hd : 0 < d) (hlow : (m : ℚ) - 1 / 2 ≤ n / d)
    (hhigh : (n : ℚ) / d ≤ m + 1 / 2)
    (htie : (m : ℚ) - 1 / 2 = n / d ∨ (n : ℚ) / d = m + 1 / 2 → m % 2 = 0) : roundDiv n d = m := by
  have hd' : (0 : ℚ) < d := by exact_mod_cast hd
  have hval : (n : ℚ) / d * d = n := div_mul_cancel₀ _ hd'.ne'
  refine roundDiv_eq hd ?_ ?_ ?_
  · have := mul_le_mul_of_nonneg_right hlow hd'.le
    have : (2 : ℚ) * (m * d) ≤ 2 * n + d := by linarith
    exact_mod_cast this
  · have := mul_le_mul_of_nonneg_right hhigh hd'.le
    have : (2 : ℚ) * n ≤ 2 * (m * d) + d := by linarith
    exact_mod_cast this
  · intro h
    apply htie
    rcases h with h | h
    · have h : (2 : ℚ) * (m * d) = 2 * n + d := by exact_mod_cast h
      left
      rw [eq_div_iff hd'.ne']
      linarith
    · have h : (2 : ℚ) * n = 2 * (m * d) + d := by exact_mod_cast h
      right
      rw [div_eq_iff hd'.ne']
      linarith

theorem log2_bounds {n : Nat} (hn : n ≠ 0) :
    (2 : ℚ) ^ (Nat.log2 n : Int) ≤ n ∧ (n : ℚ) < 2 ^ ((Nat.log2 n : Int) + 1) := by
  rw [← Nat.cast_succ, zpow_natCast, zpow_natCast]
  exact ⟨by exact_mod_cast Nat.log2_self_le hn, by exact_mod_cast Nat.lt_log2_self (n := n)⟩

theorem quotient_bounds {num den : Nat} (hn : num ≠ 0) (hd : den ≠ 0) :
    (2 : ℚ) ^ (52 + ((Nat.log2 num : Int) - Nat.log2 den - 53)) ≤ num / den ∧
      (num : ℚ) / den < 2 ^ (54 + ((Nat.log2 num : Int) - Nat.log2 den - 53)) := by
  have hden : (0 : ℚ) < den := by exact_mod_cast Nat.pos_of_ne_zero hd
  obtain ⟨hnlow, hnhigh⟩ := log2_bounds hn
  obtain ⟨hdlow, hdhigh⟩ := log2_bounds hd
  generalize hlow : (Nat.log2 num : Int) - Nat.log2 den - 53 = low
  constructor
  · rw [le_div_iff₀ hden]
    calc (2 : ℚ) ^ (52 + low) * den
        ≤ 2 ^ (52 + low) * 2 ^ ((Nat.log2 den : Int) + 1) := by gcongr
      _ = 2 ^ (Nat.log2 num : Int) := by rw [← zpow_add₀ two_ne_zero]; congr 1; omega
      _ ≤ num := hnlow
  · rw [div_lt_iff₀ hden]
    calc (num : ℚ) < 2 ^ ((Nat.log2 num : Int) + 1) := hnhigh
      _ = 2 ^ (54 + low) * 2 ^ (Nat.log2 den : Int) := by
        rw [← zpow_add₀ two_ne_zero]; congr 1; omega
      _ ≤ 2 ^ (54 + low) * den := by gcongr

theorem scaled_lt_iff {den : Nat} (hd : den ≠ 0) (num : Nat) (e : Int) :
    (scaled num den e).1 < (scaled num den e).2 * twoTo 53 ↔ (num : ℚ) / den < 2 ^ (53 + e) := by
  have hpos : (0 : ℚ) < (scaled num den e).2 := by
    exact_mod_cast scaled_pos (Nat.pos_of_ne_zero hd) num e
  rw [zpow_add₀ two_ne_zero, ← div_lt_iff₀ (by positivity), ← scaled_eq, div_lt_iff₀ hpos,
    mul_comm, show (2 : ℚ) ^ (53 : Int) = (twoTo 53 : Nat) by rw [cast_twoTo]; norm_cast]
  exact_mod_cast Iff.rfl

/-- The one exponent at which a quotient has a mantissa of 53 bits, from which the exponent of a double
is got by not going below the least one. -/
theorem exponentFor_spec {num den : Nat} (hn : num ≠ 0) (hd : den ≠ 0) :
    ∃ e : Int, exponentFor num den = max e leastExponent ∧
      (2 : ℚ) ^ (52 + e) ≤ (num : ℚ) / den ∧ (num : ℚ) / den < 2 ^ (53 + e) := by
  obtain ⟨hleast, hmost⟩ := quotient_bounds hn hd
  have hsplit := scaled_lt_iff hd num ((Nat.log2 num : Int) - Nat.log2 den - 53)
  generalize hlow : (Nat.log2 num : Int) - Nat.log2 den - 53 = low at hleast hmost hsplit
  have hfor : exponentFor num den =
      max (if (scaled num den low).1 < (scaled num den low).2 * twoTo 53 then low else low + 1)
        leastExponent := by
    simp only [exponentFor, hlow]
  rw [hfor]
  split
  · next hlt => exact ⟨low, rfl, hleast, hsplit.1 hlt⟩
  · next hge =>
    refine ⟨low + 1, rfl, ?_, ?_⟩
    · rw [show 52 + (low + 1) = 53 + low by omega]
      exact not_lt.1 (mt hsplit.2 hge)
    · rwa [show 53 + (low + 1) = 54 + low by omega]

/-- The one form of a finite double: a mantissa of 53 bits, or of fewer at the least exponent. -/
structure Canonical (mantissa : Nat) (e : Int) : Prop where
  short : mantissa < 2 ^ 53
  full : 2 ^ 52 ≤ mantissa ∨ e = leastExponent
  least : leastExponent ≤ e
  greatest : e ≤ greatestExponent

def IsCanonical : Binary64 → Prop
  | .finite _ m e => Canonical m e
  | _ => True

end Binary64

namespace Shortest

def Interval.Has (i : Interval) (e : Int) (v : ℚ) : Prop :=
  if i.closed then v ∈ Set.Icc (i.low * 2 ^ e : ℚ) (i.high * 2 ^ e)
  else v ∈ Set.Ioo (i.low * 2 ^ e : ℚ) (i.high * 2 ^ e)

/-- What lies in the interval of a double is off by at most half of its last bit, and by a half only if
the mantissa is even; below a power of two it is off by at most a quarter. -/
theorem Interval.Has.near {m : Nat} {e : Int} {v : ℚ} (hm : m ≠ 0)
    (h : (interval m e).Has (e - 2) v) :
    (m : ℚ) - 1 / 2 ≤ v / 2 ^ e ∧ v / 2 ^ e ≤ m + 1 / 2 ∧
      ((m : ℚ) - 1 / 2 = v / 2 ^ e ∨ v / 2 ^ e = m + 1 / 2 → m % 2 = 0) ∧
      (m = 2 ^ 52 → Binary64.leastExponent < e → (m : ℚ) - 1 / 4 ≤ v / 2 ^ e) := by
  have hpow : (2 : ℚ) ^ (e - 2) = 2 ^ e / 4 := by
    rw [zpow_sub₀ two_ne_zero]
    norm_num
  have hpos : (0 : ℚ) < 2 ^ e := by positivity
  have hlow : (4 * m - 2 : ℚ) ≤ (interval m e).low ∧
      (m = 2 ^ 52 → Binary64.leastExponent < e → (4 * m - 1 : ℚ) = (interval m e).low) := by
    have hone : ((4 * m - 1 : Nat) : ℚ) = 4 * m - 1 := by
      rw [Nat.cast_sub (by omega)]; push_cast; ring
    have htwo : ((4 * m - 2 : Nat) : ℚ) = 4 * m - 2 := by
      rw [Nat.cast_sub (by omega)]; push_cast; ring
    unfold interval
    dsimp only
    split
    · next hpower => exact ⟨by linarith, fun _ _ => hone.symm⟩
    · next hpower => exact ⟨htwo.symm.le, fun hm he => absurd ⟨hm, he⟩ hpower⟩
  have hhigh : ((interval m e).high : ℚ) = 4 * m + 2 := by
    simp only [interval]
    push_cast
    ring
  have hscale (c : ℚ) : c * 2 ^ (e - 2) = c / 4 * 2 ^ e := by rw [hpow]; ring
  unfold Interval.Has at h
  split at h
  · next hclosed =>
    obtain ⟨hl, hh⟩ := h
    rw [hscale, ← le_div_iff₀ hpos] at hl
    rw [hscale, ← div_le_iff₀ hpos, hhigh] at hh
    refine ⟨by linarith, by linarith, fun _ => by simpa [interval] using hclosed, ?_⟩
    intro hm he
    linarith [hlow.2 hm he]
  · obtain ⟨hl, hh⟩ := h
    rw [hscale, ← lt_div_iff₀ hpos] at hl
    rw [hscale, ← div_lt_iff₀ hpos, hhigh] at hh
    refine ⟨by linarith, by linarith, ?_, ?_⟩
    · rintro (h | h) <;> linarith
    · intro hm he
      linarith [hlow.2 hm he]

end Shortest

namespace Binary64

open Shortest

theorem pack_of_short {m : Nat} {e : Int} (hc : Canonical m e) (s : Bool) :
    pack s m e = .finite s m e := by
  unfold pack
  rw [if_neg (twoTo_eq 53 ▸ hc.short.ne)]
  exact if_neg (not_lt.2 hc.greatest)

theorem ofRatio_eq {num den n d : Nat} {e : Int} (hn : num ≠ 0) (he : exponentFor num den = e)
    (hs : scaled num den e = (n, d)) (s : Bool) : ofRatio s num den = pack s (roundDiv n d) e := by
  unfold ofRatio
  rw [if_neg hn, he]
  dsimp only
  rw [hs]

theorem ofRatio_of_near {num den m : Nat} {e : Int} (hn : num ≠ 0) (hd : den ≠ 0)
    (hexp : exponentFor num den = e) (hc : Canonical m e)
    (hlow : (m : ℚ) - 1 / 2 ≤ num / den / 2 ^ e) (hhigh : (num : ℚ) / den / 2 ^ e ≤ m + 1 / 2)
    (htie : (m : ℚ) - 1 / 2 = num / den / 2 ^ e ∨ (num : ℚ) / den / 2 ^ e = m + 1 / 2 → m % 2 = 0)
    (s : Bool) : ofRatio s num den = .finite s m e := by
  have hpos : 0 < (scaled num den e).2 := scaled_pos (Nat.pos_of_ne_zero hd) num e
  have hdiv : roundDiv (scaled num den e).1 (scaled num den e).2 = m := by
    apply roundDiv_eq_of_near hpos <;> rwa [scaled_eq]
  rw [ofRatio_eq hn hexp Prod.mk.eta.symm, hdiv]
  exact pack_of_short hc s

theorem ofRatio_of_below {num den m : Nat} {e : Int} (hn : num ≠ 0) (hd : den ≠ 0)
    (hexp : exponentFor num den = e - 1) (hc : Canonical m e) (hm : m = 2 ^ 52)
    (hlow : (m : ℚ) - 1 / 4 ≤ num / den / 2 ^ e) (hhigh : (num : ℚ) / den / 2 ^ e < 2 ^ 52)
    (s : Bool) : ofRatio s num den = .finite s m e := by
  have hpos : 0 < (scaled num den (e - 1)).2 := scaled_pos (Nat.pos_of_ne_zero hd) num (e - 1)
  have htwice : (num : ℚ) / den / 2 ^ (e - 1) = 2 * (num / den / 2 ^ e) := by
    rw [zpow_sub_one₀ two_ne_zero]
    field_simp
  have hcast : (m : ℚ) = 2 ^ 52 := by exact_mod_cast hm
  have hdiv : roundDiv (scaled num den (e - 1)).1 (scaled num den (e - 1)).2 = 2 * m := by
    apply roundDiv_eq_of_near hpos <;> rw [scaled_eq, htwice] <;> push_cast
    · linarith
    · linarith
    · exact fun _ => Nat.mul_mod_right 2 m
  have hpower : m = twoTo 52 := by rw [twoTo_eq, hm]
  have hdouble : 2 * m = twoTo 53 := by rw [hpower, twoTo_eq, twoTo_eq, ← pow_succ']
  rw [ofRatio_eq hn hexp Prod.mk.eta.symm, hdiv]
  simp only [pack, if_pos hdouble, sub_add_cancel, ← hpower]
  exact if_neg (not_lt.2 hc.greatest)

/-- Whatever quotient lies in the interval of a double is rounded to it. -/
theorem ofRatio_of_has {num den m : Nat} {e : Int} (hn : num ≠ 0) (hd : den ≠ 0)
    (hc : Canonical m e) (hm : m ≠ 0) (h : (interval m e).Has (e - 2) (num / den)) (s : Bool) :
    ofRatio s num den = .finite s m e := by
  obtain ⟨hlow, hhigh, htie, hquarter⟩ := h.near hm
  obtain ⟨e', hfor, hleast, hmost⟩ := exponentFor_spec hn hd
  have hpos : (0 : ℚ) < 2 ^ e := by positivity
  have hless {a b : Int} (h : (2 : ℚ) ^ a < 2 ^ b) : a < b :=
    (zpow_lt_zpow_iff_right₀ one_lt_two).1 h
  have hunder : (num : ℚ) / den < 2 ^ (53 + e) := by
    have hshort : (m : ℚ) + 1 ≤ 2 ^ 53 := by exact_mod_cast hc.short
    rw [zpow_add₀ two_ne_zero, ← div_lt_iff₀ hpos]
    calc (num : ℚ) / den / 2 ^ e ≤ m + 1 / 2 := hhigh
      _ < 2 ^ 53 := by linarith
      _ = 2 ^ (53 : Int) := by norm_cast
  have hle : e' ≤ e := by
    have := hless (hleast.trans_lt hunder)
    omega
  -- The exponent is that of the double, unless the quotient lies below the power of two.
  by_cases hfull : (2 : ℚ) ^ (52 + e) ≤ num / den ∨ e = leastExponent
  · refine ofRatio_of_near hn hd ?_ hc hlow hhigh htie s
    rw [hfor]
    rcases hfull with hfull | rfl
    · have := hless (hfull.trans_lt hmost)
      have := hc.least
      omega
    · exact max_eq_right hle
  · obtain ⟨hbelow, hgreater⟩ := not_or.1 hfull
    have hbelow := not_le.1 hbelow
    have hgreater : leastExponent < e := lt_of_le_of_ne hc.least (Ne.symm hgreater)
    have hhigh : (num : ℚ) / den / 2 ^ e < 2 ^ 52 := by
      rwa [div_lt_iff₀ hpos, ← zpow_natCast, ← zpow_add₀ two_ne_zero]
    have hpower : m = 2 ^ 52 := by
      have hlt : (m : ℚ) < 2 ^ 52 + 1 := by linarith
      have hlt : m < 2 ^ 52 + 1 := by exact_mod_cast hlt
      have hge := hc.full.resolve_right hgreater.ne'
      omega
    have hquarter := hquarter hpower hgreater
    refine ofRatio_of_below hn hd ?_ hc hpower hquarter hhigh s
    have hover : (2 : ℚ) ^ (51 + e) ≤ num / den := by
      have hcast : (m : ℚ) = 2 ^ 52 := by exact_mod_cast hpower
      rw [zpow_add₀ two_ne_zero, ← le_div_iff₀ hpos]
      calc (2 : ℚ) ^ (51 : Int) ≤ 2 ^ 52 - 1 / 4 := by norm_num
        _ ≤ num / den / 2 ^ e := by rwa [← hcast]
    have := hless (hover.trans_lt hmost)
    have := hless (hleast.trans_lt hbelow)
    omega

theorem half_least : (1 / 2 : ℚ) * 2 ^ leastExponent = 1 / 2 ^ 1075 := by
  rw [show leastExponent = -((1074 : Nat) : Int) from rfl, zpow_neg, zpow_natCast, ← one_div,
    div_mul_div_comm, one_mul, ← pow_succ']

theorem ten_lt_half_least : (1 : ℚ) / 10 ^ 400 < 1 / 2 * 2 ^ leastExponent := by
  have h : (2 : Nat) ^ 1075 < 10 ^ 400 := by decide +kernel
  rw [half_least, one_div_lt_one_div (by positivity) (by positivity)]
  exact_mod_cast h

theorem bound_lt_ten : (2 : ℚ) ^ 53 * 2 ^ greatestExponent < 10 ^ 311 := by
  have h : ((2 ^ 1024 : Nat) : ℚ) < (10 ^ 311 : Nat) := Nat.cast_lt.2 (by decide +kernel)
  rw [Nat.cast_pow, Nat.cast_pow, Nat.cast_ofNat, Nat.cast_ofNat] at h
  rwa [show greatestExponent = ((971 : Nat) : Int) from rfl, zpow_natCast, ← pow_add]

theorem range_of_has {m : Nat} {e : Int} {v : ℚ} (hc : Canonical m e) (hm : m ≠ 0)
    (h : (interval m e).Has (e - 2) v) : 1 / 10 ^ 400 < v ∧ v < 10 ^ 311 := by
  obtain ⟨hlow, hhigh, -, -⟩ := h.near hm
  have hpos : (0 : ℚ) < 2 ^ e := by positivity
  rw [le_div_iff₀ hpos] at hlow
  rw [div_le_iff₀ hpos] at hhigh
  have hone : (1 : ℚ) ≤ m := by exact_mod_cast Nat.one_le_iff_ne_zero.2 hm
  have hshort : (m : ℚ) + 1 ≤ 2 ^ 53 := by exact_mod_cast hc.short
  constructor
  · calc (1 : ℚ) / 10 ^ 400 < 1 / 2 * 2 ^ leastExponent := ten_lt_half_least
      _ ≤ (m - 1 / 2) * 2 ^ e := by
          have := zpow_le_zpow_right₀ (one_le_two : (1 : ℚ) ≤ 2) hc.least
          have : (1 / 2 : ℚ) ≤ m - 1 / 2 := by linarith
          gcongr
      _ ≤ v := hlow
  · calc v ≤ (m + 1 / 2) * 2 ^ e := hhigh
      _ ≤ 2 ^ 53 * 2 ^ greatestExponent := by
          have := zpow_le_zpow_right₀ (one_le_two : (1 : ℚ) ≤ 2) hc.greatest
          gcongr
          linarith
      _ < 10 ^ 311 := bound_lt_ten

theorem power_le_of_lt {digits : Nat} {p : Int} (hd : digits ≠ 0)
    (h : (digits : ℚ) * 10 ^ p < 10 ^ 311) : p ≤ 310 := by
  by_contra hp
  refine absurd h (not_lt.2 ?_)
  calc (10 : ℚ) ^ 311 = 1 * 10 ^ ((311 : Nat) : Int) := by rw [zpow_natCast, one_mul]
    _ ≤ digits * 10 ^ p := by
      gcongr
      · exact_mod_cast Nat.one_le_iff_ne_zero.2 hd
      · norm_num
      · omega

theorem le_power_of_lt {digits : Nat} {p : Int} (h : (1 : ℚ) / 10 ^ 400 < digits * 10 ^ p) :
    -400 - (Nat.log2 digits : Int) ≤ p := by
  by_contra hp
  have hlog : (digits : ℚ) ≤ 10 ^ ((Nat.log2 digits : Int) + 1) := by
    calc (digits : ℚ) ≤ 2 ^ (Nat.log2 digits + 1) := by
          exact_mod_cast (Nat.lt_log2_self (n := digits)).le
      _ ≤ 10 ^ (Nat.log2 digits + 1) := by gcongr; norm_num
      _ = 10 ^ ((Nat.log2 digits : Int) + 1) := by rw [← Nat.cast_succ, zpow_natCast]
  refine absurd h (not_lt.2 ?_)
  calc (digits : ℚ) * 10 ^ p
      ≤ 10 ^ ((Nat.log2 digits : Int) + 1) * 10 ^ (-401 - (Nat.log2 digits : Int)) := by
        gcongr
        · norm_num
        · omega
    _ = 1 / 10 ^ 400 := by
        rw [← zpow_add₀ (by norm_num), show (Nat.log2 digits : Int) + 1 +
          (-401 - (Nat.log2 digits : Int)) = -((400 : Nat) : Int) by omega, zpow_neg,
          zpow_natCast, one_div]

theorem ofDecimal_of_has {digits m : Nat} {e p : Int} (hc : Canonical m e) (hm : m ≠ 0)
    (h : (interval m e).Has (e - 2) (digits * 10 ^ p)) (s : Bool) :
    ofDecimal s digits p = .finite s m e := by
  obtain ⟨hleast, hmost⟩ := range_of_has hc hm h
  have hdigits : digits ≠ 0 := by
    rintro rfl
    rw [Nat.cast_zero, zero_mul] at hleast
    exact absurd hleast (not_lt.2 (by positivity))
  have hvalue := zpow_eq_div (show (10 : ℚ) ≠ 0 by norm_num) p
  unfold ofDecimal
  rw [if_neg hdigits, if_neg (not_lt.2 (power_le_of_lt hdigits hmost)),
    if_neg (not_lt.2 (le_power_of_lt hleast))]
  split
  · next hp =>
    refine ofRatio_of_has (Nat.mul_ne_zero hdigits (tenTo_pos _).ne') one_ne_zero hc hm ?_ s
    rw [show (-p).toNat = 0 by omega, pow_zero, div_one] at hvalue
    rwa [Nat.cast_one, div_one, Nat.cast_mul, cast_tenTo, ← hvalue]
  · next hp =>
    refine ofRatio_of_has hdigits (tenTo_pos _).ne' hc hm ?_ s
    rw [show p.toNat = 0 by omega, pow_zero, one_div] at hvalue
    rwa [cast_tenTo, div_eq_mul_inv, ← hvalue]

/-! ## The form of what is rounded -/

theorem roundDiv_le {n d k : Nat} (hd : 0 < d) (h : n ≤ k * d) : roundDiv n d ≤ k := by
  have hround := (@two_mul_sub_le_roundDiv n d hd).1
  by_contra hk
  have := Nat.mul_le_mul_right d (Nat.not_le.1 hk)
  rw [Nat.succ_mul] at this
  omega

theorem le_roundDiv {n d k : Nat} (hd : 0 < d) (h : k * d ≤ n) : k ≤ roundDiv n d := by
  have hround := (@two_mul_sub_le_roundDiv n d hd).2
  by_contra hk
  have := Nat.mul_le_mul_right d (Nat.not_le.1 hk)
  rw [Nat.succ_mul] at this
  omega

theorem isCanonical_zero (s : Bool) : (zero s).IsCanonical where
  short := by decide
  full := .inr rfl
  least := Int.le_refl _
  greatest := by decide

theorem isCanonical_pack {m : Nat} {e : Int} (hm : m ≤ 2 ^ 53)
    (hfull : 2 ^ 52 ≤ m ∨ e = leastExponent) (he : leastExponent ≤ e) (s : Bool) :
    (pack s m e).IsCanonical := by
  unfold pack
  rw [twoTo_eq, twoTo_eq]
  by_cases htop : m = 2 ^ 53
  · simp only [if_pos htop]
    split
    · trivial
    · next hg => exact ⟨by omega, .inl le_rfl, by omega, not_lt.1 hg⟩
  · simp only [if_neg htop]
    split
    · trivial
    · next hg => exact ⟨lt_of_le_of_ne hm htop, hfull, he, not_lt.1 hg⟩

theorem isCanonical_ofRatio {den : Nat} (hd : den ≠ 0) (num : Nat) (s : Bool) :
    (ofRatio s num den).IsCanonical := by
  by_cases hn : num = 0
  · unfold ofRatio
    rw [if_pos hn]
    exact isCanonical_zero s
  · obtain ⟨e', hfor, hleast, hmost⟩ := exponentFor_spec hn hd
    obtain ⟨e, he⟩ : ∃ e, exponentFor num den = e := ⟨_, rfl⟩
    -- At the exponent of 53 bits the mantissa is full; at the least one it may be shorter.
    have hle : e' ≤ e ∧ leastExponent ≤ e ∧ (e = e' ∨ e = leastExponent) := by omega
    have hpos := scaled_pos (Nat.pos_of_ne_zero hd) num e
    have hpos' : (0 : ℚ) < (scaled num den e).2 := by exact_mod_cast hpos
    have hpow : (0 : ℚ) < 2 ^ e := by positivity
    have hcast (k : Nat) : ((2 : ℚ) ^ k) * 2 ^ e = 2 ^ ((k : Int) + e) := by
      rw [zpow_add₀ two_ne_zero, zpow_natCast]
    rw [ofRatio_eq hn he Prod.mk.eta.symm]
    refine isCanonical_pack (roundDiv_le hpos ?_) (hle.2.2.imp_left fun h => le_roundDiv hpos ?_)
      hle.2.1 s
    · have hq : ((scaled num den e).1 : ℚ) / (scaled num den e).2 ≤ 2 ^ 53 := by
        rw [scaled_eq, div_le_iff₀ hpow, hcast]
        exact hmost.le.trans (zpow_le_zpow_right₀ one_le_two (by omega))
      rw [div_le_iff₀ hpos'] at hq
      exact_mod_cast hq
    · have hq : (2 : ℚ) ^ 52 ≤ (scaled num den e).1 / (scaled num den e).2 := by
        rw [scaled_eq, le_div_iff₀ hpow, hcast, h]
        exact hleast
      rw [le_div_iff₀ hpos'] at hq
      exact_mod_cast hq

theorem isCanonical_ofDecimal (s : Bool) (digits : Nat) (p : Int) :
    (ofDecimal s digits p).IsCanonical := by
  unfold ofDecimal
  split_ifs
  · exact isCanonical_zero s
  · trivial
  · exact isCanonical_zero s
  · exact isCanonical_ofRatio one_ne_zero _ s
  · exact isCanonical_ofRatio (tenTo_pos _).ne' _ s

end Binary64

end ThreatDesk
