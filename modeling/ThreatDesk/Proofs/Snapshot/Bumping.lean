import ThreatDesk.Proofs.Snapshot.Succession
import ThreatDesk.Proofs.Text.Integers

/-!
# Bumping over and over

A version with a third component counts it up, from whatever way of writing it there was
(`bumps?_of_third`), and a shorter one first grows to three components (`bumps?_of_short`). No version
comes twice (`rank_lt_of_bumps?`). Main statement: a version that can be bumped at all can be bumped a
thousand times (`endless_of_isSome_bump?`).
-/

namespace ThreatDesk

namespace Text

theorem replicate_succ (n : Nat) (t : Text) : replicate (n + 1) t = replicate n t ++ t := by
  rw [replicate, List.replicate_succ', List.flatten_append, List.flatten_singleton]
  rfl

end Text

namespace Version

/-- The version after so many bumps; none if one of them fails. -/
def bumps? : Nat → Text → Option Text
  | 0, v => some v
  | n + 1, v => (bumps? n v).bind bump?

theorem bumps?_add (m n : Nat) (v : Text) : bumps? (m + n) v = (bumps? m v).bind (bumps? n) := by
  induction n with
  | zero => exact Option.bind_fun_some _ |>.symm
  | succ n ih =>
    rw [← Nat.add_assoc, bumps?, ih, Option.bind_assoc]
    rfl

theorem rank_lt_of_bumps? {n : Nat} {v w : Text} (h : bumps? (n + 1) v = some w) :
    rank v < rank w := by
  induction n generalizing w with
  | zero => exact rank_lt_of_bump? h
  | succ n ih =>
    obtain ⟨u, hu, hw⟩ := Option.bind_eq_some_iff.1 h
    exact (ih hu).trans (rank_lt_of_bump? hw)

theorem bumps?_ne {m n : Nat} {v : Text} (hn : (bumps? n v).isSome = true) (hlt : m < n) :
    bumps? m v ≠ bumps? n v := by
  obtain ⟨w, hw⟩ := Option.isSome_iff_exists.1 hn
  obtain ⟨k, rfl⟩ := Nat.exists_eq_add_of_lt hlt
  intro heq
  rw [Nat.add_assoc, bumps?_add] at hw
  obtain ⟨u, hu, hlast⟩ := Option.bind_eq_some_iff.1 hw
  have hrank := rank_lt_of_bumps? hlast
  rw [Nat.add_assoc, bumps?_add, hu, Option.bind_some, hlast] at heq
  rw [Option.some.inj heq] at hrank
  exact lt_irrefl _ hrank

/-! ## Counting -/

theorem splitOn_counted {v third : Text} (ht : (v.splitOn dot)[2]? = some third) (n : Int) :
    (withThird (v.splitOn dot) (Text.ofInt n)).splitOn dot = (v.splitOn dot).set 2 (Text.ofInt n) := by
  obtain ⟨hlt, -⟩ := List.getElem?_eq_some_iff.1 ht
  rw [splitOn_withThird, List.set_eq_take_append_cons_drop, if_pos hlt]

theorem withThird_counted {v third : Text} (ht : (v.splitOn dot)[2]? = some third) (m n : Int) :
    withThird ((withThird (v.splitOn dot) (Text.ofInt m)).splitOn dot) (Text.ofInt n) =
      withThird (v.splitOn dot) (Text.ofInt n) := by
  rw [splitOn_counted ht, withThird, withThird, List.take_set_of_le (Nat.le_refl 2),
    List.drop_set_of_lt (by decide)]

theorem bumps?_of_third {v third : Text} {k : Int} (ht : (v.splitOn dot)[2]? = some third)
    (hk : Integer.ofText third = .ok k) {n : Nat}
    (hlimit : k.natAbs + (n + 1) < tenTo Integer.digitLimit) :
    bumps? (n + 1) v = some (withThird (v.splitOn dot) (Text.ofInt (k + (n + 1 : Nat)))) := by
  induction n with
  | zero => exact bump?_of_third ht hk (by omega)
  | succ n ih =>
    have hread := Integer.ofText_ofInt (n := k + (n + 1 : Nat)) (by omega)
    rw [bumps?, ih (by omega), Option.bind_some,
      bump?_of_third (third_withThird ht _) hread (by omega), withThird_counted ht, Int.add_assoc]
    rfl

/-! ## Growing -/

theorem splitOn_grown (v : Text) (n : Nat) :
    (v ++ Text.replicate n ".1").splitOn dot = v.splitOn dot ++ List.replicate n (Text.ofInt 1) := by
  induction n with
  | zero => rw [Text.replicate, List.replicate_zero, List.flatten_nil, List.append_nil,
      List.replicate_zero, List.append_nil]
  | succ n ih =>
    rw [Text.replicate_succ, ← List.append_assoc, splitOn_append_one, ih, List.append_assoc,
      List.replicate_succ']

theorem bumps?_of_short {v : Text} {n : Nat} (h : (v.splitOn dot).length + n ≤ 3) :
    bumps? n v = some (v ++ Text.replicate n ".1") := by
  induction n with
  | zero => exact congrArg some (List.append_nil v).symm
  | succ n ih =>
    have hshort : ((v ++ Text.replicate n ".1").splitOn dot)[2]? = none := by
      rw [List.getElem?_eq_none_iff, splitOn_grown, List.length_append, List.length_replicate]
      omega
    rw [bumps?, ih (by omega), Option.bind_some, bump?_of_short hshort, Text.replicate_succ,
      List.append_assoc]

/-- What a version with fewer than three components grows to. -/
def grown (v : Text) : Text := v ++ Text.replicate (3 - (v.splitOn dot).length) ".1"

theorem third_grown {v : Text} (h : (v.splitOn dot).length < 3) :
    ((grown v).splitOn dot)[2]? = some (Text.ofInt 1) := by
  rw [grown, splitOn_grown, List.getElem?_append_right (by omega), List.getElem?_replicate,
    if_pos (by omega)]

theorem bumps?_of_grown {v : Text} (h : (v.splitOn dot).length < 3) {n : Nat}
    (hn : 3 < (v.splitOn dot).length + n) (hlimit : n < tenTo Integer.digitLimit) :
    bumps? n v = some (withThird ((grown v).splitOn dot)
      (Text.ofInt ((v.splitOn dot).length + n - 2 : Nat))) := by
  have hpos : 0 < (v.splitOn dot).length := List.length_pos_iff.2 (List.splitOn_ne_nil dot v)
  obtain ⟨k, rfl⟩ := Nat.exists_eq_add_of_lt
    (show 3 - (v.splitOn dot).length < n by omega)
  have hgrow : bumps? (3 - (v.splitOn dot).length) v = some (grown v) := bumps?_of_short (by omega)
  have hone : (1 : Int).natAbs = 1 := rfl
  rw [Nat.add_assoc, bumps?_add, hgrow, Option.bind_some,
    bumps?_of_third (third_grown h) (Integer.ofText_ofInt (by omega)) (by omega)]
  congr 3
  omega

/-! ## A thousand bumps -/

theorem ofText_third {v text : Text} (hv : (bump? v).isSome = true)
    (ht : (v.splitOn dot)[2]? = some text) : Integer.ofText text = .ok (third v) := by
  obtain ⟨w, hw⟩ := Option.isSome_iff_exists.1 hv
  rcases bump?_cases hw with ⟨hnone, -⟩ | ⟨text', k, ht', hk, -, -⟩
  · exact absurd (hnone.symm.trans ht) (by simp)
  · obtain rfl := Option.some.inj (ht'.symm.trans ht)
    rw [third_eq ht hk, hk]

theorem isSome_bumps? {v : Text} {n : Nat} (hv : (bump? v).isSome = true)
    (hlimit : (third v).natAbs + n < tenTo Integer.digitLimit) : (bumps? n v).isSome = true := by
  by_cases hgrows : (v.splitOn dot).length + n ≤ 3
  · rw [bumps?_of_short hgrows]
    rfl
  · cases hthird : (v.splitOn dot)[2]? with
    | none =>
      have hshort := List.getElem?_eq_none_iff.1 hthird
      rw [bumps?_of_grown (by omega) (by omega) (by omega)]
      rfl
    | some text =>
      cases n with
      | zero => rfl
      | succ n =>
        rw [bumps?_of_third hthird (ofText_third hv hthird) hlimit]
        rfl

/-- What comes of bumping a version up to so many times. -/
structure Endless (v : Text) (times : Nat) : Prop where
  bumped : ∀ n ≤ times, (bumps? n v).isSome = true
  apart : ∀ m ≤ times, ∀ n ≤ times, bumps? m v = bumps? n v → m = n
  /-- A third component is an integer, which is counted up while the other components stay. -/
  counted : ∀ text, (v.splitOn dot)[2]? = some text → ∃ k, Integer.ofText text = .ok k ∧
    ∀ n, 0 < n → n ≤ times → ∃ w, bumps? n v = some w ∧
      w.splitOn dot = (v.splitOn dot).set 2 (Text.ofInt (k + n))
  /-- A shorter version gets components until there are three. -/
  grows : ∀ n, (v.splitOn dot).length + n ≤ 3 → bumps? n v = some (v ++ Text.replicate n ".1")
  /-- The third component that it has got is then counted up in the same way. -/
  continued : ∀ n, (v.splitOn dot).length < 3 → 3 < (v.splitOn dot).length + n → n ≤ times →
    ∃ w, bumps? n v = some w ∧ w.splitOn dot =
      ((grown v).splitOn dot).set 2 (Text.ofInt ((v.splitOn dot).length + n - 2 : Nat))

theorem endless {v : Text} {times : Nat} (hv : (bump? v).isSome = true)
    (hlimit : (third v).natAbs + times < tenTo Integer.digitLimit) : Endless v times := by
  have hsome : ∀ n ≤ times, (bumps? n v).isSome = true := fun n hn => isSome_bumps? hv (by omega)
  constructor
  case bumped => exact hsome
  case apart =>
    intro m hm n hn heq
    rcases Nat.lt_trichotomy m n with hlt | rfl | hlt
    · exact absurd heq (bumps?_ne (hsome n hn) hlt)
    · rfl
    · exact absurd heq.symm (bumps?_ne (hsome m hm) hlt)
  case counted =>
    intro text ht
    refine ⟨third v, ofText_third hv ht, ?_⟩
    intro n hpos hn
    obtain ⟨m, rfl⟩ := Nat.exists_eq_add_of_lt hpos
    rw [Nat.zero_add] at hn ⊢
    exact ⟨_, bumps?_of_third ht (ofText_third hv ht) (by omega), splitOn_counted ht _⟩
  case grows =>
    intro n hn
    exact bumps?_of_short hn
  case continued =>
    intro n hshort hlong hn
    exact ⟨_, bumps?_of_grown hshort hlong (by omega), splitOn_counted (third_grown hshort) _⟩

theorem natAbs_third_lt {v : Text} {k : Nat}
    (hdigits : ∀ text : Text, (v.splitOn dot)[2]? = some text → text.digitCount ≤ k) :
    (third v).natAbs < tenTo k := by
  unfold third
  cases ht : (v.splitOn dot)[2]? with
  | none => exact tenTo_pos k
  | some text =>
    rw [Option.bind_some]
    cases hn : Integer.ofText text with
    | error fault => exact tenTo_pos k
    | ok n =>
      exact Nat.lt_of_lt_of_le (Integer.natAbs_lt_of_ofText hn) (tenTo_le (hdigits text ht))

/-- Bumping does not get stuck: a version with no more than 4200 digits in its third component that can be
bumped once can be bumped a thousand times. -/
theorem endless_of_isSome_bump? {v : Text} (hv : (bump? v).isSome = true)
    (hdigits : ∀ text : Text, (v.splitOn dot)[2]? = some text → text.digitCount ≤ 4200) :
    Endless v 1000 := by
  have hthird := natAbs_third_lt hdigits
  have hlimit : tenTo 4200 * tenTo 4 ≤ tenTo Integer.digitLimit := by
    rw [← tenTo_add]
    exact tenTo_le (by decide)
  have hten : tenTo 4 = 10000 := rfl
  rw [hten] at hlimit
  exact endless hv (by omega)

theorem endless_minus_two : (bump? "1.0. -٢ .7").isSome = true ∧
    (∀ text : Text, (("1.0. -٢ .7" : Text).splitOn dot)[2]? = some text → text.digitCount ≤ 4200) ∧
    Endless "1.0. -٢ .7" 1000 := by
  have hv : (bump? "1.0. -٢ .7").isSome = true := by decide +kernel
  have hdigits : ∀ text : Text, (("1.0. -٢ .7" : Text).splitOn dot)[2]? = some text →
      text.digitCount ≤ 4200 := by
    intro text ht
    have hthird : (("1.0. -٢ .7" : Text).splitOn dot)[2]? = some (" -٢ " : Text) := by decide
    obtain rfl := Option.some.inj (hthird.symm.trans ht)
    decide
  exact ⟨hv, hdigits, endless_of_isSome_bump? hv hdigits⟩

example : bumps? 3 "1.0. -٢ .7" = some "1.0.1.7" := by decide +kernel

end Version

end ThreatDesk
