import ThreatDesk.Text.Integer
import ThreatDesk.Proofs.Results

/-!
# How large an integer in a text can be

The digits of an integer are digits of its text, of whatever script, so a text with few of them holds no
large integer (`natAbs_lt_of_ofText`).
-/

namespace ThreatDesk

def Text.digitCount (t : Text) : Nat := t.countP fun c => c.digit?.isSome

theorem Text.digitCount_le_of_sublist {s t : Text} (h : List.Sublist s t) : s.digitCount ≤ t.digitCount :=
  h.countP_le

theorem CodePoint.digit?_lt {c : CodePoint} {d : Nat} (h : c.digit? = some d) : d < 10 := by
  unfold CodePoint.digit? at h
  split at h
  · split at h
    · next hdigit =>
      simp only [CodePoint.isDigit, Bool.and_eq_true, decide_eq_true_eq] at hdigit
      have := Option.some.inj h
      omega
    · exact nomatch h
  · obtain ⟨first, hfound, rfl⟩ := Option.map_eq_some_iff.1 h
    have hin := List.find?_some hfound
    simp only [Bool.and_eq_true, decide_eq_true_eq] at hin
    omega

namespace Integer

theorem value_lt {ds : List Nat} (h : ∀ d ∈ ds, d < 10) : value ds < tenTo ds.length := by
  induction ds with
  | nil => exact tenTo_pos 0
  | cons d ds ih =>
    obtain ⟨hd, hds⟩ := List.forall_mem_cons.1 h
    have htail := ih hds
    have hten : tenTo 1 = 10 := rfl
    rw [value, List.length_cons, tenTo_add, hten]
    omega

/-- What is read as digits beyond those read before. -/
theorem digits_bounds {joined : Bool} {read ds : List Nat} {t rest : Text}
    (h : digits joined read t = some (ds, rest)) (hread : ∀ d ∈ read, d < 10) :
    (∀ d ∈ ds, d < 10) ∧ ds.length ≤ read.length + t.digitCount := by
  fun_induction digits joined read t with
  | case1 => exact nomatch h
  | case2 read =>
    obtain ⟨rfl, -⟩ := Prod.mk.inj (Option.some.inj h)
    exact ⟨hread, Nat.le_add_right ..⟩
  | case3 => exact nomatch h
  | case4 joined read t hjoined ih =>
    obtain ⟨hds, hlength⟩ := ih h hread
    exact ⟨hds, Nat.le_trans hlength
      (Nat.add_le_add_left (Text.digitCount_le_of_sublist (List.sublist_cons_self ..)) _)⟩
  | case5 joined read c t hc d hd ih =>
    obtain ⟨hds, hlength⟩ := ih h (List.forall_mem_cons.2 ⟨CodePoint.digit?_lt hd, hread⟩)
    refine ⟨hds, ?_⟩
    rw [List.length_cons] at hlength
    rw [Text.digitCount, List.countP_cons_of_pos (by rw [hd]; rfl), ← Text.digitCount]
    omega
  | case6 => exact nomatch h
  | case7 joined read c t hc hd hjoined =>
    obtain ⟨rfl, -⟩ := Prod.mk.inj (Option.some.inj h)
    exact ⟨hread, Nat.le_add_right ..⟩

theorem magnitude_lt {whole t : Text} {n : Nat} (h : magnitude whole t = .ok n) :
    n < tenTo t.digitCount := by
  unfold magnitude at h
  split at h
  · cases h
  · split at h
    · cases h
    · split at h
      · cases h
      · next ds rest hdigits =>
        obtain ⟨hds, hlength⟩ := digits_bounds hdigits (List.forall_mem_nil _)
        split at h
        · cases h
        · split at h
          · cases h
          · obtain rfl := Except.ok.inj h
            rw [List.length_nil, Nat.zero_add] at hlength
            exact Nat.lt_of_lt_of_le (value_lt hds) (tenTo_le hlength)

theorem natAbs_lt_of_ofText {t : Text} {n : Int} (h : ofText t = .ok n) :
    n.natAbs < tenTo t.digitCount := by
  have hsub : List.Sublist (t.dropWhile isMargin) t := List.dropWhile_sublist _
  have hbound {m : Nat} {u : Text} (hm : magnitude t u = .ok m) (hu : List.Sublist u t) :
      m < tenTo t.digitCount :=
    Nat.lt_of_lt_of_le (magnitude_lt hm) (tenTo_le (Text.digitCount_le_of_sublist hu))
  unfold ofText at h
  split at h
  · exact nomatch h
  · next c rest hdrop =>
    rw [hdrop] at hsub
    have htail := (List.sublist_cons_self c rest).trans hsub
    split at h
    · obtain ⟨m, hm, rfl⟩ := exists_of_map_ok h
      rw [Int.natAbs_neg]
      exact hbound hm htail
    · split at h
      · obtain ⟨m, hm, rfl⟩ := exists_of_map_ok h
        exact hbound hm htail
      · obtain ⟨m, hm, rfl⟩ := exists_of_map_ok h
        exact hbound hm hsub

end Integer

end ThreatDesk
