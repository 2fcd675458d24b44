import ThreatDesk.Proofs.Json.Numbers
import ThreatDesk.Proofs.Results
import ThreatDesk.Host.Path
import ThreatDesk.Proofs.Tree.Path
import ThreatDesk.Snapshot.Basic

/-!
# Versions of snapshots

A version that has been bumped can be bumped again, as long as it is not extremely long
(`isSome_bump?_of_bump?`). The file name of a snapshot holds no separator but those of the version.
-/

namespace ThreatDesk

namespace Text

theorem lt_tenTo_length_ofNat (n : Nat) : n < tenTo (ofNat n).length := by
  have hpos : 0 < (ofNat n).length := List.length_pos_iff.2 (ofNat_ne_nil n)
  rw [ofNat, List.length_map] at hpos ⊢
  exact (Nat.length_toDigits_le_iff (by omega) hpos).1 (Nat.le_refl _)

theorem mem_ofInt {n : Int} {c : CodePoint} (h : c ∈ ofInt n) : c.isDigit = true ∨ c = '-' := by
  cases n with
  | ofNat m => exact .inl (isDigit_of_mem_ofNat m c h)
  | negSucc m =>
    rcases List.mem_append.1 h with h | h
    · exact .inr (List.mem_singleton.1 h)
    · exact .inl (isDigit_of_mem_ofNat (m + 1) c h)

theorem natAbs_lt_of_length_ofInt {n : Int} {k : Nat} (h : (ofInt n).length ≤ k) :
    n.natAbs < tenTo k := by
  have hmono {m l : Nat} (hm : m < tenTo l) (hl : l ≤ k) : m < tenTo k :=
    Nat.lt_of_lt_of_le hm (tenTo_le hl)
  cases n with
  | ofNat m => exact hmono (lt_tenTo_length_ofNat m) h
  | negSucc m =>
    have hlength : (ofInt (Int.negSucc m)).length = (ofNat (m + 1)).length + 1 := by
      rw [ofInt, List.length_append, Nat.add_comm]
      rfl
    exact hmono (lt_tenTo_length_ofNat (m + 1)) (by omega)

end Text

/-! ## Integers read back -/

namespace Integer

theorem digit?_of_isDigit {c : CodePoint} (h : c.isDigit = true) :
    c.digit? = some (c.val - 0x30) := by
  have hlow : c.val < 0x80 := by
    simp only [CodePoint.isDigit, Bool.and_eq_true, decide_eq_true_eq] at h
    omega
  rw [CodePoint.digit?, if_pos hlow, if_pos h]

theorem ne_of_isDigit {c d : CodePoint} (hc : c.isDigit = true) (hd : d.isDigit = false) :
    c ≠ d := by
  rintro rfl
  rw [hc] at hd
  exact Bool.noConfusion hd

theorem digits_of_isDigit {t : Text} (h : ∀ c ∈ t, c.isDigit = true) (read : List Nat) :
    digits false read t = some ((t.reverse.map (·.val - 0x30)) ++ read, []) := by
  induction t generalizing read with
  | nil => rfl
  | cons c t ih =>
    obtain ⟨hc, ht⟩ := List.forall_mem_cons.1 h
    rw [digits, if_neg (ne_of_isDigit hc (by decide)), digit?_of_isDigit hc]
    simp only [ih ht]
    simp

theorem magnitude_ofNat (whole : Text) {n : Nat} (h : n < tenTo digitLimit) :
    magnitude whole (Text.ofNat n) = .ok n := by
  have hd := Text.isDigit_of_mem_ofNat n
  have hvalue : value ((Text.ofNat n).reverse.map fun c => c.val - 0x30) = n :=
    Json.Reader.digitsValue_ofNat n
  have hlength := Text.length_ofNat_le (by decide) h
  cases ht : Text.ofNat n with
  | nil => exact absurd ht (Text.ofNat_ne_nil n)
  | cons c t =>
    rw [ht] at hd hvalue hlength
    have hnone : ¬ ((c :: t).reverse.map fun c => c.val - 0x30).length > digitLimit := by
      simpa using hlength
    have hsome : ((c :: t).reverse.map fun c => c.val - 0x30).isEmpty = false := by simp
    have hread := digits_of_isDigit hd []
    rw [List.append_nil] at hread
    rw [magnitude, if_neg (ne_of_isDigit (hd c List.mem_cons_self) (by decide))]
    simp only [hread, if_neg hnone, hsome, hvalue]
    rfl

theorem isMargin_of_isDigit {c : CodePoint} (h : c.isDigit = true) : isMargin c = false := by
  simp only [CodePoint.isDigit, Bool.and_eq_true, decide_eq_true_eq] at h
  simp only [isMargin, CodePoint.isBlank]
  simp
  omega

theorem ofText_ofInt {n : Int} (h : n.natAbs < tenTo digitLimit) :
    ofText (Text.ofInt n) = .ok n := by
  cases n with
  | ofNat m =>
    have hmagnitude (whole : Text) : magnitude whole (Text.ofNat m) = .ok m := magnitude_ofNat whole h
    have hd := Text.isDigit_of_mem_ofNat m
    rw [Text.ofInt]
    cases ht : Text.ofNat m with
    | nil => exact absurd ht (Text.ofNat_ne_nil m)
    | cons c t =>
      rw [ht] at hmagnitude hd
      have hc := hd c List.mem_cons_self
      have hminus : c ≠ '-' := ne_of_isDigit hc (by decide)
      have hplus : c ≠ '+' := ne_of_isDigit hc (by decide)
      rw [ofText, List.dropWhile_cons_of_neg (by simp [isMargin_of_isDigit hc])]
      simp only [if_neg hminus, if_neg hplus, hmagnitude]
      rfl
  | negSucc m =>
    have hmagnitude (whole : Text) : magnitude whole (Text.ofNat (m + 1)) = .ok (m + 1) :=
      magnitude_ofNat whole h
    have htext : Text.ofInt (Int.negSucc m) = ('-' : CodePoint) :: Text.ofNat (m + 1) := rfl
    have hmargin : ¬ isMargin '-' = true := by decide
    rw [htext, ofText, List.dropWhile_cons_of_neg hmargin]
    simp only [if_true, hmagnitude]
    rfl

end Integer

namespace Version

/-! ## Bumping -/

theorem bump?_of_third {v third : Text} {n : Int} (ht : (v.splitOn dot)[2]? = some third)
    (hn : Integer.ofText third = .ok n) (hlimit : (n + 1).natAbs < tenTo Integer.digitLimit) :
    bump? v = some (withThird (v.splitOn dot) (Text.ofInt (n + 1))) := by
  rw [bump?, ht]
  simp only [hn, Integer.toText, if_pos hlimit]

theorem bump?_of_short {v : Text} (h : (v.splitOn dot)[2]? = none) : bump? v = some (v ++ ".1") := by
  rw [bump?, h]

theorem bump?_cases {v w : Text} (h : bump? v = some w) :
    ((v.splitOn dot)[2]? = none ∧ w = v ++ ".1") ∨
      ∃ third n, (v.splitOn dot)[2]? = some third ∧ Integer.ofText third = .ok n ∧
        (n + 1).natAbs < tenTo Integer.digitLimit ∧
        w = withThird (v.splitOn dot) (Text.ofInt (n + 1)) := by
  unfold bump? at h
  simp only at h
  split at h
  · next hnone => exact .inl ⟨hnone, (Option.some.inj h).symm⟩
  · next third ht =>
    split at h
    · exact nomatch h
    · next n hn =>
      split at h
      · exact nomatch h
      · next bumped hb =>
        unfold Integer.toText at hb
        split at hb
        · next hlimit =>
          obtain rfl := Except.ok.inj hb
          exact .inr ⟨third, n, ht, hn, hlimit, (Option.some.inj h).symm⟩
        · exact nomatch hb

theorem ofInt_ne_nil (n : Int) : Text.ofInt n ≠ [] := by
  cases n with
  | ofNat m => exact Text.ofNat_ne_nil m
  | negSucc m => exact List.append_ne_nil_of_right_ne_nil _ (Text.ofNat_ne_nil (m + 1))

theorem sublist_withThird (components : List Text) (bumped : Text) :
    bumped.Sublist (withThird components bumped) :=
  Text.sublist_intercalate _ (List.mem_append_right _ List.mem_cons_self)

theorem bump?_ne_nil {v w : Text} (h : bump? v = some w) : w ≠ [] := by
  rcases bump?_cases h with ⟨-, rfl⟩ | ⟨third, n, -, -, -, rfl⟩
  · exact List.append_ne_nil_of_right_ne_nil _ (by decide)
  · intro hnil
    have hs := sublist_withThird (v.splitOn dot) (Text.ofInt (n + 1))
    rw [hnil] at hs
    exact ofInt_ne_nil (n + 1) (List.sublist_nil.1 hs)

theorem dot_not_mem_ofInt (n : Int) : dot ∉ Text.ofInt n := by
  intro hdot
  rcases Text.mem_ofInt hdot with h | h
  · exact absurd h (by decide)
  · exact absurd h (by decide)

theorem splitOn_withThird (v : Text) (n : Int) :
    (withThird (v.splitOn dot) (Text.ofInt n)).splitOn dot =
      (v.splitOn dot).take 2 ++ Text.ofInt n :: (v.splitOn dot).drop 3 := by
  refine List.splitOn_intercalate dot ?_ (by simp)
  have hpiece : ∀ l ∈ v.splitOn dot, dot ∉ l := fun l hl => Text.not_mem_of_mem_splitOn hl
  intro l hl
  rcases List.mem_append.1 hl with hl | hl
  · exact hpiece l (List.mem_of_mem_take hl)
  · rcases List.mem_cons.1 hl with rfl | hl
    · exact dot_not_mem_ofInt n
    · exact hpiece l (List.mem_of_mem_drop hl)

theorem splitOn_append_one (v : Text) :
    (v ++ ".1" : Text).splitOn dot = v.splitOn dot ++ [Text.ofInt 1] :=
  List.splitOn_append_cons_self v [Text.digit 1]

theorem third_withThird {v third : Text} (ht : (v.splitOn dot)[2]? = some third) (n : Int) :
    ((withThird (v.splitOn dot) (Text.ofInt n)).splitOn dot)[2]? = some (Text.ofInt n) := by
  have hlength : 3 ≤ (v.splitOn dot).length := by
    obtain ⟨hlt, -⟩ := List.getElem?_eq_some_iff.1 ht
    exact hlt
  have htake : ((v.splitOn dot).take 2).length = 2 := by
    rw [List.length_take]
    omega
  rw [splitOn_withThird, List.getElem?_append_right (by omega), htake]
  rfl

theorem isSome_bump?_of_third {w : Text} {n : Int} (ht : (w.splitOn dot)[2]? = some (Text.ofInt n))
    (hn : (Text.ofInt n).length < Integer.digitLimit) : (bump? w).isSome = true := by
  have hlow : n.natAbs < tenTo 4299 := Text.natAbs_lt_of_length_ofInt (Nat.le_of_lt_succ hn)
  have hten : tenTo Integer.digitLimit = tenTo 4299 * tenTo 1 := tenTo_add 4299 1
  rw [show tenTo 1 = 10 from rfl] at hten
  have hread := Integer.ofText_ofInt (n := n) (by omega)
  rw [bump?_of_third ht hread (by omega)]
  rfl

/-- A version that has been bumped can be bumped again, if it is shorter than an integer may be. -/
theorem isSome_bump?_of_bump? {v w : Text} (h : bump? v = some w)
    (hw : w.length < Integer.digitLimit) : (bump? w).isSome = true := by
  rcases bump?_cases h with ⟨hnone, rfl⟩ | ⟨third, n, ht, -, -, rfl⟩
  · cases hthird : ((v ++ ".1" : Text).splitOn dot)[2]? with
    | none =>
      rw [bump?_of_short hthird]
      rfl
    | some third =>
      have hone : third = Text.ofInt 1 := by
        rw [splitOn_append_one, List.getElem?_append_right (List.getElem?_eq_none_iff.1 hnone)]
          at hthird
        exact (List.mem_singleton.1 (List.mem_of_getElem? hthird))
      exact isSome_bump?_of_third (hone ▸ hthird) (by decide)
  · exact isSome_bump?_of_third (third_withThird ht (n + 1))
      (Nat.lt_of_le_of_lt (sublist_withThird _ _).length_le hw)

theorem mem_of_bump? {v w : Text} (h : bump? v = some w) {c : CodePoint} (hc : c ∈ w) :
    c ∈ v ∨ c.isDigit = true ∨ c = '-' ∨ c = dot := by
  have hpiece {t : Text} (ht : t ∈ v.splitOn dot) (hc : c ∈ t) : c ∈ v :=
    Text.subset_of_mem_splitOn ht hc
  rcases bump?_cases h with ⟨-, rfl⟩ | ⟨third, n, -, -, -, rfl⟩
  · rcases List.mem_append.1 hc with hc | hc
    · exact .inl hc
    · have hall : ∀ c ∈ ((".1" : String) : Text), c.isDigit = true ∨ c = '-' ∨ c = dot := by decide
      exact .inr (hall c hc)
  · rcases Text.mem_intercalate hc with hc | ⟨t, ht, hc⟩
    · exact .inr (.inr (.inr (List.mem_singleton.1 hc)))
    · rcases List.mem_append.1 ht with ht | ht
      · exact .inl (hpiece (List.mem_of_mem_take ht) hc)
      · rcases List.mem_cons.1 ht with rfl | ht
        · exact .inr ((Text.mem_ofInt hc).imp_right .inl)
        · exact .inl (hpiece (List.mem_of_mem_drop ht) hc)

/-! ## File names -/

theorem mem_fileStamp {d : Calendar.Date} {c : CodePoint} (h : c ∈ d.fileStamp) :
    c.isDigit = true ∨ c = '-' ∨ c = 'T' := by
  have hpadded {n : Nat} (h : c ∈ Text.ofNatPadded 2 n) : c.isDigit = true :=
    Text.isDigit_of_mem_padded 2 n c h
  have hdash (h : c ∈ (("-" : String) : Text)) : c = '-' := List.mem_singleton.1 h
  have ht (h : c ∈ (("T" : String) : Text)) : c = 'T' := List.mem_singleton.1 h
  simp only [Calendar.Date.fileStamp, List.mem_append] at h
  rcases h with (((((((((h | h) | h) | h) | h) | h) | h) | h) | h) | h) | h
  · exact (Text.mem_ofInt h).imp_right .inl
  · exact .inr (.inl (hdash h))
  · exact .inl (hpadded h)
  · exact .inr (.inl (hdash h))
  · exact .inl (hpadded h)
  · exact .inr (.inr (ht h))
  · exact .inl (hpadded h)
  · exact .inr (.inl (hdash h))
  · exact .inl (hpadded h)
  · exact .inr (.inl (hdash h))
  · exact .inl (hpadded h)

theorem snapshotName_eq_ok {v name : Text} {timestamp : Number}
    (h : snapshotName v timestamp = .ok name) :
    ∃ d : Calendar.Date, name = "retrodeck_v" ++ v ++ "_" ++ d.fileStamp ++ ".json" := by
  obtain ⟨d, -, hd⟩ := exists_of_map_ok h
  exact ⟨d, hd.symm⟩

theorem separator_not_mem_snapshotName {v name : Text} {timestamp : Number}
    (h : snapshotName v timestamp = .ok name) (hv : HostPath.separator ∉ v) :
    HostPath.separator ∉ name := by
  obtain ⟨d, rfl⟩ := snapshotName_eq_ok h
  have hstamp : HostPath.separator ∉ d.fileStamp := by
    intro hs
    rcases mem_fileStamp hs with h | h | h <;> exact absurd h (by decide)
  have hstart : HostPath.separator ∉ (("retrodeck_v" : String) : Text) := by decide
  have hbetween : HostPath.separator ∉ (("_" : String) : Text) := by decide
  have hend : HostPath.separator ∉ ((".json" : String) : Text) := by decide
  simp only [List.mem_append, not_or]
  exact ⟨⟨⟨⟨hstart, hv⟩, hbetween⟩, hstamp⟩, hend⟩

theorem length_lt_snapshotName {v name : Text} {timestamp : Number}
    (h : snapshotName v timestamp = .ok name) : v.length < name.length := by
  obtain ⟨d, rfl⟩ := snapshotName_eq_ok h
  have hend : ((".json" : String) : Text).length = 5 := rfl
  simp only [List.length_append, hend]
  omega

end Version

end ThreatDesk
