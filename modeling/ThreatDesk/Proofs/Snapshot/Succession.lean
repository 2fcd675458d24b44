import Mathlib.Data.Prod.Lex
import ThreatDesk.Proofs.Snapshot.Version

/-!
# Versions after one another

A version that is bumped gets another component or counts its third one up, so no chain of versions comes
back to one of them (`rank_lt_of_bump?`). File names tell versions and times apart, to the second
(`snapshotName_inj`).
-/

namespace ThreatDesk

namespace Text

theorem append_cons_inj {s s' t t' : Text} {c : CodePoint} (ht : c ∉ t) (ht' : c ∉ t')
    (h : s ++ c :: t = s' ++ c :: t') : s = s' ∧ t = t' := by
  rcases List.append_eq_append_iff.1 h with ⟨between, rfl, htail⟩ | ⟨between, rfl, htail⟩
  · cases between with
    | nil => exact ⟨(List.append_nil s).symm, (List.cons.inj htail).2⟩
    | cons d between =>
      obtain ⟨-, rfl⟩ := List.cons.inj htail
      exact absurd (List.mem_append_right between List.mem_cons_self) ht
  · cases between with
    | nil => exact ⟨List.append_nil s', (List.cons.inj htail).2.symm⟩
    | cons d between =>
      obtain ⟨-, rfl⟩ := List.cons.inj htail
      exact absurd (List.mem_append_right between List.mem_cons_self) ht'

end Text

namespace Version

/-! ## Rank -/

def third (v : Text) : Int :=
  ((v.splitOn dot)[2]?.bind fun t => (Integer.ofText t).toOption).getD 0

/-- How far a version has got: how many of the first three components it has, and then how far the third
one has been counted. -/
def rank (v : Text) : Nat ×ₗ Int := toLex (min 3 (v.splitOn dot).length, third v)

theorem third_eq {v text : Text} {n : Int} (ht : (v.splitOn dot)[2]? = some text)
    (hn : Integer.ofText text = .ok n) : third v = n := by
  rw [third, ht, Option.bind_some, hn]
  rfl

theorem length_withThird {v text : Text} (ht : (v.splitOn dot)[2]? = some text) (n : Int) :
    ((withThird (v.splitOn dot) (Text.ofInt n)).splitOn dot).length = (v.splitOn dot).length := by
  obtain ⟨hlt, -⟩ := List.getElem?_eq_some_iff.1 ht
  rw [splitOn_withThird, List.length_append, List.length_cons, List.length_take, List.length_drop]
  omega

/-- A version that has been bumped is ahead. -/
theorem rank_lt_of_bump? {v w : Text} (h : bump? v = some w) : rank v < rank w := by
  unfold rank
  rw [Prod.Lex.toLex_lt_toLex]
  rcases bump?_cases h with ⟨hnone, rfl⟩ | ⟨text, n, ht, hn, hlimit, rfl⟩
  · left
    have hshort := List.getElem?_eq_none_iff.1 hnone
    simp only [splitOn_append_one, List.length_append, List.length_singleton]
    omega
  · right
    constructor
    · rw [length_withThird ht]
    · show third v < third _
      rw [third_eq ht hn, third_eq (third_withThird ht (n + 1)) (Integer.ofText_ofInt hlimit)]
      exact Int.lt_succ n

/-! ## File names -/

def stamp (timestamp : Number) : Except Calendar.Fault Text :=
  (Calendar.ofMilliseconds timestamp).map Calendar.Date.fileStamp

theorem snapshotName_eq_stamp {v name : Text} {timestamp : Number}
    (h : snapshotName v timestamp = .ok name) :
    ∃ time, stamp timestamp = .ok time ∧ ('_' : CodePoint) ∉ time ∧
      name = ("retrodeck_v" : Text) ++ (v ++ ('_' : CodePoint) :: (time ++ (".json" : Text))) := by
  obtain ⟨date, hdate, rfl⟩ := exists_of_map_ok h
  refine ⟨date.fileStamp, ?_, ?_, ?_⟩
  · rw [stamp, hdate]
    rfl
  · intro hmem
    rcases mem_fileStamp hmem with hdigit | hdash | ht
    · exact absurd hdigit (by decide)
    · exact absurd hdash (by decide)
    · exact absurd ht (by decide)
  · simp only [List.append_assoc]
    rfl

theorem snapshotName_inj {v w name : Text} {m n : Number} (hv : snapshotName v m = .ok name)
    (hw : snapshotName w n = .ok name) : v = w ∧ stamp m = stamp n := by
  obtain ⟨s, hs, hplain, rfl⟩ := snapshotName_eq_stamp hv
  obtain ⟨t, ht, hplain', hname⟩ := snapshotName_eq_stamp hw
  have hend : ('_' : CodePoint) ∉ ((".json" : String) : Text) := by decide
  obtain ⟨rfl, htail⟩ := Text.append_cons_inj (List.not_mem_append hplain hend)
    (List.not_mem_append hplain' hend) (List.append_cancel_left hname)
  obtain rfl := List.append_cancel_right htail
  exact ⟨rfl, hs.trans ht.symm⟩

end Version

end ThreatDesk
