import ThreatDesk.Proofs.Json.Reading
import ThreatDesk.Proofs.Snapshot.Parts
import ThreatDesk.Proofs.Snapshot.RoundTrip

/-!
# Whatever is written is read back

Where a snapshot has bytes they are read back as the snapshot (`ofBytes_of_toBytes`), if its tree is
well-formed, its doubles are in their one form and its version can be bumped. What has been read is such
a snapshot, so that it can be written again.
-/

namespace ThreatDesk

/-- Integers are what they are; a double must be in its one form. -/
def Number.IsCanonical : Number → Prop
  | .integer _ => True
  | .real x => x.IsCanonical

namespace Snapshot

open Json (Exact)

theorem isCanonical_of_exact {n : Number} (h : Exact (.number n)) : n.IsCanonical := by
  cases n with
  | integer => trivial
  | real => exact h

/-! ## The times of a snapshot that has been read -/

theorem exact_of_get? {name : Text} {fields : Json.Fields} {v : Json}
    (he : Exact (.object fields)) (h : Json.Fields.get? name fields = some v) : Exact v := by
  obtain ⟨k, hk⟩ := Json.Fields.mem_of_get? h
  exact Json.exactFields_iff.1 he.2 _ hk

theorem exact_times {v : Json} (hv : Exact v) {s : Snapshot} (h : ofJson v = .ok s) :
    ∀ n ∈ s.times, Exact (.number n) := by
  obtain ⟨fields, files, items, rfl, -, -, htime, -, -, hitems, hlines⟩ := ofJson_cases h
  refine List.forall_mem_cons.2 ⟨exact_of_get? hv htime, List.forall_mem_map.2 fun l hl => ?_⟩
  obtain ⟨w, hw, index, hline⟩ := mem_of_linesOf hlines hl
  have hexact := Json.exactItems_iff.1 (exact_of_get? hv hitems) w hw
  obtain ⟨line, id, rfl, -, -, -, hnumber⟩ := lineOf_cases hline
  exact exact_of_get? hexact hnumber

theorem canonical_ofBytes {bytes : Bytes} {s : Snapshot} (h : ofBytes bytes = .ok s) :
    ∀ l ∈ s.lines, l.timestamp.IsCanonical := by
  obtain ⟨v, hv, hs⟩ := eq_ok_of_read h
  intro l hl
  have hmem : l.timestamp ∈ s.times := List.mem_cons_of_mem _ (List.mem_map_of_mem hl)
  exact isCanonical_of_exact (exact_times (Json.fits_ofBytes hv).exact hs _ hmem)

/-! ## Written and read -/

theorem exact_of_written {n : Number} (hn : n.IsCanonical) {t : Text} (h : n.written = .ok t) :
    Exact (.number n) := by
  cases n with
  | integer k =>
    unfold Number.written Integer.toText at h
    simp only at h
    split at h
    · next hk => exact hk
    · exact nomatch h
  | real x => exact hn

theorem exact_of_mapM_written {times : List Number} (hc : ∀ n ∈ times, n.IsCanonical)
    {texts : List Text} (h : times.mapM Number.written = .ok texts) :
    ∀ n ∈ times, Exact (.number n) := by
  induction times generalizing texts with
  | nil => simp
  | cons n times ih =>
    obtain ⟨hn, htimes⟩ := List.forall_mem_cons.1 hc
    rw [List.mapM_cons] at h
    obtain ⟨t, ht, h⟩ := exists_of_bind_ok h
    obtain ⟨ts, hts, -⟩ := exists_of_bind_ok h
    exact List.forall_mem_cons.2 ⟨exact_of_written hn ht, ih htimes hts⟩

theorem value_of_toBytes {s : Snapshot} (hc : ∀ n ∈ s.times, n.IsCanonical) {bytes : Bytes}
    (h : s.toBytes = .ok bytes) : Json.ofBytes bytes = .ok s.toJson := by
  unfold toBytes at h
  split at h
  · exact nomatch h
  · next hn =>
    split at h
    · exact nomatch h
    · next texts htexts =>
      have hexact := exact_toJson (exact_of_mapM_written hc htexts)
      exact Json.ofBytes_of_encode hexact (Nat.not_lt.1 hn) (eq_ok_of_mapError_ok h)

theorem ofBytes_of_toBytes {s : Snapshot} (hw : s.tree.WellFormed)
    (hc : ∀ n ∈ s.times, n.IsCanonical) (hv : (Version.bump? s.version).isSome = true)
    {bytes : Bytes} (h : s.toBytes = .ok bytes) : ofBytes bytes = .ok s := by
  rw [ofBytes, value_of_toBytes hc h, read, ofJson_toJson hv hw]
  rfl

end Snapshot

end ThreatDesk
