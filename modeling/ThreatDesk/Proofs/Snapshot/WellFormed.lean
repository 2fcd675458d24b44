import ThreatDesk.Proofs.Snapshot.Parts
import ThreatDesk.Proofs.Tree.Edit

/-!
# Snapshots that are read have well-formed trees

Whatever the document says: names are checked, paths are computed, and of siblings of one name the last
one counts.
-/

namespace ThreatDesk

open Node (WellPlaced WellPlacedAll)

namespace Snapshot

mutual

theorem wellPlaced_nodeOf {place : Text} (v : Json) {n : Node} (h : nodeOf place v = .ok n) :
    WellPlaced Path.root n := by
  obtain ⟨fields, name, rfl, -, hn, ⟨text, -, rfl⟩ | rfl | ⟨items, children, hget, hc, rfl⟩⟩ :=
    nodeOf_cases h
  · exact ⟨hn, rfl⟩
  · exact ⟨hn, rfl, trivial⟩
  · have hlt := sizeOf_items hget
    have hnil : WellPlacedAll (Path.join Path.root name) [] := trivial
    exact ⟨hn, rfl, wellPlacedAll_nodesOf items hnil hc⟩
termination_by sizeOf v
decreasing_by
  subst_vars
  exact hlt

theorem wellPlacedAll_nodesOf {place parent : Text} (items : List Json) {read nodes : List Node}
    (hr : WellPlacedAll parent read) (h : nodesOf place parent read items = .ok nodes) :
    WellPlacedAll parent nodes := by
  match items with
  | [] =>
    rw [nodesOf] at h
    obtain rfl := Except.ok.inj h
    exact hr
  | item :: items =>
    rw [nodesOf] at h
    split at h
    · exact absurd h (by simp)
    · next node hnode =>
      have hn := wellPlaced_nodeOf item hnode
      exact wellPlacedAll_nodesOf items (Nodes.wellPlacedAll_upsert hr hn.fit) h
termination_by sizeOf items

end

theorem wellFormed_ofJson {v : Json} {s : Snapshot} (h : ofJson v = .ok s) :
    s.tree.WellFormed := by
  obtain ⟨fields, files, lines, -, -, -, -, -, hchildren, -, -⟩ := ofJson_cases h
  have hnil : WellPlacedAll Path.root [] := trivial
  exact wellPlacedAll_nodesOf files hnil hchildren

theorem wellFormed_ofBytes {bytes : Bytes} {s : Snapshot} (h : ofBytes bytes = .ok s) :
    s.tree.WellFormed := by
  obtain ⟨v, -, hs⟩ := eq_ok_of_read h
  exact wellFormed_ofJson hs

end Snapshot

end ThreatDesk
