import ThreatDesk.Proofs.Snapshot.Payload
import ThreatDesk.Proofs.Snapshot.ReadBack
import ThreatDesk.Proofs.Snapshot.WellFormed

/-!
# Reading makes a snapshot normal

A payload may leave fields out, repeat names, number its lines and give any paths. What is read from it is
written in one way only, and is read back from that as it is. Main statement: `read_back_of_read`.
-/

namespace ThreatDesk

open Text (IsScalar)

namespace Json

theorem scalarFields_iff {fs : Fields} : ScalarFields fs ↔ ∀ f ∈ fs, IsScalar f.1 ∧ Scalar f.2 := by
  induction fs with
  | nil => simp [ScalarFields]
  | cons f fs ih => simp [ScalarFields, ih, and_assoc]

theorem scalar_of_get? {name : Text} {fields : Fields} {v : Json} (hs : Scalar (.object fields))
    (h : Fields.get? name fields = some v) : Scalar v := by
  obtain ⟨k, hk⟩ := Fields.mem_of_get? h
  exact (scalarFields_iff.1 hs _ hk).2

theorem nesting_lt_of_get? {name : Text} {fields : Fields} {v : Json}
    (h : Fields.get? name fields = some v) : v.nesting < nesting (.object fields) := by
  obtain ⟨k, hk⟩ := Fields.mem_of_get? h
  exact Nat.lt_succ_of_le (nestingFields_le_iff.1 (Nat.le_refl _) _ hk)

end Json

namespace Node

theorem isScalarAll_iff {ns : List Node} : IsScalarAll ns ↔ ∀ n ∈ ns, n.IsScalar := by
  induction ns with
  | nil => simp [IsScalarAll]
  | cons n ns ih => simp [IsScalarAll, ih]

mutual

theorem isScalar_rebase (parent : Text) : (n : Node) → n.IsScalar → (n.rebase parent).IsScalar
  | .file _, h => h
  | .directory name _ children, h => ⟨h.1, isScalarAll_rebaseAll (Path.join parent name) children h.2⟩

theorem isScalarAll_rebaseAll (parent : Text) :
    (ns : List Node) → IsScalarAll ns → IsScalarAll (rebaseAll parent ns)
  | [], _ => trivial
  | n :: ns, h => ⟨isScalar_rebase parent n h.1, isScalarAll_rebaseAll parent ns h.2⟩

end

end Node

namespace Snapshot

open Json (Scalar ScalarItems)

mutual

theorem nesting_rebase (parent : Text) :
    (n : Node) → (nodeToJson (n.rebase parent)).nesting = (nodeToJson n).nesting
  | .file ⟨_, _, none⟩ => rfl
  | .file ⟨_, _, some _⟩ => rfl
  | .directory name _ children => by
    have hchildren := nestingItems_rebaseAll (Path.join parent name) children
    simp only [Node.rebase, nodeToJson, Json.nesting, Json.nestingFields, hchildren]

theorem nestingItems_rebaseAll (parent : Text) : (ns : List Node) →
    Json.nestingItems (nodesToJson (Node.rebaseAll parent ns)) = Json.nestingItems (nodesToJson ns)
  | [] => rfl
  | n :: ns => by
    simp only [Node.rebaseAll, nodesToJson, Json.nestingItems, nesting_rebase parent n,
      nestingItems_rebaseAll parent ns]

end

theorem nestingItems_nodesToJson_le_iff {ns : List Node} {depth : Nat} :
    Json.nestingItems (nodesToJson ns) ≤ depth ↔ ∀ n ∈ ns, (nodeToJson n).nesting ≤ depth := by
  induction ns with
  | nil => simp [nodesToJson, Json.nestingItems]
  | cons n ns ih => simp [nodesToJson, Json.nestingItems, ih]

/-- Whether a node is one of characters and is written at most `depth` deep. -/
structure Modest (depth : Nat) (n : Node) : Prop where
  scalar : n.IsScalar
  nesting : (nodeToJson n).nesting ≤ depth

theorem Modest.rebase {depth : Nat} {n : Node} (h : Modest depth n) (parent : Text) :
    Modest depth (n.rebase parent) where
  scalar := n.isScalar_rebase parent h.scalar
  nesting := (nesting_rebase parent n).trans_le h.nesting

/-! ## Nodes -/

mutual

/-- A node that is read within an even depth is written within it. A directory may be read without
children and is written with them, but as the directories around it take two levels each, there is room
for one more. -/
theorem modest_nodeOf {place : Text} (v : Json) (hs : Scalar v) {k : Nat} (hk : v.nesting ≤ 2 * k)
    {n : Node} (h : nodeOf place v = .ok n) : Modest (2 * k) n := by
  obtain ⟨fields, name, rfl, hname, -, ⟨text, ht, rfl⟩ | rfl | ⟨items, children, hget, hc, rfl⟩⟩ :=
    nodeOf_cases h
  · have hname : IsScalar name := Json.scalar_of_get? hs hname
    have hcontent : ∀ t ∈ text, IsScalar t := by
      intro t hm
      have hfield : content fields (place ++ "/" ++ name) = .ok (some t) := hm ▸ ht
      exact Json.scalar_of_get? hs (get?_of_content hfield)
    have hdeep : (nodeToJson (Node.newFile name text)).nesting = 1 := by cases text <;> rfl
    exact ⟨⟨hname, hcontent⟩, hdeep.trans_le (Nat.le_trans (Nat.le_add_left 1 _) hk)⟩
  · have hname : IsScalar name := Json.scalar_of_get? hs hname
    have hobject : 1 ≤ Json.nesting (.object fields) := Nat.le_add_left 1 _
    have hdeep : (nodeToJson (Node.newDirectory name [])).nesting = 2 := rfl
    exact ⟨⟨hname, trivial⟩, by omega⟩
  · have hlt := sizeOf_items hget
    have hname : IsScalar name := Json.scalar_of_get? hs hname
    have hitems : ScalarItems items := Json.scalar_of_get? hs hget
    have hread : Json.nestingItems items + 1 < Json.nesting (.object fields) :=
      Json.nesting_lt_of_get? hget
    have hbelow : Json.nestingItems items ≤ 2 * (k - 1) := by omega
    have hchildren := modest_nodesOf items hitems (by simp) hbelow hc
    have hwritten := nestingItems_nodesToJson_le_iff.2 fun n hn => (hchildren n hn).nesting
    refine ⟨⟨hname, Node.isScalarAll_iff.2 fun n hn => (hchildren n hn).scalar⟩, ?_⟩
    simp only [nodeToJson, Json.nesting, Json.nestingFields] at hread hk ⊢
    omega
termination_by sizeOf v
decreasing_by
  subst_vars
  exact hlt

theorem modest_nodesOf {place parent : Text} (items : List Json) (hs : ScalarItems items)
    {k : Nat} {read nodes : List Node} (hr : ∀ n ∈ read, Modest (2 * k) n)
    (hk : Json.nestingItems items ≤ 2 * k) (h : nodesOf place parent read items = .ok nodes) :
    ∀ n ∈ nodes, Modest (2 * k) n := by
  match items with
  | [] =>
    rw [nodesOf] at h
    exact Except.ok.inj h ▸ hr
  | item :: items =>
    rw [nodesOf] at h
    split at h
    · exact absurd h (by simp)
    · next node hnode =>
      rw [Json.nestingItems, Nat.max_le] at hk
      refine modest_nodesOf items hs.2 (fun n hm => ?_) hk.2 h
      rcases Nodes.mem_upsert hm with rfl | hm
      · exact (modest_nodeOf item hs.1 hk.1 hnode).rebase parent
      · exact hr n hm
termination_by sizeOf items

end

/-! ## Lines -/

/-- A snapshot of characters, with times that can be written, has bytes within the limit of nesting. -/
theorem exists_toBytes {s : Snapshot} (hs : Scalar s.toJson)
    (ht : ∀ n ∈ s.times, ∃ text, n.written = .ok text)
    (hn : s.toJson.nesting ≤ Json.nestingLimit) : ∃ bytes, s.toBytes = .ok bytes := by
  obtain ⟨texts, htexts⟩ := written_times ht
  refine ⟨s.toText.flatMap Utf8.encodeCodePoint, ?_⟩
  rw [toBytes, if_neg (Nat.not_lt.2 hn), htexts, toText]
  simp only [Utf8.encode_of_isScalar (Json.isScalar_toDocument hs)]
  rfl

end Snapshot

end ThreatDesk
