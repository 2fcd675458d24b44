import ThreatDesk.Proofs.Tree.Changes
import Mathlib.Data.List.Induction

/-!
# Nodes put into one directory one after another

Of the nodes of one name the last one counts (`mem_collect`), and it stands where the name first came
(`names_collect`).
-/

namespace ThreatDesk

namespace Nodes

variable {parent : Text}

theorem mem_upsert_of_nodup {node n : Node} {ns : List Node} (hd : (ns.map Node.name).Nodup)
    (h : n ∈ upsert parent node ns) :
    n = node.rebase parent ∨ (n ∈ ns ∧ n.name ≠ node.name) := by
  induction ns with
  | nil => exact .inl (List.mem_singleton.1 h)
  | cons m ns ih =>
    obtain ⟨hm, hd⟩ := List.nodup_cons.1 hd
    rw [upsert] at h
    split at h
    · next hname =>
      refine (List.mem_cons.1 h).imp_right fun hn => ⟨List.mem_cons_of_mem m hn, ?_⟩
      rw [← hname]
      exact fun heq => hm (heq ▸ List.mem_map_of_mem hn)
    · next hname =>
      rcases List.mem_cons.1 h with rfl | h
      · exact .inr ⟨List.mem_cons_self, hname⟩
      · exact (ih hd h).imp_right (And.imp_left (List.mem_cons_of_mem m))

/-- The children of `parent` after the nodes have been put there one after another. -/
def collect (parent : Text) (ns : List Node) : List Node :=
  ns.foldl (fun read n => upsert parent n read) []

theorem collect_concat (parent : Text) (ns : List Node) (n : Node) :
    collect parent (ns ++ [n]) = upsert parent n (collect parent ns) := by
  rw [collect, List.foldl_append]
  rfl

theorem names_collect (parent : Text) (ns : List Node) :
    (collect parent ns).map Node.name = (ns.map Node.name).eraseDups := by
  induction ns using List.reverseRecOn with
  | nil => rfl
  | append_singleton ns n ih =>
    have hmem : get? n.name (collect parent ns) = none ↔ n.name ∉ ns.map Node.name := by
      rw [get?_eq_none_iff, ih, List.mem_eraseDups]
    rw [collect_concat, names_upsert, List.map_append, List.eraseDups_append, ih, List.removeAll,
      List.map_singleton]
    by_cases h : n.name ∈ ns.map Node.name
    · rw [if_neg fun hg => hmem.1 hg h, List.filter_cons_of_neg (by simpa using h)]
      rfl
    · rw [if_pos (hmem.2 h), List.filter_cons_of_pos (by simpa using h)]
      rfl

theorem nodup_collect (parent : Text) (ns : List Node) :
    ((collect parent ns).map Node.name).Nodup := by
  induction ns using List.reverseRecOn with
  | nil => exact List.nodup_nil
  | append_singleton ns n ih =>
    rw [collect_concat, names_upsert]
    split
    · next h =>
      refine List.nodup_append.2 ⟨ih, by simp, ?_⟩
      rintro a ha b hb rfl
      exact get?_eq_none_iff.1 h (List.mem_singleton.1 hb ▸ ha)
    · rwa [List.append_nil]

/-- Of the nodes of one name the last one counts. -/
theorem mem_collect {ns : List Node} {m : Node} (h : m ∈ collect parent ns) :
    ∃ before n after, ns = before ++ n :: after ∧ m = n.rebase parent ∧
      ∀ x ∈ after, x.name ≠ n.name := by
  induction ns using List.reverseRecOn generalizing m with
  | nil => exact nomatch h
  | append_singleton ns k ih =>
    rw [collect_concat] at h
    rcases mem_upsert_of_nodup (nodup_collect parent ns) h with rfl | ⟨hm, hne⟩
    · exact ⟨ns, k, [], rfl, rfl, fun x hx => nomatch hx⟩
    · obtain ⟨before, n, after, rfl, rfl, hafter⟩ := ih hm
      refine ⟨before, n, after ++ [k], by simp, rfl, ?_⟩
      rw [n.name_rebase] at hne
      exact List.forall_mem_append.2 ⟨hafter, List.forall_mem_singleton.2 (Ne.symm hne)⟩

theorem rebaseAll_upsert (p q : Text) (n : Node) (ns : List Node) :
    Node.rebaseAll q (upsert p n ns) = upsert q n (Node.rebaseAll q ns) := by
  induction ns with
  | nil => exact congrArg (fun m => [m]) (Node.rebase_rebase p q n)
  | cons m ns ih =>
    rw [upsert, Node.rebaseAll, upsert, Node.name_rebase]
    split
    · rw [Node.rebaseAll, Node.rebase_rebase]
    · rw [Node.rebaseAll, ih]

theorem rebaseAll_collect (p q : Text) (ns : List Node) :
    Node.rebaseAll q (collect p ns) = collect q ns := by
  induction ns using List.reverseRecOn with
  | nil => rfl
  | append_singleton ns n ih => rw [collect_concat, collect_concat, rebaseAll_upsert, ih]

end Nodes

end ThreatDesk
