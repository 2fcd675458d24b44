import ThreatDesk.Proofs.Encoding.Utf8
import ThreatDesk.Proofs.Tree.Path

/-!
# Texts that have no bytes

The first run of surrogates in a text is why it has no bytes. Which one it is does not depend on what is
written around it, only its position does; so two texts with the same run have bytes together, or are
objected to alike (`encode_together`). In a path the run is that of its segments (`surrogates?_segments`).
-/

namespace ThreatDesk

namespace Text

/-- The first run of surrogates: how many there are, and the first of them. -/
def surrogates? : Text → Option (Nat × CodePoint)
  | [] => none
  | c :: t =>
    if c.isSurrogate then some ((t.takeWhile CodePoint.isSurrogate).length + 1, c)
    else surrogates? t

variable {c : CodePoint} {s t : Text}

theorem surrogates?_cons (h : c.isSurrogate = false) (t : Text) :
    surrogates? (c :: t) = surrogates? t :=
  if_neg (by simp [h])

theorem surrogates?_scalar_append (h : s.IsScalar) (t : Text) :
    surrogates? (s ++ t) = surrogates? t := by
  induction s with
  | nil => rfl
  | cons c s ih =>
    obtain ⟨hc, hs⟩ := isScalar_cons.1 h
    rw [List.cons_append, surrogates?_cons hc, ih hs]

theorem surrogates?_of_isScalar (h : s.IsScalar) : surrogates? s = none := by
  rw [← List.append_nil s, surrogates?_scalar_append h]
  rfl

theorem takeWhile_isSurrogate_append (hc : c.isSurrogate = false) (s t : Text) :
    (s ++ c :: t).takeWhile CodePoint.isSurrogate = s.takeWhile CodePoint.isSurrogate := by
  induction s with
  | nil => exact List.takeWhile_cons_of_neg (by simp [hc])
  | cons d s ih => rw [List.cons_append, List.takeWhile_cons, List.takeWhile_cons, ih]

theorem surrogates?_append_cons (hc : c.isSurrogate = false) (s t : Text) :
    surrogates? (s ++ c :: t) = (surrogates? s).or (surrogates? t) := by
  induction s with
  | nil => exact surrogates?_cons hc t
  | cons d s ih =>
    rw [List.cons_append, surrogates?, surrogates?]
    split
    · rw [takeWhile_isSurrogate_append hc]
      rfl
    · exact ih

/-- A way to write single characters: none is left out, and surrogates stay as they are. -/
structure Rewrites (f : CodePoint → Text) : Prop where
  kept : ∀ c, c.isSurrogate = true → f c = [c]
  written : ∀ c, c.isSurrogate = false → f c ≠ [] ∧ (f c).IsScalar

theorem takeWhile_isSurrogate_flatMap {f : CodePoint → Text} (hf : Rewrites f) (t : Text) :
    (t.flatMap f).takeWhile CodePoint.isSurrogate = t.takeWhile CodePoint.isSurrogate := by
  induction t with
  | nil => rfl
  | cons c t ih =>
    rw [List.flatMap_cons]
    cases hc : c.isSurrogate with
    | true =>
      rw [hf.kept c hc, List.singleton_append, List.takeWhile_cons_of_pos hc,
        List.takeWhile_cons_of_pos hc, ih]
    | false =>
      obtain ⟨hne, hscalar⟩ := hf.written c hc
      obtain ⟨d, u, hu⟩ := List.exists_cons_of_ne_nil hne
      have hd : d.isSurrogate = false := hscalar d (by rw [hu]; exact List.mem_cons_self)
      rw [hu, List.cons_append, List.takeWhile_cons_of_neg (by simp [hd]),
        List.takeWhile_cons_of_neg (by simp [hc])]

theorem surrogates?_flatMap {f : CodePoint → Text} (hf : Rewrites f) (t : Text) :
    surrogates? (t.flatMap f) = surrogates? t := by
  induction t with
  | nil => rfl
  | cons c t ih =>
    rw [List.flatMap_cons]
    cases hc : c.isSurrogate with
    | true =>
      rw [hf.kept c hc, List.singleton_append, surrogates?, surrogates?,
        takeWhile_isSurrogate_flatMap hf, ih]
    | false => rw [surrogates?_scalar_append (hf.written c hc).2, surrogates?_cons hc, ih]

end Text

theorem Path.surrogates?_segments (path : Text) :
    path.surrogates? = (segments path).findSome? Text.surrogates? := by
  have hs : separator.isSurrogate = false := by decide
  induction hn : path.length using Nat.strongRecOn generalizing path with
  | _ n ih =>
    by_cases hm : separator ∈ path
    · obtain ⟨s, t, rfl⟩ := List.append_of_mem hm
      rw [List.length_append, List.length_cons] at hn
      rw [Text.surrogates?_append_cons hs, segments_append, List.findSome?_append,
        ih s.length (by omega) s rfl, ih t.length (by omega) t rfl]
    · cases path with
      | nil => rfl
      | cons c t =>
        rw [segments_of_not_mem (List.cons_ne_nil c t) hm, List.findSome?_singleton]

namespace Encoding

theorem surrogateRun?_map (pos : Nat) (t : Text) :
    (surrogateRun? pos t).map (fun fault => (fault.length, fault.first)) = t.surrogates? := by
  rw [surrogateRun?]
  induction t generalizing pos with
  | nil => rfl
  | cons c t ih =>
    rw [unmarkedRun?, Text.surrogates?]
    cases c.isSurrogate with
    | true => rfl
    | false => exact ih (pos + 1)

def EncodeFault.Alike (f g : EncodeFault) : Prop := f.length = g.length ∧ f.first = g.first

end Encoding

theorem Utf8.encode_together {s t : Text} (h : s.surrogates? = t.surrogates?) :
    (∃ a b, encode s = .ok a ∧ encode t = .ok b) ∨
      ∃ f g, encode s = .error f ∧ encode t = .error g ∧ f.Alike g := by
  rw [← Encoding.surrogateRun?_map 0 s, ← Encoding.surrogateRun?_map 0 t] at h
  unfold encode
  cases hs : Encoding.surrogateRun? 0 s with
  | none =>
    rw [hs, Option.map_none, eq_comm, Option.map_eq_none_iff] at h
    rw [h]
    exact .inl ⟨_, _, rfl, rfl⟩
  | some f =>
    rw [hs, Option.map_some, eq_comm, Option.map_eq_some_iff] at h
    obtain ⟨g, hg, hfg⟩ := h
    rw [hg]
    obtain ⟨hlength, hfirst⟩ := Prod.mk.inj hfg
    exact .inr ⟨f, g, rfl, rfl, hlength.symm, hfirst.symm⟩

end ThreatDesk
