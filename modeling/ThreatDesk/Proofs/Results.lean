/-!
# Results that are passed on

What succeeded or failed before a result was changed or passed on, and two results that go together.
-/

namespace ThreatDesk

variable {ε δ α β : Type}

theorem exists_of_map_ok {x : Except ε α} {f : α → β} {b : β} (h : x.map f = .ok b) :
    ∃ a, x = .ok a ∧ f a = b := by
  cases x with
  | error e => exact absurd h (by simp [Except.map])
  | ok a => exact ⟨a, rfl, Except.ok.inj h⟩

theorem eq_error_of_map_error {x : Except ε α} {f : α → β} {e : ε} (h : x.map f = .error e) :
    x = .error e := by
  cases x with
  | error d => rw [Except.error.inj h]
  | ok a => exact absurd h (by simp [Except.map])

theorem exists_of_isSome_toOption {x : Except ε α} (h : x.toOption.isSome = true) :
    ∃ a, x = .ok a := by
  cases x with
  | error e => exact nomatch h
  | ok a => exact ⟨a, rfl⟩

theorem eq_ok_of_mapError_ok {x : Except ε α} {f : ε → δ} {a : α} (h : x.mapError f = .ok a) :
    x = .ok a := by
  cases x with
  | error e =>
    have herror : Except.error (f e) = .ok a := h
    exact absurd herror (by simp)
  | ok b =>
    obtain rfl := Except.ok.inj h
    rfl

theorem exists_of_bind_ok {x : Except ε α} {f : α → Except ε β} {b : β}
    (h : x >>= f = .ok b) : ∃ a, x = .ok a ∧ f a = .ok b := by
  cases x with
  | error e => exact absurd h (by simp [bind, Except.bind])
  | ok a => exact ⟨a, rfl, h⟩

/-! ## Results in a row -/

theorem exists_of_mapM_error {f : α → Except ε β} {as : List α} {e : ε} (h : as.mapM f = .error e) :
    ∃ a ∈ as, f a = .error e := by
  induction as with
  | nil => exact nomatch h
  | cons a as ih =>
    rw [List.mapM_cons] at h
    cases ha : f a with
    | error d =>
      rw [ha] at h
      obtain rfl := Except.error.inj h
      exact ⟨a, List.mem_cons_self, ha⟩
    | ok b =>
      rw [ha] at h
      cases has : as.mapM f with
      | error d =>
        rw [has] at h
        obtain rfl := Except.error.inj h
        obtain ⟨c, hc, hf⟩ := ih has
        exact ⟨c, List.mem_cons_of_mem _ hc, hf⟩
      | ok bs =>
        rw [has] at h
        exact nomatch h

theorem exists_of_mem_mapM {f : α → Except ε β} {as : List α} {bs : List β} (h : as.mapM f = .ok bs)
    {b : β} (hb : b ∈ bs) : ∃ a ∈ as, f a = .ok b := by
  induction as generalizing bs with
  | nil =>
    obtain rfl := Except.ok.inj h
    exact absurd hb List.not_mem_nil
  | cons a as ih =>
    rw [List.mapM_cons] at h
    obtain ⟨c, hc, h⟩ := exists_of_bind_ok h
    obtain ⟨cs, hcs, h⟩ := exists_of_bind_ok h
    obtain rfl := Except.ok.inj h
    rcases List.mem_cons.1 hb with rfl | hb
    · exact ⟨a, List.mem_cons_self, hc⟩
    · obtain ⟨d, hd, hf⟩ := ih hcs hb
      exact ⟨d, List.mem_cons_of_mem _ hd, hf⟩

theorem mapM_eq_ok_iff {f : α → Except ε β} {as : List α} {bs : List β} :
    as.mapM f = .ok bs ↔ as.map f = bs.map .ok := by
  induction as generalizing bs with
  | nil => cases bs <;> simp [pure, Except.pure]
  | cons a as ih =>
    rw [List.mapM_cons, List.map_cons]
    constructor
    · intro h
      obtain ⟨b, hb, h⟩ := exists_of_bind_ok h
      obtain ⟨cs, hcs, h⟩ := exists_of_bind_ok h
      obtain rfl := Except.ok.inj h
      rw [hb, ih.1 hcs, List.map_cons]
    · intro h
      cases bs with
      | nil => cases h
      | cons b bs =>
        obtain ⟨hb, hbs⟩ := List.cons.inj h
        rw [hb, ih.2 hbs]
        rfl

/-! ## Two results -/

/-- Results that go together: both are faults or both are not, related as given. -/
inductive Agree (E : ε → ε → Prop) (R : α → α → Prop) : Except ε α → Except ε α → Prop
  | error {e d : ε} (h : E e d) : Agree E R (.error e) (.error d)
  | ok {a b : α} (h : R a b) : Agree E R (.ok a) (.ok b)

namespace Agree

variable {E : ε → ε → Prop} {D : δ → δ → Prop} {R : α → α → Prop} {S : β → β → Prop}
  {x y : Except ε α}

theorem refl (hE : ∀ e, E e e) (hR : ∀ a, R a a) : (x : Except ε α) → Agree E R x x
  | .error e => .error (hE e)
  | .ok a => .ok (hR a)

theorem eq (h : Agree Eq Eq x y) : x = y := by
  cases h with
  | error h => rw [h]
  | ok h => rw [h]

theorem map {f g : α → β} (h : Agree E R x y) (hf : ∀ a b, R a b → S (f a) (g b)) :
    Agree E S (x.map f) (y.map g) := by
  cases h with
  | error h => exact .error h
  | ok h => exact .ok (hf _ _ h)

theorem mapError {f : ε → δ} (h : Agree E R x y) (hf : ∀ e d, E e d → D (f e) (f d)) :
    Agree D R (x.mapError f) (y.mapError f) := by
  cases h with
  | error h => exact .error (hf _ _ h)
  | ok h => exact .ok h

theorem bind {f g : α → Except ε β} (h : Agree E R x y)
    (hf : ∀ a b, R a b → Agree E S (f a) (g b)) : Agree E S (x >>= f) (y >>= g) := by
  cases h with
  | error h => exact .error h
  | ok h => exact hf _ _ h

end Agree

end ThreatDesk
