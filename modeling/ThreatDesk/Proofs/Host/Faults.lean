import ThreatDesk.Proofs.Host.Archive

/-!
# What the system objects to

A path whose parts can be given to the system is not refused but for what the system finds there
(`isSystem_of_locate`), whatever is done with it. So an archive is written and read with objections of the
system alone, if a tilde stands for a home that is known (`isSystem_of_write`, `isSystem_of_read`).
-/

namespace ThreatDesk

open Host (nameFault? nameFault?_eq_none_iff nameFault?_of_subset)

namespace Host

theorem nameFault?_append {s t : Text} :
    nameFault? (s ++ t) = none ↔ nameFault? s = none ∧ nameFault? t = none := by
  simp only [nameFault?_eq_none_iff, List.mem_append]
  constructor
  · intro h
    exact ⟨fun c hc => h c (.inl hc), fun c hc => h c (.inr hc)⟩
  · rintro ⟨hs, ht⟩ c (hc | hc)
    · exact hs c hc
    · exact ht c hc

end Host

namespace HostPath

/-- A path that can be given to the system, part by part. -/
structure Nameable (p : HostPath) : Prop where
  anchor : nameFault? p.anchor = none
  parts : ∀ s ∈ p.parts, nameFault? s = none

theorem Nameable.toText {p : HostPath} (h : p.Nameable) : nameFault? p.toText = none := by
  unfold HostPath.toText
  split
  · decide
  · rw [Host.nameFault?_append]
    refine ⟨h.anchor, nameFault?_eq_none_iff.2 ?_⟩
    intro c hc
    rcases Text.mem_intercalate hc with hc | ⟨s, hs, hc⟩
    · have hbetween : nameFault? "/" = none := by decide
      exact nameFault?_eq_none_iff.1 hbetween c hc
    · exact nameFault?_eq_none_iff.1 (h.parts s hs) c hc

theorem nameFault?_anchorOf (t : Text) : nameFault? (anchorOf t) = none := by
  unfold anchorOf
  split <;> decide

theorem nameable_ofText {t : Text} (h : nameFault? t = none) : (ofText t).Nameable where
  anchor := nameFault?_anchorOf t
  parts := by
    intro s hs
    exact nameFault?_of_subset h (Text.subset_of_mem_splitOn (List.mem_filter.1 hs).1)

theorem Nameable.child {p : HostPath} (hp : p.Nameable) {t : Text} (ht : nameFault? t = none) :
    (p.child t).Nameable := by
  have hq := nameable_ofText ht
  show (append p (ofText t)).Nameable
  unfold append
  split
  · exact hq
  · refine ⟨hp.anchor, ?_⟩
    intro s hs
    exact (List.mem_append.1 hs).elim (hp.parts s) (hq.parts s)

end HostPath

namespace Host

variable {h : Host} {p : HostPath} {fault : Fault}

/-! ## One path -/

theorem isSystem_of_locate (hp : p.Nameable) (hl : h.locate p = .error fault) :
    fault.isSystem = true := by
  unfold locate at hl
  rw [hp.toText] at hl
  simp only at hl
  split at hl
  · obtain rfl := Except.error.inj hl
    rfl
  · split at hl
    · exact nomatch hl
    · obtain rfl := Except.error.inj hl
      rfl

theorem isSystem_of_lookup (hl : h.lookup p = .error fault) : fault.isSystem = true := by
  unfold lookup at hl
  split at hl
  · exact nomatch hl
  · obtain rfl := Except.error.inj hl
    rfl
  · exact nomatch hl

theorem isSystem_of_readBytes (hp : p.Nameable) (hr : h.readBytes p = .error fault) :
    fault.isSystem = true := by
  unfold readBytes at hr
  split at hr
  · next hl => exact Except.error.inj hr ▸ isSystem_of_locate hp hl
  · split at hr
    · exact Except.error.inj hr ▸ rfl
    · exact Except.error.inj hr ▸ rfl
    · exact nomatch hr

theorem isSystem_of_writeBytes (hp : p.Nameable) {bytes : Bytes}
    (hw : h.writeBytes p bytes = .error fault) : fault.isSystem = true := by
  unfold writeBytes at hw
  split at hw
  · next hl => exact Except.error.inj hw ▸ isSystem_of_locate hp hl
  · split at hw
    · exact Except.error.inj hw ▸ rfl
    · exact nomatch hw
    · exact nomatch hw

theorem isSystem_of_makeDirectory (hp : p.Nameable) (hm : h.makeDirectory p = .error fault) :
    fault.isSystem = true := by
  unfold makeDirectory at hm
  split at hm
  · next hl => exact Except.error.inj hm ▸ isSystem_of_locate hp hl
  · split at hm
    · exact Except.error.inj hm ▸ rfl
    · exact nomatch hm

/-! ## Directories -/

theorem isSystem_of_orDirectory {found : Fault} (hf : found.isSystem = true)
    (ho : h.orDirectory p found = some fault) : fault.isSystem = true := by
  unfold orDirectory at ho
  rw [hf] at ho
  simp only [Bool.not_true, Bool.false_eq_true, if_false] at ho
  split at ho
  · exact nomatch ho
  · exact Option.some.inj ho ▸ hf
  · next hd => exact Option.some.inj ho ▸ isSystem_of_lookup (eq_error_of_map_error hd)

theorem isSystem_of_makeDirectoriesAt {anchor : Text} {parts : List Text}
    (ha : nameFault? anchor = none) (hp : ∀ s ∈ parts, nameFault? s = none)
    (hm : (h.makeDirectoriesAt anchor parts).2 = some fault) : fault.isSystem = true := by
  induction parts generalizing h with
  | nil =>
    rw [makeDirectoriesAt] at hm
    split at hm
    · cases hm
    · next hf => exact isSystem_of_orDirectory (isSystem_of_makeDirectory ⟨ha, hp⟩ hf) hm
  | cons part rest ih =>
    have hpath : HostPath.Nameable ⟨anchor, (part :: rest).reverse⟩ :=
      ⟨ha, fun s hs => hp s (List.mem_reverse.1 hs)⟩
    have hmade {k : Host} {found : Fault}
        (hf : k.makeDirectory ⟨anchor, (part :: rest).reverse⟩ = .error found)
        (ho : k.orDirectory ⟨anchor, (part :: rest).reverse⟩ found = some fault) :
        fault.isSystem = true :=
      isSystem_of_orDirectory (isSystem_of_makeDirectory hpath hf) ho
    rw [makeDirectoriesAt] at hm
    split at hm
    · cases hm
    · split at hm
      · next k found hrest =>
        obtain rfl := Option.some.inj hm
        exact ih (List.forall_mem_cons.1 hp).2 (congrArg Prod.snd hrest)
      · split at hm
        · cases hm
        · obtain rfl := Option.some.inj hm
          rfl
        · next hf => exact hmade hf hm
    · next hf => exact hmade hf hm

end Host

/-! ## Archives -/

namespace Archive

variable {a : Archive} {h : Host} {fault : Host.Fault}

theorem nameable_pathOf (ha : a.directory.Nameable) {filename : Text}
    (hf : nameFault? filename = none) : (a.pathOf filename).Nameable := by
  refine ha.child ?_
  unfold HostPath.name
  cases hlast : (HostPath.ofText filename).parts.getLast? with
  | none => decide
  | some s => exact (HostPath.nameable_ofText hf).parts s (List.mem_of_getLast? hlast)

theorem isSystem_of_write (ha : a.directory.Nameable) {filename : Text}
    (hf : nameFault? filename = none) {bytes : Bytes}
    (hw : (a.write h bytes filename).2 = .error fault) : fault.isSystem = true := by
  unfold write at hw
  split at hw
  · next made found hm =>
    obtain rfl := Except.error.inj hw
    refine Host.isSystem_of_makeDirectoriesAt ha.anchor ?_ (congrArg Prod.snd hm)
    exact fun s hs => ha.parts s (List.mem_reverse.1 hs)
  · simp only at hw
    split at hw
    · next hf' =>
      obtain rfl := Except.error.inj hw
      exact Host.isSystem_of_writeBytes (nameable_pathOf ha hf) hf'
    · exact nomatch hw

theorem isSystem_of_read (ha : a.directory.Nameable) {name : Text} (hn : nameFault? name = none)
    (he : ∃ path, h.expandUser (HostPath.ofText name) = .ok path)
    (hr : a.read h name = .error fault) : fault.isSystem = true := by
  obtain ⟨path, he⟩ := he
  rw [read, resolve, he] at hr
  simp only at hr
  cases hx : h.exists? path with
  | error found =>
    rw [hx] at hr
    obtain rfl := Except.error.inj hr
    exact Host.isSystem_of_lookup (eq_error_of_map_error hx)
  | ok there =>
    rw [hx] at hr
    cases there with
    | false => exact Host.isSystem_of_readBytes (ha.child hn) hr
    | true =>
      -- What is there has been located.
      obtain ⟨entry, hlookup, hentry⟩ := exists_of_map_ok hx
      obtain ⟨place, hl⟩ : ∃ place, h.locate path = .ok place := by
        unfold Host.lookup at hlookup
        split at hlookup
        · next place hl => exact ⟨place, hl⟩
        · cases hlookup
        · obtain rfl := Except.ok.inj hlookup
          cases hentry
      simp only [Host.readBytes, hl] at hr
      split at hr
      · exact Except.error.inj hr ▸ rfl
      · exact Except.error.inj hr ▸ rfl
      · cases hr

end Archive

end ThreatDesk
