import ThreatDesk.Proofs.Results
import ThreatDesk.Proofs.Tree.Edit
import ThreatDesk.Proofs.Tree.Path
import ThreatDesk.Archive
import ThreatDesk.Tree.Baseline
import ThreatDesk.KeyStore

/-!
# Hosts with names

On a host every name is one segment and no relative marker. What the shell writes there keeps it so,
and the modules read there have valid names.
-/

namespace ThreatDesk

/-- What the system promises: directories and files are called by valid names. -/
structure Host.Named (h : Host) : Prop where
  workingDirectory : ∀ s ∈ h.workingDirectory, Path.isName s = true
  entries : ∀ e ∈ h.entries, ∀ s ∈ e.1, Path.isName s = true

/-- A path whose parts are names or lead upwards, as paths that are read are. -/
def HostPath.Plain (p : HostPath) : Prop :=
  ∀ s ∈ p.parts, s = ".." ∨ Path.isName s = true

namespace HostPath

theorem plain_ofText (t : Text) : (ofText t).Plain := by
  intro s hs
  obtain ⟨hs, hp⟩ := List.mem_filter.1 hs
  simp only [Bool.and_eq_true, Bool.not_eq_true', List.isEmpty_eq_false_iff, ne_eq, decide_not,
    decide_eq_false_iff_not] at hp
  by_cases hu : s = ".."
  · exact Or.inl hu
  · exact Or.inr (Path.isName_iff.2 ⟨hp.1, Text.not_mem_of_mem_splitOn hs, hp.2, hu⟩)

theorem Plain.child {p : HostPath} (hp : p.Plain) (t : Text) : (p.child t).Plain := by
  have ht := plain_ofText t
  show (append p (ofText t)).Plain
  unfold append
  split
  · exact ht
  · intro s hs
    exact (List.mem_append.1 hs).elim (hp s) (ht s)

theorem Plain.of_sublist {p q : HostPath} (hp : p.Plain) (h : ∀ s ∈ q.parts, s ∈ p.parts) :
    q.Plain := fun s hs => hp s (h s hs)

theorem Plain.parent {p : HostPath} (hp : p.Plain) : p.parent.Plain :=
  hp.of_sublist fun _ hs => List.dropLast_subset _ hs

end HostPath

namespace Host

/-! ## Places -/

theorem named_follow {h : Host} {stack place parts : List Text}
    (hs : ∀ s ∈ stack, Path.isName s = true) (hp : ∀ s ∈ parts, s = ".." ∨ Path.isName s = true)
    (hf : h.follow stack parts = .ok place) : ∀ s ∈ place, Path.isName s = true := by
  induction parts generalizing stack with
  | nil =>
    obtain rfl := Except.ok.inj hf
    exact hs
  | cons part rest ih =>
    obtain ⟨hpart, hrest⟩ := List.forall_mem_cons.1 hp
    rw [follow] at hf
    split at hf
    · exact absurd hf (by simp)
    · exact absurd hf (by simp)
    · split at hf
      · exact ih (fun s h => hs s (List.mem_of_mem_tail h)) hrest hf
      · next hu =>
        split at hf
        · exact absurd hf (by simp)
        · exact ih (List.forall_mem_cons.2 ⟨hpart.resolve_left hu, hs⟩) hrest hf

theorem Named.locate {h : Host} (hn : h.Named) {p : HostPath} (hp : p.Plain) {place : List Text}
    (hl : h.locate p = .ok place) : ∀ s ∈ place, Path.isName s = true := by
  have hstart : ∀ s ∈ (if p.isAbsolute then [] else h.workingDirectory.reverse),
      Path.isName s = true := by
    split
    · simp
    · intro s hs
      exact hn.workingDirectory s (List.mem_reverse.1 hs)
  unfold Host.locate at hl
  split at hl
  · exact absurd hl (by simp)
  · split at hl
    · exact absurd hl (by simp)
    · split at hl
      · next stack hf =>
        obtain rfl := Except.ok.inj hl
        intro s hs
        exact named_follow hstart hp hf s (List.mem_reverse.1 hs)
      · exact absurd hl (by simp)

theorem Named.put {h : Host} (hn : h.Named) {place : List Text}
    (hp : ∀ s ∈ place, Path.isName s = true) (entry : HostEntry) : (h.put place entry).Named := by
  refine ⟨hn.workingDirectory, ?_⟩
  have hmem : ∀ es : List (List Text × HostEntry), (∀ e ∈ es, ∀ s ∈ e.1, Path.isName s = true) →
      ∀ e ∈ putEntry place entry es, ∀ s ∈ e.1, Path.isName s = true := by
    intro es hes
    induction es with
    | nil =>
      exact List.forall_mem_singleton.2 hp
    | cons e es ih =>
      obtain ⟨he, hes⟩ := List.forall_mem_cons.1 hes
      rw [putEntry]
      split
      · exact List.forall_mem_cons.2 ⟨he, hes⟩
      · exact List.forall_mem_cons.2 ⟨he, ih hes⟩
  exact hmem h.entries hn.entries

/-! ## Writing -/

theorem Named.writeBytes {h k : Host} (hn : h.Named) {p : HostPath} (hp : p.Plain) {bytes : Bytes}
    (hw : h.writeBytes p bytes = .ok k) : k.Named := by
  unfold Host.writeBytes at hw
  split at hw
  · exact absurd hw (by simp)
  · next place hl =>
    have hplace := hn.locate hp hl
    split at hw
    · exact absurd hw (by simp)
    · obtain rfl := Except.ok.inj hw
      exact hn.put hplace _
    · obtain rfl := Except.ok.inj hw
      exact hn.put hplace _

theorem Named.restrict {h : Host} (hn : h.Named) {p : HostPath} (hp : p.Plain) :
    (h.restrict p).Named := by
  unfold Host.restrict
  split
  · exact hn
  · next place hl =>
    split
    · exact hn.put (hn.locate hp hl) _
    · exact hn

theorem Named.makeDirectory {h k : Host} (hn : h.Named) {p : HostPath} (hp : p.Plain)
    (hm : h.makeDirectory p = .ok k) : k.Named := by
  unfold Host.makeDirectory at hm
  split at hm
  · exact absurd hm (by simp)
  · next place hl =>
    split at hm
    · exact absurd hm (by simp)
    · obtain rfl := Except.ok.inj hm
      exact hn.put (hn.locate hp hl) _

theorem Named.makeDirectoriesAt {h : Host} (hn : h.Named) (anchor : Text) {parts : List Text}
    (hp : ∀ s ∈ parts, s = ".." ∨ Path.isName s = true) :
    (h.makeDirectoriesAt anchor parts).1.Named := by
  induction parts with
  | nil =>
    rw [Host.makeDirectoriesAt]
    split
    · next k hm => exact hn.makeDirectory (by simp [HostPath.Plain]) hm
    · exact hn
  | cons part rest ih =>
    have hplain : HostPath.Plain ⟨anchor, (part :: rest).reverse⟩ :=
      fun s hs => hp s (List.mem_reverse.1 hs)
    have hrest := ih (List.forall_mem_cons.1 hp).2
    rw [Host.makeDirectoriesAt]
    split
    · next k hm => exact hn.makeDirectory hplain hm
    · split
      · next k fault hr =>
        rw [hr] at hrest
        exact hrest
      · next k hr =>
        rw [hr] at hrest
        split
        · next l hm => exact Named.makeDirectory hrest hplain hm
        · exact hrest
        · exact hrest
    · exact hn

theorem Named.makeDirectories {h : Host} (hn : h.Named) {p : HostPath} (hp : p.Plain) :
    (h.makeDirectories p).1.Named :=
  hn.makeDirectoriesAt p.anchor fun s hs => hp s (List.mem_reverse.1 hs)

end Host

theorem Archive.named_write {a : Archive} (ha : a.directory.Plain) {h : Host} (hn : h.Named)
    (bytes : Bytes) (filename : Text) : (a.write h bytes filename).1.Named := by
  have hmade := hn.makeDirectories ha
  unfold Archive.write
  split
  · next made fault hm =>
    rw [hm] at hmade
    exact hmade
  · next made hm =>
    rw [hm] at hmade
    simp only
    split
    · exact hmade
    · next written hw => exact Host.Named.writeBytes hmade (ha.child _) hw

theorem KeyStore.named_set {k : KeyStore} (hk : k.path.Plain) {h : Host} (hn : h.Named)
    (key : Text) : (k.set h key).1.Named := by
  have hmade := hn.makeDirectories hk.parent
  unfold KeyStore.set
  split
  · next made fault hm =>
    rw [hm] at hmade
    exact hmade
  · next made hm =>
    rw [hm] at hmade
    split
    · exact hmade
    · next opened ho =>
      have hopened := Host.Named.writeBytes hmade hk ho
      split
      · exact hopened
      · split
        · exact hopened
        · next written hw => exact Host.Named.restrict (Host.Named.writeBytes hopened hk hw) hk

/-! ## Modules -/

namespace Baseline

theorem named_of_mem_modulePlaces {h : Host} (hn : h.Named) {root place : List Text}
    (hp : place ∈ modulePlaces h root) :
    place ≠ [] ∧ ∀ s ∈ place, Path.isName s = true := by
  unfold modulePlaces at hp
  simp only [List.mem_mergeSort] at hp
  obtain ⟨hp, hm⟩ := List.mem_filter.1 hp
  obtain ⟨e, he, hpe⟩ := List.mem_filterMap.1 hp
  refine ⟨?_, ?_⟩
  · rintro rfl
    exact absurd hm (by decide)
  · split at hpe
    · obtain rfl := Option.some.inj hpe
      intro s hs
      exact hn.entries e he s (List.mem_of_mem_drop hs)
    · exact absurd hpe (by simp)

theorem named_readModule {h : Host} {root : HostPath} {place : List Text} (hne : place ≠ [])
    (hp : ∀ s ∈ place, Path.isName s = true) {m : Module}
    (hm : readModule h root place = .ok m) : m.Named := by
  unfold readModule at hm
  obtain ⟨content, -, rfl⟩ := exists_of_map_ok hm
  refine ⟨fun s hs => hp s (List.dropLast_subset _ hs), ?_⟩
  show Path.isName (place.getLast?.getD []) = true
  rw [List.getLast?_eq_some_getLast hne]
  exact hp _ (List.getLast_mem hne)

theorem named_read {h : Host} (hn : h.Named) {root : HostPath} {modules : List Module}
    (hr : read h root = .ok modules) : ∀ m ∈ modules, m.Named := by
  have hplaces : ∀ place ∈ modulePlaces h root.parts,
      place ≠ [] ∧ ∀ s ∈ place, Path.isName s = true :=
    fun _ hp => named_of_mem_modulePlaces hn hp
  unfold read at hr
  generalize modulePlaces h root.parts = places at hplaces hr
  induction places generalizing modules with
  | nil =>
    obtain rfl := Except.ok.inj hr
    simp
  | cons place places ih =>
    obtain ⟨⟨hne, hp⟩, hrest⟩ := List.forall_mem_cons.1 hplaces
    rw [List.mapM_cons] at hr
    obtain ⟨m, hm, hr⟩ := exists_of_bind_ok hr
    obtain ⟨ms, hms, hr⟩ := exists_of_bind_ok hr
    obtain rfl := Except.ok.inj hr
    exact List.forall_mem_cons.2 ⟨named_readModule hne hp hm, ih hrest hms⟩

end Baseline

end ThreatDesk
