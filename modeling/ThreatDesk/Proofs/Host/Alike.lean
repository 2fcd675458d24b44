import ThreatDesk.Tree.Baseline
import ThreatDesk.KeyStore
import ThreatDesk.Proofs.Host.Confined
import ThreatDesk.Proofs.Snapshot.Alike

/-!
# Hosts that differ in snapshots

Two hosts with the same files, but for what the lines of snapshots look like in them. The system finds and
objects to the same on both (`locate_eq`), what is written to both leaves them alike (`Alike.writeBytes`),
and neither the key nor the modules depend on a snapshot (`KeyStore.source_eq`, `Baseline.read_eq`).
-/

namespace ThreatDesk

open Snapshot (BytesAlike)

/-- What files at one place may hold: the same, or snapshots that are alike where no module is read. -/
def ContentsAlike (place : List Text) (b c : Bytes) : Prop :=
  b = c ∨ Baseline.isModuleName (place.getLast?.getD []) = false ∧ BytesAlike b c

theorem ContentsAlike.bytesAlike {place : List Text} {b c : Bytes} (h : ContentsAlike place b c) :
    BytesAlike b c := by
  rcases h with rfl | ⟨-, h⟩
  · exact .same b
  · exact h

/-- Entries of one place that differ in the contents of a file at most. -/
inductive HostEntry.Alike (place : List Text) : HostEntry → HostEntry → Prop
  | directory (modified : Number) : Alike place (.directory modified) (.directory modified)
  | file {b c : Bytes} (h : ContentsAlike place b c) (modified : Number) (mode : Nat) :
    Alike place (.file b modified mode) (.file c modified mode)

theorem HostEntry.Alike.refl (place : List Text) : (e : HostEntry) → Alike place e e
  | .directory modified => .directory modified
  | .file _ modified mode => .file (.inl rfl) modified mode

theorem HostEntry.Alike.modified {place : List Text} {e f : HostEntry} (h : Alike place e f) :
    e.modified = f.modified := by
  cases h <;> rfl

def PlacedAlike (x y : List Text × HostEntry) : Prop := x.1 = y.1 ∧ HostEntry.Alike x.1 x.2 y.2

namespace Host

/-- Hosts that differ in the contents of files at most. -/
structure Alike (h k : Host) : Prop where
  clock : h.clock = k.clock
  environment : h.environment = k.environment
  home : h.home = k.home
  users : h.users = k.users
  workingDirectory : h.workingDirectory = k.workingDirectory
  entries : List.Forall₂ PlacedAlike h.entries k.entries

inductive FoundAlike (place : List Text) : Option HostEntry → Option HostEntry → Prop
  | nothing : FoundAlike place none none
  | directory (modified : Number) :
    FoundAlike place (some (.directory modified)) (some (.directory modified))
  | file {b c : Bytes} (h : ContentsAlike place b c) (modified : Number) (mode : Nat) :
    FoundAlike place (some (.file b modified mode)) (some (.file c modified mode))

theorem Alike.refl (h : Host) : h.Alike h where
  clock := rfl
  environment := rfl
  home := rfl
  users := rfl
  workingDirectory := rfl
  entries := List.forall₂_same.2 fun x _ => ⟨rfl, HostEntry.Alike.refl x.1 x.2⟩

variable {h k : Host}

theorem foundAlike_find? {es fs : List (List Text × HostEntry)} (h : List.Forall₂ PlacedAlike es fs)
    (place : List Text) : FoundAlike place
      ((es.find? fun (p, _) => samePlace p place).map (·.2))
      ((fs.find? fun (p, _) => samePlace p place).map (·.2)) := by
  induction h with
  | nil => exact .nothing
  | @cons x y es fs hxy hs ih =>
    obtain ⟨p, e⟩ := x
    obtain ⟨q, f⟩ := y
    obtain ⟨rfl, he⟩ : p = q ∧ HostEntry.Alike p e f := hxy
    by_cases hp : p = place
    · subst hp
      rw [List.find?_cons_of_pos (by simp), List.find?_cons_of_pos (by simp)]
      cases he with
      | directory modified => exact .directory modified
      | file hc modified mode => exact .file hc modified mode
    · rw [List.find?_cons_of_neg (by simp [hp]), List.find?_cons_of_neg (by simp [hp])]
      exact ih

theorem Alike.find? (hk : h.Alike k) (place : List Text) :
    FoundAlike place (h.find? place) (k.find? place) := by
  rw [Host.find?, Host.find?]
  split
  · exact .directory 0
  · exact foundAlike_find? hk.entries place

/-! ## Finding -/

theorem Alike.follow_eq (hk : h.Alike k) (stack parts : List Text) :
    h.follow stack parts = k.follow stack parts := by
  induction parts generalizing stack with
  | nil => rfl
  | cons part rest ih =>
    have hf := hk.find? stack.reverse
    rw [follow, follow]
    generalize h.find? stack.reverse = e at hf
    generalize k.find? stack.reverse = f at hf
    cases hf with
    | nothing => rfl
    | file => rfl
    | directory modified => simp only [ih]

theorem Alike.locate_eq (hk : h.Alike k) (p : HostPath) : h.locate p = k.locate p := by
  rw [locate, locate, hk.workingDirectory]
  simp only [hk.follow_eq]

theorem Alike.found (hk : h.Alike k) {p : HostPath} {place : List Text} (hl : h.locate p = .ok place) :
    FoundAlike (h.placeOf p) (h.find? place) (k.find? place) := by
  rw [← locate_eq_placeOf hl]
  exact hk.find? place

theorem Alike.lookup (hk : h.Alike k) (p : HostPath) :
    Agree Eq (FoundAlike (h.placeOf p)) (h.lookup p) (k.lookup p) := by
  rw [Host.lookup, Host.lookup, ← hk.locate_eq]
  cases hl : h.locate p with
  | ok place => exact .ok (hk.found hl)
  | error fault =>
    cases fault with
    | system problem q =>
      cases problem with
      | nameTooLong => exact .error rfl
      | notFound | «exists» | notDirectory | isDirectory => exact .ok .nothing
    | nullByte | unencodable | undecodable | noHome => exact .ok .nothing

theorem Alike.exists?_eq (hk : h.Alike k) (p : HostPath) : h.exists? p = k.exists? p := by
  refine ((hk.lookup p).map fun e f he => ?_).eq
  cases he <;> rfl

theorem Alike.isDirectory?_eq (hk : h.Alike k) (p : HostPath) :
    h.isDirectory? p = k.isDirectory? p := by
  refine ((hk.lookup p).map fun e f he => ?_).eq
  cases he <;> rfl

theorem Alike.readBytes (hk : h.Alike k) (p : HostPath) :
    Agree Eq (ContentsAlike (h.placeOf p)) (h.readBytes p) (k.readBytes p) := by
  rw [Host.readBytes, Host.readBytes, ← hk.locate_eq]
  cases hl : h.locate p with
  | error fault => exact .error rfl
  | ok place =>
    have hf := hk.found hl
    simp only
    generalize h.find? place = e at hf ⊢
    generalize k.find? place = f at hf ⊢
    cases hf with
    | nothing | directory => exact .error rfl
    | file hc => exact .ok hc

/-! ## Writing -/

theorem putEntry_alike {es fs : List (List Text × HostEntry)} (h : List.Forall₂ PlacedAlike es fs)
    {place : List Text} {e f : HostEntry} (he : HostEntry.Alike place e f) :
    List.Forall₂ PlacedAlike (putEntry place e es) (putEntry place f fs) := by
  induction h with
  | nil => exact .cons ⟨rfl, he⟩ .nil
  | @cons x y es fs hxy hs ih =>
    obtain ⟨p, d⟩ := x
    obtain ⟨q, g⟩ := y
    obtain ⟨rfl, hd⟩ : p = q ∧ HostEntry.Alike p d g := hxy
    rw [putEntry, putEntry]
    split
    · next hp =>
      subst hp
      exact .cons ⟨rfl, he⟩ hs
    · exact .cons ⟨rfl, hd⟩ ih

theorem Alike.put (hk : h.Alike k) {place : List Text} {e f : HostEntry}
    (he : HostEntry.Alike place e f) : (h.put place e).Alike (k.put place f) :=
  { hk with entries := putEntry_alike hk.entries he }

theorem Alike.writeBytes (hk : h.Alike k) {p : HostPath} {b c : Bytes}
    (hb : ContentsAlike (h.placeOf p) b c) :
    Agree Eq Alike (h.writeBytes p b) (k.writeBytes p c) := by
  rw [Host.writeBytes, Host.writeBytes, ← hk.locate_eq, ← hk.clock]
  cases hl : h.locate p with
  | error fault => exact .error rfl
  | ok place =>
    have hf := hk.found hl
    obtain rfl := locate_eq_placeOf hl
    simp only
    generalize h.find? (h.placeOf p) = e at hf ⊢
    generalize k.find? (h.placeOf p) = f at hf ⊢
    cases hf with
    | nothing => exact .ok (hk.put (.file hb _ _))
    | directory => exact .error rfl
    | file => exact .ok (hk.put (.file hb _ _))

theorem Alike.restrict (hk : h.Alike k) (p : HostPath) : (h.restrict p).Alike (k.restrict p) := by
  rw [Host.restrict, Host.restrict, ← hk.locate_eq]
  cases hl : h.locate p with
  | error fault => exact hk
  | ok place =>
    have hf := hk.found hl
    obtain rfl := locate_eq_placeOf hl
    simp only
    generalize h.find? (h.placeOf p) = e at hf ⊢
    generalize k.find? (h.placeOf p) = f at hf ⊢
    cases hf with
    | nothing | directory => exact hk
    | file hc modified mode => exact hk.put (.file hc modified _)

theorem Alike.makeDirectory (hk : h.Alike k) (p : HostPath) :
    Agree Eq Alike (h.makeDirectory p) (k.makeDirectory p) := by
  rw [Host.makeDirectory, Host.makeDirectory, ← hk.locate_eq, ← hk.clock]
  cases hl : h.locate p with
  | error fault => exact .error rfl
  | ok place =>
    have hf := hk.found hl
    simp only
    generalize h.find? place = e at hf ⊢
    generalize k.find? place = f at hf ⊢
    cases hf with
    | nothing => exact .ok (hk.put (.directory _))
    | directory | file => exact .error rfl

theorem Alike.orDirectory_eq (hk : h.Alike k) (p : HostPath) (fault : Fault) :
    h.orDirectory p fault = k.orDirectory p fault := by
  rw [orDirectory, orDirectory, hk.isDirectory?_eq]

def LeftAlike {α : Type} (r s : Host × α) : Prop := r.1.Alike s.1 ∧ r.2 = s.2

def tryDirectory (h : Host) (p : HostPath) (missing : HostPath → Host × Option Fault) :
    Host × Option Fault :=
  match h.makeDirectory p with
  | .ok h => (h, none)
  | .error (.system .notFound q) => missing q
  | .error fault => (h, h.orDirectory p fault)

theorem makeDirectoriesAt_cons (h : Host) (anchor part : Text) (rest : List Text) :
    h.makeDirectoriesAt anchor (part :: rest) =
      h.tryDirectory ⟨anchor, (part :: rest).reverse⟩ fun _ =>
        match h.makeDirectoriesAt anchor rest with
        | (h, some fault) => (h, some fault)
        | (h, none) => h.tryDirectory ⟨anchor, (part :: rest).reverse⟩ fun q =>
          (h, some (.system .notFound q)) := by
  rw [makeDirectoriesAt]
  rfl

theorem Alike.tryDirectory (hk : h.Alike k) (p : HostPath)
    {missing missing' : HostPath → Host × Option Fault}
    (hm : ∀ q, LeftAlike (missing q) (missing' q)) :
    LeftAlike (h.tryDirectory p missing) (k.tryDirectory p missing') := by
  have hmade := hk.makeDirectory p
  rw [Host.tryDirectory, Host.tryDirectory]
  generalize h.makeDirectory p = x at hmade ⊢
  generalize k.makeDirectory p = y at hmade ⊢
  cases hmade with
  | ok hmade => exact ⟨hmade, rfl⟩
  | @error fault _ he =>
    subst he
    have hother : LeftAlike (h, h.orDirectory p fault) (k, k.orDirectory p fault) :=
      ⟨hk, hk.orDirectory_eq p fault⟩
    cases fault with
    | nullByte | unencodable | undecodable | noHome => exact hother
    | system problem q =>
      cases problem with
      | notFound => exact hm q
      | «exists» | notDirectory | isDirectory | nameTooLong => exact hother

theorem Alike.makeDirectoriesAt (hk : h.Alike k) (anchor : Text) (parts : List Text) :
    LeftAlike (h.makeDirectoriesAt anchor parts) (k.makeDirectoriesAt anchor parts) := by
  induction parts with
  | nil =>
    have hm := hk.makeDirectory ⟨anchor, []⟩
    rw [Host.makeDirectoriesAt, Host.makeDirectoriesAt]
    generalize h.makeDirectory ⟨anchor, []⟩ = x at hm ⊢
    generalize k.makeDirectory ⟨anchor, []⟩ = y at hm ⊢
    cases hm with
    | error he => exact ⟨hk, he ▸ hk.orDirectory_eq _ _⟩
    | ok hm => exact ⟨hm, rfl⟩
  | cons part rest ih =>
    rw [makeDirectoriesAt_cons, makeDirectoriesAt_cons]
    refine hk.tryDirectory _ fun _ => ?_
    obtain ⟨hmade, hfault⟩ := ih
    generalize h.makeDirectoriesAt anchor rest = r at hmade hfault ⊢
    generalize k.makeDirectoriesAt anchor rest = s at hmade hfault ⊢
    obtain ⟨h', f⟩ := r
    obtain ⟨k', g⟩ := s
    obtain rfl : f = g := hfault
    cases f with
    | some fault => exact ⟨hmade, rfl⟩
    | none => exact hmade.tryDirectory _ fun q => ⟨hmade, rfl⟩

theorem Alike.makeDirectories (hk : h.Alike k) (p : HostPath) :
    LeftAlike (h.makeDirectories p) (k.makeDirectories p) :=
  hk.makeDirectoriesAt p.anchor p.parts.reverse

/-! ## Homes -/

theorem Alike.expandUser_eq (hk : h.Alike k) (p : HostPath) : h.expandUser p = k.expandUser p := by
  have hown : h.ownHome? = k.ownHome? := by
    rw [ownHome?, ownHome?, getEnv?, getEnv?, hk.environment, hk.users]
  have hhome (user : Text) : h.homeOf? user = k.homeOf? user := by
    rw [homeOf?, homeOf?, hk.users]
  unfold expandUser
  simp only [hown, hhome]

end Host

/-! ## The key -/

theorem Text.trim_cons_ne_nil {c : CodePoint} (hc : c.isBlank = false) (t : Text) :
    Text.trim (c :: t) ≠ [] := by
  have hstart : Text.trimStart (c :: t) = c :: t := List.dropWhile_cons_of_neg (by simp [hc])
  rw [Text.trim, hstart, Text.trimEnd, ne_eq, List.reverse_eq_nil_iff, List.dropWhile_eq_nil_iff]
  intro h
  rw [h c (by simp)] at hc
  exact Bool.noConfusion hc

namespace KeyStore

variable {h k : Host}

theorem isSome_present_of_brace (rest : Text) :
    (present? (Text.trim (Text.normaliseNewlines (('{' : CodePoint) :: rest)))).isSome = true := by
  have hbrace : Text.normaliseNewlines (('{' : CodePoint) :: rest) =
      ('{' : CodePoint) :: Text.normaliseNewlines rest := by
    rw [Text.normaliseNewlines.eq_def]
    exact if_neg (by decide)
  have hne := Text.trim_cons_ne_nil (c := ('{' : CodePoint)) (by decide) (Text.normaliseNewlines rest)
  rw [hbrace, present?, if_neg (by simpa using hne)]
  rfl

theorem fromFile_alike (store : KeyStore) (hk : h.Alike k) :
    Agree Eq (fun x y => x.isSome = y.isSome) (store.fromFile h) (store.fromFile k) := by
  rw [fromFile, fromFile, hk.exists?_eq]
  split
  · exact .error rfl
  · exact .ok rfl
  · have hread := hk.readBytes store.path
    rw [Host.readText, Host.readText]
    generalize h.readBytes store.path = x at hread ⊢
    generalize k.readBytes store.path = y at hread ⊢
    cases hread with
    | error he => exact .error he
    | ok hb =>
      have hb := hb.bytesAlike
      cases hb with
      | same => exact Agree.refl (fun _ => rfl) (fun x => Eq.refl x.isSome) _
      | written _ _ hb hc =>
        obtain ⟨rest, hrest⟩ := BytesAlike.strict_of_toBytes hb
        obtain ⟨rest', hrest'⟩ := BytesAlike.strict_of_toBytes hc
        dsimp only
        rw [hrest, hrest']
        exact .ok ((isSome_present_of_brace rest).trans (isSome_present_of_brace rest').symm)

theorem source_eq (store : KeyStore) (hk : h.Alike k) : store.source h = store.source k := by
  have hfile := store.fromFile_alike hk
  rw [source, source, find, find, Host.getEnv?, Host.getEnv?, hk.environment]
  split
  · rfl
  · refine ((hfile.map (S := fun x y => x.map Prod.snd = y.map Prod.snd) fun x y hxy => ?_).map
      fun x y hxy => ?_).eq
    · cases x <;> cases y <;> first | rfl | exact Bool.noConfusion hxy
    · cases x with
      | none =>
        cases y with
        | none => rfl
        | some => simp at hxy
      | some =>
        cases y with
        | none => simp at hxy
        | some => exact Option.some.inj hxy

theorem set_alike (store : KeyStore) (hk : h.Alike k) (key : Text) :
    Host.LeftAlike (store.set h key) (store.set k key) := by
  obtain ⟨hmade, hfault⟩ := hk.makeDirectories store.path.parent
  rw [set, set]
  generalize h.makeDirectories store.path.parent = r at hmade hfault ⊢
  generalize k.makeDirectories store.path.parent = s at hmade hfault ⊢
  obtain ⟨h', f⟩ := r
  obtain ⟨k', g⟩ := s
  obtain rfl : f = g := hfault
  cases f with
  | some fault => exact ⟨hmade, rfl⟩
  | none =>
    have hopened : Agree Eq Host.Alike (store.emptied h') (store.emptied k') :=
      hmade.writeBytes (.inl rfl)
    dsimp only
    generalize store.emptied h' = x at hopened ⊢
    generalize store.emptied k' = y at hopened ⊢
    cases hopened with
    | error he => exact ⟨hmade, congrArg some he⟩
    | @ok h' k' hopened =>
      dsimp only
      cases Utf8.encode (key.trim ++ [Text.newline]) with
      | error fault => exact ⟨hopened, rfl⟩
      | ok bytes =>
        have hwritten : Agree Eq Host.Alike (h'.writeBytes store.path bytes)
            (k'.writeBytes store.path bytes) := hopened.writeBytes (.inl rfl)
        dsimp only
        generalize h'.writeBytes store.path bytes = x at hwritten ⊢
        generalize k'.writeBytes store.path bytes = y at hwritten ⊢
        cases hwritten with
        | error he => exact ⟨hopened, congrArg some he⟩
        | ok hwritten => exact ⟨hwritten.restrict store.path, rfl⟩

end KeyStore

/-! ## The archive -/

namespace Archive

variable {h k : Host}

theorem isModuleName_of_isFileName {name : Text} (hn : IsFileName name) :
    Baseline.isModuleName name = false := by
  obtain ⟨-, hend⟩ := hn
  rw [Text.endsWith, Text.startsWith_iff] at hend
  obtain ⟨rest, hrest⟩ := hend
  rw [Baseline.isModuleName, Text.endsWith, ← hrest]
  rfl

theorem write_alike (archive : Archive) (hk : h.Alike k) {b c : Bytes} (hb : BytesAlike b c)
    {filename : Text} (hn : IsFileName (HostPath.ofText filename).name) :
    Host.LeftAlike (archive.write h b filename) (archive.write k c filename) := by
  obtain ⟨hmade, hfault⟩ := hk.makeDirectories archive.directory
  rw [write, write]
  generalize h.makeDirectories archive.directory = r at hmade hfault ⊢
  generalize k.makeDirectories archive.directory = s at hmade hfault ⊢
  obtain ⟨h', f⟩ := r
  obtain ⟨k', g⟩ := s
  obtain rfl : f = g := hfault
  cases f with
  | some fault => exact ⟨hmade, rfl⟩
  | none =>
    have hplace : ContentsAlike (h'.placeOf (archive.pathOf filename)) b c := by
      refine .inr ⟨?_, hb⟩
      rw [placeOf_pathOf_last archive h' hn, placeFor, List.getLast?_concat]
      exact isModuleName_of_isFileName hn
    have hwritten := hmade.writeBytes hplace
    dsimp only
    generalize h'.writeBytes (archive.pathOf filename) b = x at hwritten ⊢
    generalize k'.writeBytes (archive.pathOf filename) c = y at hwritten ⊢
    cases hwritten with
    | error he => exact ⟨hmade, congrArg Except.error he⟩
    | ok hwritten => exact ⟨hwritten, rfl⟩

theorem resolve_eq (archive : Archive) (hk : h.Alike k) (name : Text) :
    archive.resolve h name = archive.resolve k name := by
  rw [resolve, resolve, hk.expandUser_eq]
  simp only [hk.exists?_eq]

theorem read_alike (archive : Archive) (hk : h.Alike k) (name : Text) :
    Agree Eq BytesAlike (archive.read h name) (archive.read k name) := by
  rw [read, read, archive.resolve_eq hk]
  split
  · exact .error rfl
  · next path hp =>
    have hread := hk.readBytes path
    generalize h.readBytes path = x at hread ⊢
    generalize k.readBytes path = y at hread ⊢
    cases hread with
    | error he => exact .error he
    | ok hb => exact .ok hb.bytesAlike

def ListedAlike (x y : Text × HostEntry) : Prop := x.1 = y.1 ∧ x.2.modified = y.2.modified

theorem notAfter_eq {x y u v : Text × HostEntry} (hxy : ListedAlike x y) (huv : ListedAlike u v) :
    notAfter x u = notAfter y v := by
  rw [notAfter, notAfter, hxy.1, hxy.2, huv.1, huv.2]

theorem newest_alike {es fs : List (Text × HostEntry)} (h : List.Forall₂ ListedAlike es fs) :
    (newest es = none ∧ newest fs = none) ∨
      ∃ x y, newest es = some x ∧ newest fs = some y ∧ ListedAlike x y := by
  induction h with
  | nil => exact .inl ⟨rfl, rfl⟩
  | @cons x y es fs hxy hs ih =>
    rw [newest, newest]
    rcases ih with ⟨hes, hfs⟩ | ⟨u, v, hes, hfs, huv⟩
    · rw [hes, hfs]
      exact .inr ⟨x, y, rfl, rfl, hxy⟩
    · rw [hes, hfs]
      simp only
      rw [notAfter_eq hxy huv]
      split
      · exact .inr ⟨u, v, rfl, rfl, huv⟩
      · exact .inr ⟨x, y, rfl, rfl, hxy⟩

theorem children_alike (hk : h.Alike k) (place : List Text) :
    List.Forall₂ ListedAlike (h.children place) (k.children place) := by
  refine List.rel_filterMap ?_ hk.entries
  rintro ⟨p, e⟩ ⟨q, f⟩ ⟨rfl, he⟩
  dsimp only
  split
  · split
    · exact .some ⟨rfl, he.modified⟩
    · exact .none
  · exact .none

theorem latest_eq (archive : Archive) (hk : h.Alike k) : archive.latest h = archive.latest k := by
  rw [latest, latest, hk.isDirectory?_eq]
  split
  · rfl
  · rfl
  · rw [hk.locate_eq]
    split
    · rfl
    · next place hl =>
      have hlisted := List.rel_filter (p := fun x => isSnapshotName x.1) (q := fun x => isSnapshotName x.1)
        (fun x y hxy => iff_of_eq (congrArg (isSnapshotName · = true) hxy.1)) (children_alike hk place)
      rcases newest_alike hlisted with ⟨hx, hy⟩ | ⟨x, y, hx, hy, hxy⟩
      · simp only [hx, hy]
      · simp only [hx, hy, Option.map_some, hxy.1]

end Archive

/-! ## Modules -/

namespace Baseline

variable {h k : Host}

theorem modulePlaces_eq (hk : h.Alike k) (root : List Text) :
    modulePlaces h root = modulePlaces k root := by
  have hbelow (entries : List (List Text × HostEntry)) :
      (entries.filterMap fun (p, _) =>
        if root.isPrefixOf p then some (p.drop root.length) else none) =
      (entries.map Prod.fst).filterMap fun p =>
        if root.isPrefixOf p then some (p.drop root.length) else none := by
    rw [List.filterMap_map]
    rfl
  have hplaces := map_eq_of_forall₂ (fun _ _ hxy => hxy.1) hk.entries
  rw [modulePlaces, modulePlaces, hbelow, hbelow, hplaces]

theorem readModule_eq (hk : h.Alike k) (root : HostPath) {place : List Text}
    (hm : isModuleName (place.getLast?.getD []) = true) :
    readModule h root place = readModule k root place := by
  have hread := hk.readBytes ⟨root.anchor, root.parts ++ place⟩
  obtain ⟨folders, name, rfl⟩ : ∃ folders name, place = folders ++ [name] := by
    rcases List.eq_nil_or_concat place with rfl | ⟨folders, name, rfl⟩
    · exact absurd hm (by decide)
    · exact ⟨folders, name, List.concat_eq_append⟩
  rw [List.getLast?_concat, Option.getD_some] at hm
  -- Where a module is, no snapshot is written.
  have hlast : (h.placeOf ⟨root.anchor, root.parts ++ (folders ++ [name])⟩).getLast? = some name := by
    have hup : name ≠ ".." := by
      rintro rfl
      exact absurd hm (by decide)
    rw [← List.append_assoc, Host.placeOf_append_singleton h _ _ hup, List.getLast?_concat]
  have heq : Agree Eq Eq (h.readBytes ⟨root.anchor, root.parts ++ (folders ++ [name])⟩)
      (k.readBytes ⟨root.anchor, root.parts ++ (folders ++ [name])⟩) := by
    generalize h.readBytes _ = x at hread ⊢
    generalize k.readBytes _ = y at hread ⊢
    cases hread with
    | error he => exact .error he
    | ok hb =>
      rcases hb with rfl | ⟨hn, -⟩
      · exact .ok rfl
      · rw [hlast, Option.getD_some, hm] at hn
        exact Bool.noConfusion hn
  rw [readModule, readModule, Host.readText, Host.readText, heq.eq]

theorem read_eq (hk : h.Alike k) (root : HostPath) : read h root = read k root := by
  have hmodules : ∀ place ∈ modulePlaces k root.parts,
      isModuleName (place.getLast?.getD []) = true := by
    intro place hplace
    have hfilter := List.mem_filter.1 (List.mem_mergeSort.1 hplace)
    exact ((Bool.and_eq_true _ _).mp hfilter.2).1
  rw [read, read, modulePlaces_eq hk]
  generalize modulePlaces k root.parts = places at hmodules
  induction places with
  | nil => rfl
  | cons place places ih =>
    obtain ⟨hplace, hplaces⟩ := List.forall_mem_cons.1 hmodules
    rw [List.mapM_cons, List.mapM_cons, readModule_eq hk root hplace, ih hplaces]

end Baseline

end ThreatDesk
