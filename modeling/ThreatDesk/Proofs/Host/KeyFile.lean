import ThreatDesk.Proofs.Host.Confined
import ThreatDesk.Proofs.Host.Files
import ThreatDesk.Proofs.Text.Padding

/-!
# The file of the key

The file can be looked at if nothing is there or it holds text (`fromFile_cases`). Setting a word as the key
then puts it there or fails (`set_ends`): because of the path, and then there was nothing and is nothing, or
because the word cannot be written down, and then the file has been emptied. Main statement: `Holds.set`.
-/

namespace ThreatDesk

namespace Text

theorem normaliseNewlines_of_not_mem {t : Text} (h : ('\r' : CodePoint) ∉ t) : t.normaliseNewlines = t := by
  induction t with
  | nil => rfl
  | cons c t ih =>
    rw [List.mem_cons, not_or] at h
    rw [normaliseNewlines.eq_def]
    simp only [if_neg (Ne.symm h.1), ih h.2]

end Text

namespace Host

variable {h k : Host} {p : HostPath}

/-! ## The environment -/

theorem getEnv?_setEnv (h : Host) (name : Text) (value : Option Text) :
    (h.setEnv name value).getEnv? name = value := by
  have hothers : (h.environment.filter fun e => e.1 ≠ name).find? (fun e => e.1 = name) = none := by
    simp
  cases value with
  | none =>
    show ((h.environment.filter fun e => e.1 ≠ name).find? fun e => e.1 = name).map Prod.snd = none
    rw [hothers]
    rfl
  | some v =>
    show (((h.environment.filter fun e => e.1 ≠ name) ++ [(name, v)]).find? fun e => e.1 = name).map
      Prod.snd = some v
    rw [List.find?_append, hothers]
    simp

theorem follow_congr (he : k.entries = h.entries) (stack parts : List Text) :
    k.follow stack parts = h.follow stack parts := by
  induction parts generalizing stack with
  | nil => rfl
  | cons part rest ih =>
    rw [follow, follow, find?_congr he]
    simp only [ih]

theorem locate_congr (he : k.entries = h.entries) (hw : k.workingDirectory = h.workingDirectory)
    (p : HostPath) : k.locate p = h.locate p := by
  rw [locate, locate, hw]
  simp only [follow_congr he]

theorem readBytes_eq_ok {bytes : Bytes} (hr : h.readBytes p = .ok bytes) :
    ∃ place, h.locate p = .ok place ∧ h.bytesAt? place = some bytes := by
  unfold readBytes at hr
  split at hr
  · cases hr
  · next place hl =>
    split at hr
    · cases hr
    · cases hr
    · next modified mode hf =>
      obtain rfl := Except.ok.inj hr
      exact ⟨place, hl, bytesAt?_eq_some.2 ⟨modified, mode, hf⟩⟩

theorem exists?_of_bytesAt? {place : List Text} {bytes : Bytes} (hl : h.locate p = .ok place)
    (hb : h.bytesAt? place = some bytes) : h.exists? p = .ok true := by
  obtain ⟨modified, mode, hf⟩ := bytesAt?_eq_some.1 hb
  rw [exists?, lookup]
  simp only [hl, hf]
  rfl

theorem isDirectory_parent {place : List Text} (hp : p.parts ≠ []) (hl : h.locate p = .ok place) :
    h.isDirectory? p.parent = .ok true := by
  obtain ⟨anchor, parts⟩ := p
  obtain ⟨front, name, rfl⟩ := List.eq_nil_or_concat parts |>.resolve_left hp
  rw [List.concat_eq_append] at hl
  obtain ⟨directory, hdirectory, hd, -⟩ := locate_parent hl
  rw [HostPath.parent, List.concat_eq_append, List.dropLast_concat]
  exact isDirectory?_iff.2 ⟨directory, hdirectory, hd⟩

theorem writeBytes_of_free {place : List Text} (hl : h.locate p = .ok place)
    (hd : h.isDirectoryAt place = false) (bytes : Bytes) : ∃ k, h.writeBytes p bytes = .ok k := by
  unfold writeBytes
  simp only [hl]
  split
  · next modified hf =>
    rw [isDirectoryAt_iff.2 ⟨modified, hf⟩] at hd
    exact nomatch hd
  · exact ⟨_, rfl⟩
  · exact ⟨_, rfl⟩

theorem Confined.free {files dirs : Set (List Text)} {place : List Text} (hk : Confined files dirs h k)
    (hplace : place ∉ dirs) (hd : h.isDirectoryAt place = false) : k.isDirectoryAt place = false := by
  rcases hk.places place with hsame | ⟨-, -, hfile⟩ | ⟨hdir, -, -⟩
  · rwa [isDirectoryAt_of_eq hsame]
  · obtain ⟨bytes, hbytes⟩ := Option.isSome_iff_exists.1 hfile
    obtain ⟨modified, mode, hf⟩ := bytesAt?_eq_some.1 hbytes
    rw [isDirectoryAt, hf]
  · exact absurd hdir hplace

/-! ## Paths of files -/

theorem length_walked {parts : List Text} (hdown : (".." : Text) ∉ parts) (stack : List Text) :
    (walked stack parts).length = stack.length + parts.length := by
  induction parts generalizing stack with
  | nil => rfl
  | cons part rest ih =>
    rw [List.mem_cons, not_or] at hdown
    rw [walked, if_neg (Ne.symm hdown.1), ih hdown.2, List.length_cons, List.length_cons]
    omega

theorem placeOf_notMem_ways (hne : p.parts ≠ []) (hdown : (".." : Text) ∉ p.parts) (h : Host) :
    h.placeOf p ∉ h.ways p.parent := by
  rintro ⟨parts, hparts, heq⟩
  have hfront : parts.length ≤ p.parts.length - 1 := by
    have hlength := hparts.length_le
    rwa [HostPath.parent, List.length_dropLast] at hlength
  have hup : (".." : Text) ∉ parts := fun hup => hdown (List.dropLast_subset _ (hparts.subset hup))
  have hlength := congrArg List.length heq
  have hlast : 0 < p.parts.length := List.length_pos_iff.2 hne
  have hstart : HostPath.isAbsolute ⟨p.parent.anchor, parts⟩ = p.isAbsolute := rfl
  unfold placeOf at hlength
  rw [List.length_reverse, List.length_reverse, length_walked hdown, length_walked hup, hstart] at hlength
  omega

theorem follow_short {parts : List Text} (hshort : ∀ part ∈ parts, nameSize part ≤ nameLimit)
    (stack : List Text) : h.follow stack parts ≠ .error .nameTooLong := by
  induction parts generalizing stack with
  | nil => exact nofun
  | cons part rest ih =>
    obtain ⟨hpart, hrest⟩ := List.forall_mem_cons.1 hshort
    rw [follow]
    split
    · exact fun he => by cases he
    · exact fun he => by cases he
    · rw [if_neg (Nat.not_lt.2 hpart)]
      split
      · exact ih hrest _
      · exact ih hrest _

end Host

/-- A path that a file can have on some host: it ends in a name, does not lead through its own place, and can
be given to the system. -/
structure HostPath.Direct (p : HostPath) : Prop where
  ne_nil : p.parts ≠ []
  apart : ∀ h : Host, h.placeOf p ∉ h.ways p.parent
  short : ∀ part ∈ p.parts, Host.nameSize part ≤ Host.nameLimit
  named : Host.nameFault? p.toText = none
  size : Host.nameSize p.toText < Host.pathLimit

theorem HostPath.Direct.exists?_eq_false {h : Host} {p : HostPath} (hp : p.Direct)
    (hl : ∀ place, h.locate p ≠ .ok place) : h.exists? p = .ok false :=
  Host.exists?_of_find? hp.named hp.size (Host.follow_short hp.short _) fun place hplace =>
    absurd hplace (hl place)

namespace KeyStore

variable {k : KeyStore} {h : Host} {stored : Option Text}

theorem fromFile_of_bytesAt? {place : List Text} {bytes : Bytes} {t : Text}
    (hl : h.locate k.path = .ok place) (hb : h.bytesAt? place = some bytes)
    (ht : Utf8.scheme.strict bytes = .ok t) :
    k.fromFile h = .ok (present? t.normaliseNewlines.trim) := by
  have hread : h.readText k.path = .ok t.normaliseNewlines := by
    rw [Host.readText, Host.readBytes_of_bytesAt? hl hb]
    simp only [ht]
  rw [fromFile, Host.exists?_of_bytesAt? hl hb]
  simp only [hread]
  rfl

theorem fromFile_cases (hs : k.fromFile h = .ok stored) :
    (h.exists? k.path = .ok false ∧ stored = none) ∨
      ∃ place bytes t, h.locate k.path = .ok place ∧ h.bytesAt? place = some bytes ∧
        Utf8.scheme.strict bytes = .ok t ∧ stored = present? t.normaliseNewlines.trim := by
  unfold fromFile at hs
  split at hs
  · cases hs
  · next hmissing => exact .inl ⟨hmissing, (Except.ok.inj hs).symm⟩
  · obtain ⟨u, hread, rfl⟩ := exists_of_map_ok hs
    unfold Host.readText at hread
    split at hread
    · cases hread
    · next bytes hbytes =>
      obtain ⟨place, hl, hb⟩ := Host.readBytes_eq_ok hbytes
      split at hread
      · next t ht =>
        obtain rfl := Except.ok.inj hread
        exact .inr ⟨place, bytes, t, hl, hb, ht, rfl⟩
      · cases hread

/-! ## The key in force -/

theorem present?_eq_some {t key : Text} : present? t = some key ↔ t = key ∧ key ≠ [] := by
  unfold present?
  cases t with
  | nil =>
    refine iff_of_false nofun ?_
    rintro ⟨rfl, hne⟩
    exact hne rfl
  | cons c t =>
    refine Option.some_inj.trans ⟨?_, fun h => h.1⟩
    rintro rfl
    exact ⟨rfl, List.cons_ne_nil c t⟩

def fromEnvironment (k : KeyStore) (h : Host) : Option Text := (h.getEnv? k.variableName).bind present?

theorem fromEnvironment_setEnv (k : KeyStore) (h : Host) (value : Option Text) :
    k.fromEnvironment (h.setEnv k.variableName value) = value.bind present? := by
  rw [fromEnvironment, Host.getEnv?_setEnv]

theorem key_eq (hs : k.fromFile h = .ok stored) : k.key h = .ok ((k.fromEnvironment h).or stored) := by
  unfold key find fromEnvironment
  cases (h.getEnv? k.variableName).bind present? with
  | some key => rfl
  | none =>
    simp only [hs]
    cases stored <;> rfl

theorem source_of_fromFile (hs : k.fromFile h = .ok stored) :
    k.source h = .ok (if (k.fromEnvironment h).isSome then .environment
      else if stored.isSome then .file else .missing) := by
  unfold source find fromEnvironment
  cases (h.getEnv? k.variableName).bind present? with
  | some key => rfl
  | none =>
    simp only [hs]
    cases stored <;> rfl

theorem key_ne_nil {key : Text} (hkey : k.key h = .ok (some key)) : key ≠ [] := by
  obtain ⟨found, hfound, hsome⟩ := exists_of_map_ok hkey
  obtain ⟨⟨_, source⟩, rfl, rfl⟩ := Option.map_eq_some_iff.1 hsome
  unfold find at hfound
  split at hfound
  · next henv =>
    obtain ⟨v, -, hv⟩ := Option.bind_eq_some_iff.1 henv
    cases hfound
    exact (present?_eq_some.1 hv).2
  · obtain ⟨stored, hstored, hsome⟩ := exists_of_map_ok hfound
    obtain ⟨key, rfl, hpair⟩ := Option.map_eq_some_iff.1 hsome
    cases hpair
    rcases fromFile_cases hstored with ⟨-, hnone⟩ | ⟨-, -, t, -, -, -, ht⟩
    · cases hnone
    · exact (present?_eq_some.1 ht.symm).2

theorem fromFile_congr {g : Host} (he : g.entries = h.entries)
    (hw : g.workingDirectory = h.workingDirectory) : k.fromFile g = k.fromFile h := by
  unfold fromFile Host.exists? Host.lookup Host.readText Host.readBytes
  simp only [Host.locate_congr he hw, Host.find?_congr he]

/-! ## Setting a key -/

/-- At the path there is a file with that key or without one, or nothing, and at its place no directory. -/
structure Holds (k : KeyStore) (h : Host) (stored : Option Text) : Prop where
  file : k.fromFile h = .ok stored
  free : h.isDirectoryAt (h.placeOf k.path) = false

theorem Holds.congr {g : Host} (hh : k.Holds h stored) (he : g.entries = h.entries)
    (hw : g.workingDirectory = h.workingDirectory) : k.Holds g stored where
  file := by rw [fromFile_congr he hw, hh.file]
  free := by
    rw [Host.placeOf, hw, Host.isDirectoryAt, Host.find?_congr he]
    exact hh.free

/-- What the file holds when a word has been set as the key: the word, or if that failed what it held
before. A word that cannot be written down takes the old key away. -/
def replaced (k : KeyStore) (h : Host) (word : Text) (stored : Option Text) : Option Text :=
  if (k.set h word).2.isNone then some word else if word.IsScalar then stored else none

theorem fromFile_eq_none (hp : k.path.Direct) (hl : ∀ place, h.locate k.path ≠ .ok place) :
    k.fromFile h = .ok none := by
  rw [fromFile, hp.exists?_eq_false hl]

theorem eq_none_of_nowhere {g : Host} (hk : Host.Keeps ∅ h g) (hs : k.fromFile h = .ok stored)
    (hl : ∀ place, g.locate k.path ≠ .ok place) : stored = none := by
  rcases fromFile_cases hs with ⟨-, hnone⟩ | ⟨place, -, -, hplace, -⟩
  · exact hnone
  · exact absurd (hk.locate hplace) (hl place)

theorem fromFile_word {word : Text} (hword : word.IsWord) {place : List Text}
    (hl : h.locate k.path = .ok place) {bytes : Bytes} (hb : h.bytesAt? place = some bytes)
    (he : Utf8.encode (word ++ [Text.newline]) = .ok bytes) : k.fromFile h = .ok (some word) := by
  obtain ⟨hscalar, rfl⟩ := Utf8.encode_eq_ok he
  have hspace : Text.IsSpace [Text.newline] := by decide
  have hreturn : ('\r' : CodePoint) ∉ word ++ [Text.newline] := by
    rw [List.mem_append]
    rintro (hc | hc)
    · exact absurd (hword.2 _ hc) (by decide)
    · exact absurd hc (by decide)
  have htrim : Text.trim (word ++ [Text.newline]) = word :=
    Text.trim_padded (fun _ hc => absurd hc List.not_mem_nil) hspace hword.isTrimmed hword.1
  rw [fromFile_of_bytesAt? hl hb (Utf8.strict_encoded hscalar), Text.normaliseNewlines_of_not_mem hreturn,
    htrim, present?_eq_some.2 ⟨rfl, hword.1⟩]

/-- How setting a word ends: the path leads nowhere, or the word cannot be written down and the file is
empty, or the word is in the file. -/
inductive SetEnds (k : KeyStore) (h : Host) (word : Text) : Host × Option Host.Fault → Prop
  | nowhere {g : Host} {fault : Host.Fault} (hk : Host.Keeps ∅ h g)
    (hl : ∀ place, g.locate k.path ≠ .ok place) : SetEnds k h word (g, some fault)
  | emptied {g : Host} {fault : Host.Fault} {place : List Text} {objection : Encoding.EncodeFault}
    (hl : g.locate k.path = .ok place) (hb : g.bytesAt? place = some [])
    (he : Utf8.encode (word.trim ++ [Text.newline]) = .error objection) : SetEnds k h word (g, some fault)
  | written {g : Host} {place : List Text} {bytes : Bytes} (hl : g.locate k.path = .ok place)
    (hb : g.bytesAt? place = some bytes) (he : Utf8.encode (word.trim ++ [Text.newline]) = .ok bytes) :
    SetEnds k h word (g, none)

theorem set_ends (hp : k.path.Direct) (hfree : h.isDirectoryAt (h.placeOf k.path) = false) (word : Text) :
    SetEnds k h word (k.set h word) := by
  have hkeeps := Host.keeps_makeDirectories h k.path.parent
  have hconfined := Host.confined_makeDirectories h k.path.parent
  unfold KeyStore.set
  split
  · next made fault hmade =>
    rw [hmade] at hkeeps
    refine .nowhere hkeeps fun place hplace => ?_
    have hno := Host.not_isDirectory_of_makeDirectoriesAt hmade
    rw [List.reverse_reverse] at hno
    exact hno (Host.isDirectory_parent hp.ne_nil hplace)
  · next made hmade =>
    rw [hmade] at hkeeps hconfined
    have hmadeFree := hconfined.free (hp.apart h) hfree
    split
    · next fault hopen =>
      -- Nothing but a directory at its place keeps a file from being emptied where the path leads.
      refine .nowhere hkeeps fun place hplace => ?_
      rw [← hconfined.placeOf, ← Host.locate_eq_placeOf hplace] at hmadeFree
      obtain ⟨opened, hopened⟩ := Host.writeBytes_of_free hplace hmadeFree []
      cases hopen.symm.trans hopened
    · next opened hopen =>
      obtain ⟨hopened, hempty, hplace, -⟩ := Host.keeps_writeBytes hopen
      have hplace := hopened.locate hplace
      split
      · next objection he => exact .emptied hplace hempty he
      · next bytes he =>
        -- What has been emptied is a file, so it is written to again.
        have hopenedFree : opened.isDirectoryAt (made.placeOf k.path) = false := by
          obtain ⟨modified, mode, hf⟩ := Host.bytesAt?_eq_some.1 hempty
          rw [Host.isDirectoryAt, hf]
        split
        · next fault hwrite =>
          obtain ⟨written, hwritten⟩ := Host.writeBytes_of_free hplace hopenedFree bytes
          cases hwrite.symm.trans hwritten
        · next written hwrite =>
          obtain ⟨hwritten, hbytes, -, -⟩ := Host.keeps_writeBytes hwrite
          have hrestricted := Host.keeps_restrict written k.path
          refine .written (hrestricted.locate (hwritten.locate hplace)) ?_ he
          rw [← Host.locate_eq_placeOf hplace] at hbytes
          rw [hrestricted.files _ (Set.notMem_empty _), hbytes]

theorem Holds.set (hh : k.Holds h stored) (hp : k.path.Direct) {word : Text} (hword : word.IsWord) :
    k.Holds (k.set h word).1 (k.replaced h word stored) where
  free := by
    have hconfined := k.confined_set h word
    rw [hconfined.placeOf]
    exact hconfined.free (hp.apart h) hh.free
  file := by
    have hends := set_ends hp hh.free word
    have htrim : word.trim = word := hword.isTrimmed.trim hword.1
    unfold replaced
    generalize k.set h word = r at hends ⊢
    cases hends with
    | nowhere hk hl =>
      obtain rfl := eq_none_of_nowhere hk hh.file hl
      exact (fromFile_eq_none hp hl).trans (congrArg _ (ite_self none).symm)
    | emptied hl hb he =>
      rw [htrim] at he
      have hunwritable : ¬ word.IsScalar := by
        intro hscalar
        have hwhole : (word ++ [Text.newline]).IsScalar := Text.isScalar_append.2 ⟨hscalar, by decide⟩
        cases he.symm.trans (Utf8.encode_of_isScalar hwhole)
      exact (fromFile_of_bytesAt? hl hb rfl).trans (congrArg _ (if_neg hunwritable).symm)
    | written hl hb he =>
      rw [htrim] at he
      exact fromFile_word hword hl hb he

end KeyStore

end ThreatDesk
