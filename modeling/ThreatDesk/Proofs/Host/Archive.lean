import ThreatDesk.Archive
import ThreatDesk.Proofs.Host.Files

/-!
# The latest snapshot

A snapshot that is written when all others have been modified before is the latest one, and its path is
read back as its bytes (`latest_of_write`). Writing it touches no other file (`keeps_of_write`).
-/

namespace ThreatDesk

/-! ## Order of times -/

theorem Binary64.lt_asymm {x y : Binary64} (h : x.lt y = true) : y.lt x = false := by
  cases x with
  | nan => exact nomatch h
  | infinity s =>
    cases y with
    | nan => exact nomatch h
    | infinity t => cases s <;> cases t <;> first | rfl | exact nomatch h
    | finite t n f => cases s <;> first | rfl | exact nomatch h
  | finite s m e =>
    cases y with
    | nan => exact nomatch h
    | infinity t => cases t <;> first | rfl | exact nomatch h
    | finite t n f =>
      simp only [lt, decide_eq_true_eq, decide_eq_false_iff_not] at h ⊢
      omega

theorem Number.lt_asymm {m n : Number} (h : m.lt n = true) : n.lt m = false := by
  match m, n with
  | .integer m, .integer n =>
    simp only [lt, decide_eq_true_eq, decide_eq_false_iff_not] at h ⊢
    omega
  | .integer m, .real .nan => cases h
  | .integer m, .real (.infinity true) => cases h
  | .integer m, .real (.infinity false) => rfl
  | .integer m, .real (.finite s k e) =>
    simp only [lt, decide_eq_true_eq, decide_eq_false_iff_not] at h ⊢
    omega
  | .real .nan, .integer n => cases h
  | .real (.infinity true), .integer n => rfl
  | .real (.infinity false), .integer n => cases h
  | .real (.finite s k e), .integer n =>
    simp only [lt, decide_eq_true_eq, decide_eq_false_iff_not] at h ⊢
    omega
  | .real x, .real y => exact Binary64.lt_asymm h

/-! ## Paths as text -/

/-- A path as it is read from text, where no tilde is left to be replaced. -/
structure HostPath.Expanded (p : HostPath) : Prop where
  anchor : p.anchor = [] ∨ p.anchor = "/" ∨ p.anchor = "//"
  plain : p.Plain
  untilded : p.anchor = [] → ∀ part ∈ p.parts.head?, part.head? ≠ some '~'

namespace HostPath

theorem Plain.part {p : HostPath} (hp : p.Plain) {s : Text} (hs : s ∈ p.parts) :
    s ≠ [] ∧ separator ∉ s ∧ s ≠ "." := by
  rcases hp s hs with rfl | h
  · decide
  · obtain ⟨hne, hsep, hdot, -⟩ := Path.isName_iff.1 h
    exact ⟨hne, hsep, hdot⟩

theorem head_intercalate {parts : List Text} (hp : ∀ s ∈ parts, s ≠ [] ∧ separator ∉ s)
    (hne : parts ≠ []) : ∃ c t, Text.intercalate "/" parts = c :: t ∧ c ≠ separator := by
  obtain ⟨first, rest, rfl⟩ := List.exists_cons_of_ne_nil hne
  obtain ⟨hfirst, hsep⟩ := hp first List.mem_cons_self
  obtain ⟨c, u, rfl⟩ := List.exists_cons_of_ne_nil hfirst
  have hc : c ≠ separator := by
    rintro rfl
    exact hsep List.mem_cons_self
  cases rest with
  | nil => exact ⟨c, u, List.intercalate_singleton, hc⟩
  | cons second rest =>
    refine ⟨c, u ++ ("/" ++ Text.intercalate "/" (second :: rest)), ?_, hc⟩
    rw [Text.intercalate, List.intercalate_cons_cons, List.append_assoc]
    rfl

theorem splitOn_separator_cons (t : Text) :
    (separator :: t).splitOn separator = [] :: t.splitOn separator :=
  List.splitOn_append_cons_self [] t

theorem ofText_toText {p : HostPath} (ha : p.anchor = [] ∨ p.anchor = "/" ∨ p.anchor = "//")
    (hp : p.Plain) (hne : p.parts ≠ []) : ofText p.toText = p := by
  obtain ⟨anchor, parts⟩ := p
  have hpart (s : Text) (hs : s ∈ parts) := hp.part hs
  have htext : toText ⟨anchor, parts⟩ = anchor ++ Text.intercalate "/" parts := by
    simp [toText, hne]
  have hsplit : (Text.intercalate "/" parts).splitOn separator = parts :=
    List.splitOn_intercalate separator (fun s hs => (hpart s hs).2.1) hne
  have hfilter : parts.filter (fun p : Text => !p.isEmpty && p ≠ ".") = parts := by
    refine List.filter_eq_self.2 fun s hs => ?_
    obtain ⟨hs, -, hdot⟩ := hpart s hs
    simp [hs, hdot]
  obtain ⟨c, t, hhead, hc⟩ :=
    head_intercalate (fun s hs => ⟨(hpart s hs).1, (hpart s hs).2.1⟩) hne
  rw [htext, hhead]
  rw [hhead] at hsplit
  have hstop : (c :: t).takeWhile (· = separator) = [] := by simp [hc]
  -- Each separator of the anchor leaves one empty part in front, which is dropped.
  rcases ha with ha | ha | ha <;> obtain rfl : anchor = _ := ha
  · have hanchor : anchorOf (c :: t) = [] := by rw [anchorOf, hstop]; rfl
    show ofText (c :: t) = _
    rw [ofText, hanchor, hsplit, hfilter]
  · have hanchor : anchorOf (separator :: c :: t) = "/" := by
      rw [anchorOf, List.takeWhile_cons_of_pos (by decide), hstop]
      rfl
    show ofText (separator :: c :: t) = _
    rw [ofText, hanchor, splitOn_separator_cons, hsplit, List.filter_cons_of_neg (by decide), hfilter]
  · have hanchor : anchorOf (separator :: separator :: c :: t) = "//" := by
      rw [anchorOf, List.takeWhile_cons_of_pos (by decide), List.takeWhile_cons_of_pos (by decide),
        hstop]
      rfl
    show ofText (separator :: separator :: c :: t) = _
    rw [ofText, hanchor, splitOn_separator_cons, splitOn_separator_cons, hsplit,
      List.filter_cons_of_neg (by decide), List.filter_cons_of_neg (by decide), hfilter]

theorem Expanded.child {p : HostPath} (hp : p.Expanded) {name : Text} (hn : Path.isName name = true)
    (ht : name.head? ≠ some '~') : Expanded ⟨p.anchor, p.parts ++ [name]⟩ where
  anchor := hp.anchor
  plain := by
    intro s hs
    rcases List.mem_append.1 hs with hs | hs
    · exact hp.plain s hs
    · exact .inr (List.mem_singleton.1 hs ▸ hn)
  untilded := by
    intro ha part hpart
    cases hparts : p.parts with
    | nil =>
      rw [hparts] at hpart
      obtain rfl := Option.some.inj hpart
      exact ht
    | cons first rest =>
      rw [hparts] at hpart
      exact hp.untilded ha part (hparts ▸ hpart)

theorem ofText_of_not_mem {t : Text} (hne : t ≠ []) (hdot : t ≠ ".") (hs : separator ∉ t) :
    ofText t = ⟨[], [t]⟩ := by
  obtain ⟨c, u, rfl⟩ := List.exists_cons_of_ne_nil hne
  have hc : c ≠ separator := by
    rintro rfl
    exact hs List.mem_cons_self
  have hanchor : anchorOf (c :: u) = [] := by
    rw [anchorOf, List.takeWhile_cons_of_neg (by simp [hc])]
    rfl
  rw [ofText, hanchor, List.splitOn_eq_singleton hs, List.filter_cons_of_pos (by simp [hdot])]
  rfl

end HostPath

theorem Host.expandUser_of_expanded (h : Host) {p : HostPath} (hp : p.Expanded) :
    h.expandUser p = .ok p := by
  unfold expandUser
  split
  · next c user rest ha hparts =>
    have hc : c ≠ '~' := by
      rintro rfl
      exact hp.untilded ha (_ :: user) (hparts ▸ rfl) rfl
    exact if_pos hc
  · rfl

namespace Archive

/-! ## The newest entry -/

theorem mem_of_newest {es : List (Text × HostEntry)} {e : Text × HostEntry}
    (h : newest es = some e) : e ∈ es := by
  induction es generalizing e with
  | nil => exact nomatch h
  | cons f es ih =>
    rw [newest] at h
    split at h
    · exact Option.some.inj h ▸ List.mem_cons_self
    · next g hg =>
      split at h
      · exact List.mem_cons_of_mem _ (ih (Option.some.inj h ▸ hg))
      · exact Option.some.inj h ▸ List.mem_cons_self

theorem newest_eq {es : List (Text × HostEntry)} {e : Text × HostEntry} (he : e ∈ es)
    (hlast : ∀ f ∈ es, f = e ∨ f.2.modified.lt e.2.modified = true) : newest es = some e := by
  induction es with
  | nil => exact nomatch he
  | cons f es ih =>
    obtain ⟨hf, hes⟩ := List.forall_mem_cons.1 hlast
    rw [newest]
    by_cases hmem : e ∈ es
    · rw [ih hmem hes]
      simp only
      rcases hf with rfl | hlt
      · split <;> rfl
      · rw [notAfter, hlt]
        rfl
    · obtain rfl : e = f := (List.mem_cons.1 he).resolve_right hmem
      split
      · rfl
      · next g hg =>
        have hg := mem_of_newest hg
        rcases hes g hg with rfl | hlt
        · exact absurd hg hmem
        · rw [notAfter, Number.lt_asymm hlt, hlt]
          rfl

/-! ## Names of snapshots -/

theorem isSnapshotName_append (t : Text) :
    isSnapshotName ("retrodeck_v" ++ (t ++ ".json")) = true := by
  have hafter : Text.after? "retrodeck_v" ("retrodeck_v" ++ (t ++ ".json")) = some (t ++ ".json") :=
    Text.after?_eq_some.2 rfl
  rw [isSnapshotName, hafter]
  show Text.startsWith (t ++ ".json").reverse _ = true
  rw [Text.startsWith_iff, List.reverse_append]
  exact List.prefix_append _ _

theorem head_of_isSnapshotName {name : Text} (h : isSnapshotName name = true) :
    name.head? = some ('r' : CodePoint) := by
  unfold isSnapshotName at h
  split at h
  · next rest hafter =>
    rw [Text.after?_eq_some.1 hafter]
    rfl
  · exact nomatch h

theorem isName_of_isSnapshotName {name : Text} (h : isSnapshotName name = true)
    (hs : HostPath.separator ∉ name) : Path.isName name = true := by
  have hhead := head_of_isSnapshotName h
  refine Path.isName_iff.2 ⟨?_, hs, ?_, ?_⟩
  all_goals
    rintro rfl
    exact absurd hhead (by decide)

/-! ## Written and found again -/

/-- Whether all snapshots in the archive were modified before the time that the clock shows. -/
def Older (a : Archive) (h : Host) : Prop :=
  ∀ place, h.locate a.directory = .ok place → ∀ e ∈ h.children place,
    isSnapshotName e.1 = true → e.2.modified.lt h.clock = true

theorem older_made_iff {a : Archive} {h : Host} (hd : h.isDirectory? a.directory = .ok true) :
    a.Older (h.makeDirectories a.directory).1 ↔ a.Older h := by
  rw [Host.makeDirectories_of_isDirectory hd]

theorem mem_putEntry {place : List Text} {entry : HostEntry} {es : List (List Text × HostEntry)}
    {e : List Text × HostEntry} (h : e ∈ Host.putEntry place entry es) :
    e = (place, entry) ∨ e ∈ es := by
  induction es with
  | nil => exact .inl (List.mem_singleton.1 h)
  | cons f es ih =>
    obtain ⟨p, f⟩ := f
    rw [Host.putEntry] at h
    split at h
    · next hp => exact (List.mem_cons.1 h).imp (fun he => hp ▸ he) (List.mem_cons_of_mem _)
    · rcases List.mem_cons.1 h with rfl | h
      · exact .inr List.mem_cons_self
      · exact (ih h).imp_right (List.mem_cons_of_mem _)

theorem mem_putEntry_self (place : List Text) (entry : HostEntry)
    (es : List (List Text × HostEntry)) : (place, entry) ∈ Host.putEntry place entry es := by
  induction es with
  | nil => exact List.mem_singleton_self _
  | cons f es ih =>
    obtain ⟨p, f⟩ := f
    rw [Host.putEntry]
    split
    · next hp => exact hp ▸ List.mem_cons_self
    · exact List.mem_cons_of_mem _ ih

theorem mem_children_iff {h : Host} {directory : List Text} {name : Text} {entry : HostEntry} :
    (name, entry) ∈ h.children directory ↔ (directory ++ [name], entry) ∈ h.entries := by
  unfold Host.children
  rw [List.mem_filterMap]
  constructor
  · rintro ⟨⟨p, found⟩, hp, he⟩
    simp only at he
    split at he
    · next last hlast =>
      split at he
      · next hdirectory =>
        obtain ⟨rfl, rfl⟩ := Prod.mk.inj (Option.some.inj he)
        obtain ⟨init, rfl⟩ := List.getLast?_eq_some_iff.1 hlast
        rw [List.dropLast_concat] at hdirectory
        exact hdirectory ▸ hp
      · exact nomatch he
    · exact nomatch he
  · intro h
    refine ⟨_, h, ?_⟩
    simp

theorem mem_children_put {h : Host} {directory : List Text} {name : Text} {entry : HostEntry} :
    (name, entry) ∈ (h.put (directory ++ [name]) entry).children directory ∧
      ∀ e ∈ (h.put (directory ++ [name]) entry).children directory,
        e = (name, entry) ∨ e ∈ h.children directory := by
  refine ⟨mem_children_iff.2 (mem_putEntry_self ..), fun e he => ?_⟩
  obtain ⟨other, found⟩ := e
  rcases mem_putEntry (mem_children_iff.1 he) with heq | hmem
  · obtain ⟨hplace, rfl⟩ := Prod.mk.inj heq
    have hname : other = name := by simpa using hplace
    exact .inl (hname ▸ rfl)
  · exact .inr (mem_children_iff.2 hmem)

theorem write_cases {a : Archive} {h k : Host} {bytes : Bytes} {filename : Text} {path : HostPath}
    (hw : a.write h bytes filename = (k, .ok path)) :
    path = a.pathOf filename ∧ (h.makeDirectories a.directory).1.writeBytes path bytes = .ok k := by
  unfold write at hw
  split at hw
  · exact nomatch (Prod.mk.inj hw).2
  · next made hmade =>
    rw [hmade]
    simp only at hw
    split at hw
    · exact nomatch (Prod.mk.inj hw).2
    · next written hwritten =>
      obtain ⟨rfl, hpath⟩ := Prod.mk.inj hw
      obtain rfl := Except.ok.inj hpath
      exact ⟨rfl, hwritten⟩

theorem readBytes_of_write {a : Archive} {h k : Host} {bytes : Bytes} {filename : Text}
    {path : HostPath} (hw : a.write h bytes filename = (k, .ok path)) :
    k.readBytes (a.pathOf filename) = .ok bytes := by
  obtain ⟨rfl, hwritten⟩ := write_cases hw
  obtain ⟨place, mode, hl, hfree, rfl⟩ := Host.writeBytes_cases hwritten
  exact (Host.readBytes_of_put hl hfree bytes _ mode).2

theorem pathOf_of_isName (a : Archive) {filename : Text} (hn : Path.isName filename = true) :
    a.pathOf filename = ⟨a.directory.anchor, a.directory.parts ++ [filename]⟩ := by
  obtain ⟨hne, hs, hdot, -⟩ := Path.isName_iff.1 hn
  have hparse := HostPath.ofText_of_not_mem hne hdot hs
  have hname : (HostPath.ofText filename).name = filename := by rw [hparse]; rfl
  rw [pathOf, hname]
  show HostPath.append a.directory (HostPath.ofText filename) = _
  rw [hparse]
  rfl

/-- An entry that is put in the directory of an archive is the latest, if it is newer than the others. -/
theorem latest_put {a : Archive} {h : Host} {directory : List Text} {filename : Text}
    {entry : HostEntry} (hname : isSnapshotName filename = true)
    (hl : h.locate a.directory = .ok directory) (hdirectory : h.isDirectoryAt directory = true)
    (hfree : h.isDirectoryAt (directory ++ [filename]) = false)
    (hnewer : ∀ e ∈ h.children directory, isSnapshotName e.1 = true →
      e.2.modified.lt entry.modified = true) :
    a.latest (h.put (directory ++ [filename]) entry) =
      .ok (some ⟨a.directory.anchor, a.directory.parts ++ [filename]⟩) := by
  have hlocate := Host.locate_put hfree entry hl
  have hne : directory ≠ directory ++ [filename] := by simp
  obtain ⟨modified, hfound⟩ := Host.isDirectoryAt_iff.1 hdirectory
  rw [← Host.find?_put_of_ne h hne entry] at hfound
  have hthere : (h.put (directory ++ [filename]) entry).isDirectory? a.directory = .ok true := by
    rw [Host.isDirectory?, Host.lookup]
    simp only [hlocate, hfound]
    rfl
  obtain ⟨hself, hothers⟩ := @mem_children_put h directory filename entry
  have hnewest : newest (((h.put (directory ++ [filename]) entry).children directory).filter
      fun e => isSnapshotName e.1) = some (filename, entry) := by
    refine newest_eq (List.mem_filter.2 ⟨hself, hname⟩) fun e he => ?_
    obtain ⟨he, hsnapshot⟩ := List.mem_filter.1 he
    exact (hothers e he).imp_right fun hmem => hnewer e hmem hsnapshot
  rw [latest, hthere]
  simp only [hlocate, hnewest]
  rfl

theorem latest_of_write {a : Archive} (ha : a.directory.Expanded) {h k : Host} {bytes : Bytes}
    {filename : Text} {path : HostPath} (hname : isSnapshotName filename = true)
    (hsep : HostPath.separator ∉ filename) (holder : a.Older (h.makeDirectories a.directory).1)
    (hw : a.write h bytes filename = (k, .ok path)) :
    a.latest k = .ok (some path) ∧ a.read k path.toText = .ok bytes ∧
      (HostPath.ofText path.toText).name = filename ∧ Host.nameSize filename ≤ Host.nameLimit := by
  obtain ⟨rfl, hwritten⟩ := write_cases hw
  have hisName := isName_of_isSnapshotName hname hsep
  have hup : filename ≠ ".." := (Path.isName_iff.1 hisName).2.2.2
  have htilde : filename.head? ≠ some '~' := by
    rw [head_of_isSnapshotName hname]
    decide
  rw [pathOf_of_isName a hisName] at hwritten ⊢
  have hexpanded := ha.child hisName htilde
  have hparse := HostPath.ofText_toText hexpanded.anchor hexpanded.plain (by simp)
  obtain ⟨place, mode, hl, hfree, rfl⟩ := Host.writeBytes_cases hwritten
  obtain ⟨directory, hld, hdirectory, hsize, rfl⟩ := Host.locate_append_singleton hup hl
  refine ⟨latest_put hname hld hdirectory hfree (holder directory hld), ?_, ?_, hsize⟩
  · obtain ⟨hexists, hread⟩ := Host.readBytes_of_put hl hfree bytes
      (h.makeDirectories a.directory).1.clock mode
    rw [read, resolve, hparse, Host.expandUser_of_expanded _ hexpanded]
    simp only [hexists, hread]
  · rw [hparse]
    simp [HostPath.name]

/-! ## What is kept -/

section

variable {a : Archive} {h k : Host} {bytes : Bytes} {filename : Text}

def placeFor (a : Archive) (h : Host) (filename : Text) : List Text :=
  h.placeOf a.directory ++ [filename]

theorem placeFor_inj {name : Text} (he : a.placeFor h filename = a.placeFor h name) :
    filename = name := by
  simpa [placeFor] using he

theorem placeFor_eq (a : Archive) (hw : k.workingDirectory = h.workingDirectory) (filename : Text) :
    a.placeFor k filename = a.placeFor h filename := by
  rw [placeFor, Host.placeOf, hw, placeFor, Host.placeOf]

theorem bytesAt?_placeFor (he : h.children (h.placeOf a.directory) = []) (filename : Text) :
    h.bytesAt? (a.placeFor h filename) = none := by
  rw [← Option.not_isSome_iff_eq_none]
  intro hsome
  obtain ⟨bytes, hb⟩ := Option.isSome_iff_exists.1 hsome
  obtain ⟨modified, mode, hf⟩ := Host.bytesAt?_eq_some.1 hb
  have hne : a.placeFor h filename ≠ [] := List.append_ne_nil_of_right_ne_nil _ nofun
  rw [Host.find?, if_neg hne] at hf
  obtain ⟨⟨place, entry⟩, hfound, rfl⟩ := Option.map_eq_some_iff.1 hf
  obtain rfl : place = a.placeFor h filename := by simpa using List.find?_some hfound
  have hmem := mem_children_iff.2 (List.mem_of_find?_eq_some hfound)
  exact List.not_mem_nil (he ▸ hmem)

theorem placeOf_pathOf (a : Archive) (h : Host) (hn : Path.isName filename = true) :
    h.placeOf (a.pathOf filename) = a.placeFor h filename := by
  rw [pathOf_of_isName a hn]
  exact Host.placeOf_append_singleton h _ _ (Path.isName_iff.1 hn).2.2.2

theorem keeps_of_write_error {fault : Host.Fault} (hw : a.write h bytes filename = (k, .error fault)) :
    Host.Keeps ∅ h k := by
  have hmade := Host.keeps_makeDirectories h a.directory
  unfold write at hw
  split at hw
  · next hm =>
    rw [hm] at hmade
    exact (Prod.mk.inj hw).1 ▸ hmade
  · next hm =>
    rw [hm] at hmade
    simp only at hw
    split at hw
    · exact (Prod.mk.inj hw).1 ▸ hmade
    · exact nomatch (Prod.mk.inj hw).2

theorem keeps_of_write {path : HostPath} (hn : Path.isName filename = true)
    (hw : a.write h bytes filename = (k, .ok path)) :
    Host.Keeps {a.placeFor h filename} h k ∧ k.bytesAt? (a.placeFor h filename) = some bytes ∧
      k.locate (a.pathOf filename) = .ok (a.placeFor h filename) ∧
      h.isDirectoryAt (a.placeFor h filename) = false := by
  obtain ⟨rfl, hwrite⟩ := write_cases hw
  have hmade := Host.keeps_makeDirectories h a.directory
  obtain ⟨hkeeps, hbytes, hlocate, hdirectory⟩ := Host.keeps_writeBytes hwrite
  have hplace := (hmade.placeOf (a.pathOf filename)).trans (placeOf_pathOf a h hn)
  rw [hplace] at hkeeps hbytes hlocate hdirectory
  refine ⟨(hmade.weaken _).trans hkeeps, hbytes, hkeeps.locate hlocate, ?_⟩
  rw [← Bool.not_eq_true] at hdirectory ⊢
  exact mt (hmade.directories _) hdirectory

end

end Archive

end ThreatDesk
