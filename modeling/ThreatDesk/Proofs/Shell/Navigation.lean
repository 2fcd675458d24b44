import ThreatDesk.Proofs.Shell.Keeping

/-!
# Where a session is

The working directory is one of the tree, the open file is found at its own path, and the tree has
something called `src` (`Session.Situated`). That holds of a new session, and every step keeps it: the
tree only grows, or a load sets everything anew. Main statement: `navigation_never_dangles`.
-/

namespace ThreatDesk

theorem Baseline.Completed.hasSource {modules : Except Host.Fault (List Module)} {t u : Tree}
    (h : Completed modules t u) : Baseline.hasSource u = true := by
  cases h with
  | kept hs => exact hs
  | added hs hm => exact hasSource_append_fresh t _

/-! ## Sessions -/

namespace Session

def bearings (s : Session) : Text × Option File := (s.cwd, s.activeFile)

/-- What a session goes by in its tree is there. -/
structure Situated (s : Session) : Prop where
  absolute : s.cwd.head? = some Path.separator
  inside : (s.tree.directory? s.cwd).isSome = true
  opened : ∀ f, s.activeFile = some f → ∃ g, s.tree.file? f.path = some g ∧ g.name = f.name
  source : Baseline.hasSource s.tree = true

theorem Situated.of_keeps {s r : Session} (h : s.Situated) (hk : s.tree.Keeps r.tree)
    (hb : r.bearings = s.bearings) : r.Situated := by
  obtain ⟨hcwd, hfile⟩ := Prod.mk.inj hb
  refine ⟨by rw [hcwd]; exact h.absolute, ?_, ?_, hk.hasSource h.source⟩
  · obtain ⟨c, hc⟩ := Option.isSome_iff_exists.1 h.inside
    obtain ⟨e, he, -⟩ := hk.directories s.cwd c hc
    rw [hcwd, he]
    rfl
  · intro f hf
    obtain ⟨g, hg, hname⟩ := h.opened f (hfile ▸ hf)
    obtain ⟨k, hk, hsame⟩ := hk.file? hg
    exact ⟨k, hk, hsame.trans hname⟩

theorem situated_new {ε : Type} {modules : Except ε (List Baseline.Module)} {now : Except ε Int}
    {version : Text} {drawn : Nat → Nat} {s : Session}
    (h : Session.new modules now version drawn = .ok s) : s.Situated := by
  obtain ⟨n, rfl⟩ := Session.new_eq_ok h
  exact ⟨rfl, rfl, by simp [Session.say, Session.withoutHistory], Baseline.hasSource_merge ..⟩

end Session

namespace Shell

open Engine (Failure)
open Answer (Says)

/-! ## One step -/

theorem bearings_of_saying {a b : Answer} (h : a.Says b) :
    b.session.bearings = a.session.bearings :=
  congrArg (fun d => d.session.bearings) h.desk

theorem situated_of_saying {a b : Answer} (h : a.Says b) (ha : a.session.Situated) :
    b.session.Situated := by
  refine ha.of_keeps ?_ (bearings_of_saying h)
  exact Tree.keeps_of_extends (grows_of_tree h.tree)

theorem situated_of_edit {a b : Answer} (h : Edit a b) (ht : a.session.tree.WellFormed)
    (ha : a.session.Situated) : b.session.Situated := by
  cases h with
  | said h => exact situated_of_saying h ha
  | moved cwd hc h =>
    refine situated_of_saying h ?_
    rcases hc with rfl | ⟨word, c, rfl, hc⟩
    · exact ⟨rfl, rfl, ha.opened, ha.source⟩
    · exact ⟨Path.absolute_resolve ha.absolute word, Option.isSome_iff_exists.2 ⟨c, hc⟩, ha.opened,
        ha.source⟩
  | opened path f hf h =>
    refine situated_of_saying h ⟨ha.absolute, ha.inside, ?_, ha.source⟩
    intro g hg
    obtain rfl := Option.some.inj hg
    exact ⟨f, Tree.file?_path ht hf, rfl⟩
  | made name hn h =>
    exact situated_of_saying h
      (ha.of_keeps (Tree.keeps_of_extends (Tree.grows_makeDirectory ..)) rfl)
  | wrote path content h =>
    exact situated_of_saying h (ha.of_keeps (Tree.keeps_of_extends (Tree.grows_write ..)) rfl)
  | keyed key h => exact situated_of_saying h ha
  | exported e he version hv h => exact situated_of_saying h ⟨ha.1, ha.2, ha.3, ha.4⟩

theorem situated_of_effect {a b : Answer} (h : Effect a b) (ht : a.session.tree.WellFormed)
    (ha : a.session.Situated) : b.session.Situated := by
  cases h with
  | edited h => exact situated_of_edit h ht ha
  | cleared h => exact situated_of_saying h ⟨ha.1, ha.2, ha.3, ha.4⟩
  | loaded name snapshot d report hb hs hr h =>
    refine situated_of_saying h ?_
    obtain ⟨tree, added, hreconcile, rfl⟩ := restore_eq_ok hr
    refine ⟨rfl, rfl, by simp [Answer.session], ?_⟩
    exact (Baseline.reconcile_eq_ok hreconcile).1.hasSource

theorem situated_begin {d : Desk} (ht : d.session.tree.WellFormed) (hd : d.session.Situated)
    (now : Int) (raw : Text) : (begin d now raw).1.session.Situated := by
  have hb := begin_cases d now raw
  have he : (echo d now raw).session.Situated :=
    situated_of_saying (Says.say (d.silent now) .input raw) hd
  generalize begin d now raw = r at hb
  cases hb with
  | done h => exact situated_of_effect h ht he
  | begun op hidle =>
    obtain ⟨state, hs, h⟩ := start_cases (echo d now raw) op
    exact situated_of_saying h ⟨he.1, he.2, he.3, he.4⟩

theorem bearings_abort (a : Answer) (label : Text) (failure : Failure) :
    (abort a label failure).session.bearings = a.session.bearings := by
  cases failure <;> rfl

theorem bearings_resume (a : Answer) (s : Stage) (reply : Except Failure s.request.Answer) :
    (resume a s reply).1.session.bearings = a.session.bearings := by
  have hr := resume_cases a s reply
  generalize resume a s reply = r at hr
  cases hr with
  | failed hf hb => exact (bearings_abort ..).trans (bearings_of_saying hb)
  | stored he hs hf hb => exact (bearings_of_saying hb :)
  | advanced hf hs hb => exact (bearings_of_saying hb :)
  | toolFailed hf => exact bearings_abort ..
  | again hf => rfl
  | answered hf hb => exact (bearings_of_saying hb :)

namespace Floor

theorem Step.situated {hosts : Host → Prop} {f g : Floor} (h : Step hosts f g)
    (ht : f.desk.session.tree.WellFormed) (hf : f.desk.session.Situated) :
    g.desk.session.Situated := by
  cases h with
  | host f hh => exact hf
  | refused f => exact ⟨hf.1, hf.2, hf.3, hf.4⟩
  | line f now raw =>
    rw [desk_settle]
    exact situated_begin ht hf now raw
  | progress text => exact situated_of_saying (Says.say _ .system text) hf
  | @signal d before after p signal =>
    rw [desk_settle]
    cases signal with
    | cancelled => exact ⟨hf.1, hf.2, hf.3, hf.4⟩
    | replied reply =>
      exact hf.of_keeps (Tree.keeps_of_extends (grows_resume (p.answer d) p.stage reply))
        (bearings_resume (p.answer d) p.stage reply)

theorem Reaches.situated {f g : Floor} (h : Reaches Host.Named f g) (hd : f.desk.Sound)
    (hf : f.desk.session.Situated) : g.desk.session.Situated := by
  induction h with
  | refl => exact hf
  | tail hr hs ih => exact hs.situated (Reaches.sound hr hd).tree ih

end Floor

/-! ## What goes by the working directory -/

theorem begin_list {d : Desk} (hd : d.session.Situated) (now : Int) {raw : Text}
    (hv : verb? raw = some .ls) (hargs : raw.words.tail = []) :
    ∃ c, d.session.tree.directory? d.session.cwd = some c ∧
      begin d now raw = ((echo d now raw).sayAll .output c.listing, none) := by
  obtain ⟨c, hc⟩ := Option.isSome_iff_exists.1 hd.inside
  refine ⟨c, hc, ?_⟩
  rw [begin_of_verb? hv, hargs]
  show (list (echo d now raw) [], none) = _
  have hecho : (echo d now raw).session.tree.directory? (echo d now raw).session.cwd = some c := hc
  rw [list, hecho]

def lostDirectory : Text := "mkdir: no such directory: "

theorem not_lostDirectory (label : Text) (hl : label.length ≤ lostDirectory.length)
    (hp : ¬ label <+: lostDirectory) (rest : Text) : ¬ lostDirectory <+: label ++ rest :=
  fun h => hp (List.prefix_of_prefix_length_le (List.prefix_append label rest) h hl)

theorem text_of_error {a : Answer} (ha : ∀ l ∈ a.said, l.kind ≠ .error) {kind : LineKind}
    {text : Text} {l : Line} (hl : l ∈ (a.say kind text).said) (hk : l.kind = .error) :
    kind = .error ∧ l.text = text := by
  rcases List.mem_append.1 hl with hl | hl
  · exact absurd hk (ha l hl)
  · obtain rfl := List.mem_singleton.1 hl
    exact ⟨hk, rfl⟩

/-- Where the working directory is there, making a directory is not turned away for want of it. -/
theorem makeDirectory_complaint {a : Answer} (ha : a.session.Situated)
    (hsaid : ∀ l ∈ a.said, l.kind ≠ .error) (args : List Text) :
    ∀ l ∈ (makeDirectory a args).said, l.kind = .error → ¬ lostDirectory <+: l.text := by
  obtain ⟨c, hc⟩ := Option.isSome_iff_exists.1 ha.inside
  intro l hl hk
  cases args with
  | nil =>
    rw [(text_of_error hsaid hl hk).2]
    exact not_lostDirectory "Usage: " (by decide) (by decide) _
  | cons name args =>
    rw [makeDirectory] at hl
    split at hl
    · rw [(text_of_error hsaid hl hk).2]
      exact not_lostDirectory "mkdir: invalid name: " (by decide) (by decide) _
    · rw [hc] at hl
      simp only at hl
      split at hl
      · rw [(text_of_error hsaid hl hk).2]
        exact not_lostDirectory "mkdir: exists: " (by decide) (by decide) _
      · cases (text_of_error (a := a.withTree _) hsaid hl hk).1

/-- From a new session on, whatever comes in whatever order: the working directory is written from the
root and is one of the tree, a file that is open is found at its path under its name, and the tree has
something called `src`. So listing the working directory is always answered with its listing, and
making a directory there never misses it. -/
theorem navigation_never_dangles {ε : Type} {modules : Except ε (List Baseline.Module)}
    (hm : ∀ ms, modules = .ok ms → ∀ m ∈ ms, m.Named) {now : Except ε Int} {version : Text}
    {drawn : Nat → Nat} {d : Desk} (hnew : Session.new modules now version drawn = .ok d.session)
    (harchive : d.site.archive.directory.Plain) (hkeys : d.site.keys.path.Plain)
    (hhost : d.host.Named) {f : Floor} (hf : Floor.Reaches Host.Named ⟨d, []⟩ f) :
    f.desk.session.Situated ∧
    (∀ now raw, verb? raw = some .ls → raw.words.tail = [] →
      ∃ c, f.desk.session.tree.directory? f.desk.session.cwd = some c ∧
        begin f.desk now raw = ((echo f.desk now raw).sayAll .output c.listing, none)) ∧
    (∀ now raw, verb? raw = some .mkdir → ∀ l ∈ (begin f.desk now raw).1.said,
      l.kind = .error → ¬ lostDirectory <+: l.text) := by
  have hd : d.Sound := ⟨harchive, hkeys, hhost, wellFormed_new hm hnew⟩
  have hs : f.desk.session.Situated := hf.situated hd (Session.situated_new hnew)
  refine ⟨hs, fun now raw hv hargs => begin_list hs now hv hargs, ?_⟩
  intro now raw hv
  rw [begin_of_verb? hv]
  have he : (echo f.desk now raw).session.Situated :=
    situated_of_saying (Says.say (f.desk.silent now) .input raw) hs
  have hsaid : ∀ l ∈ (echo f.desk now raw).said, l.kind ≠ .error :=
    List.forall_mem_singleton.2 (show LineKind.input ≠ .error by decide)
  exact makeDirectory_complaint he hsaid raw.words.tail

theorem navigation_never_dangles_opened :
    let modules : Except Host.Fault (List Baseline.Module) := .ok [⟨["core"], "a.py", "pass"⟩]
    ∃ s, Session.new modules (.ok 0) "1.1.0" = .ok s ∧
      let d := Desk.bare s
      let f := Floor.settle [] [] (begin d 0 "cd docs")
      let g := Floor.settle f.pending [] (begin f.desk 1 "cat ../readme.txt")
      Floor.Reaches Host.Named ⟨d, []⟩ g ∧ g.desk.session.cwd = "/docs" ∧
        g.desk.session.activeFile.map File.path = some "/readme.txt" ∧ g.desk.session.Situated := by
  intro modules
  have hm : ∀ ms, modules = .ok ms → ∀ m ∈ ms, m.Named := by
    intro ms hms
    obtain rfl := Except.ok.inj hms
    exact List.forall_mem_singleton.2 ⟨List.forall_mem_singleton.2 (by decide), by decide⟩
  refine ⟨_, rfl, ?_⟩
  intro d f g
  have hg : Floor.Reaches Host.Named ⟨d, []⟩ g :=
    .head (.line ⟨d, []⟩ 0 "cd docs") (.single (.line f 1 "cat ../readme.txt"))
  refine ⟨hg, by decide, by decide, ?_⟩
  have hnew : Session.new modules (.ok 0) "1.1.0" = .ok d.session := rfl
  have hhost : d.host.Named := ⟨by simp [d, Desk.bare], by simp [d, Desk.bare]⟩
  exact (navigation_never_dangles hm hnew (HostPath.plain_ofText _) (HostPath.plain_ofText _) hhost
    hg).1

end Shell

end ThreatDesk
