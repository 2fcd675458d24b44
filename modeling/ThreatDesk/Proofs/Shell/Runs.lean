import ThreatDesk.Proofs.Host.Named
import ThreatDesk.Proofs.Shell.Floor
import ThreatDesk.Proofs.Snapshot.WellFormed
import ThreatDesk.Proofs.Tree.Store

/-!
# The tree stays well-formed

Over every run: any lines, any engine, any snapshots. What one step preserves is shown for commands side
by side, and lines that are seen through one after the other are runs of that kind (`reaches_executeAt`).
-/

namespace ThreatDesk

/-- A desk whose files are found by paths and names as the system has them, and whose tree is
well-formed. -/
structure Desk.Sound (d : Desk) : Prop where
  archive : d.site.archive.directory.Plain
  keys : d.site.keys.path.Plain
  host : d.host.Named
  tree : d.session.tree.WellFormed

theorem Session.new_eq_ok {ε : Type} {modules : Except ε (List Baseline.Module)}
    {now : Except ε Int} {version : Text} {drawn : Nat → Nat} {s : Session}
    (h : Session.new modules now version drawn = .ok s) :
    ∃ n, s = (withoutHistory (Baseline.merge Baseline.initialTree modules).1 version drawn).say n .system
      (bootText version) := by
  unfold Session.new at h
  split at h
  · next tree count hc =>
    obtain ⟨n, -, rfl⟩ := exists_of_map_ok h
    exact ⟨n, by rw [hc]⟩
  · exact absurd h (by simp)

namespace Shell

open Engine (Failure)
open Answer (Says)
open ThreatDesk.Tree (Apart)

/-! ## What an operation stores -/

theorem isName_ofAddress (url : Text) : Path.isName (PageName.ofAddress url) = true := by
  have hchars : ∀ c ∈ PageName.ofAddress url, c ≠ Path.separator := by
    intro c hc
    rcases List.mem_append.1 hc with hc | hc
    · obtain ⟨d, -, rfl⟩ := List.mem_map.1 (List.mem_of_mem_take hc)
      split
      · next hd =>
        rintro rfl
        exact absurd hd (by decide)
      · decide
    · have hmd : ∀ c ∈ ((".md" : String) : Text), c ≠ Path.separator := by decide
      exact hmd c hc
  have hlen : 3 ≤ (PageName.ofAddress url).length := by
    rw [PageName.ofAddress, List.length_append]
    exact Nat.le_add_left 3 _
  refine Path.isName_iff.2 ⟨?_, fun h => hchars _ h rfl, ?_, ?_⟩
  all_goals
    intro h
    rw [h] at hlen
    exact absurd hlen (by decide)

theorem apart_of_depth {paths : List Text}
    (h : ∀ p ∈ paths, ∃ directory name, Path.isName directory = true ∧ Path.isName name = true ∧
      p = Path.join (Path.ofSegments [directory]) name) : Apart paths := by
  refine Apart.of_length (n := 1) ?_ ?_
  · intro p hp
    obtain ⟨directory, name, hd, hn, rfl⟩ := h p hp
    exact Path.isFile_join (List.forall_mem_singleton.2 hd) hn
  · intro p hp
    obtain ⟨directory, name, hd, hn, rfl⟩ := h p hp
    rw [Path.segments_join _ hn, Path.segments_ofSegments (List.forall_mem_singleton.2 hd)]
    rfl

theorem apart_analysis : Apart [Place.analysis, Place.architecture, Place.countermeasure] where
  files := by
    refine List.forall_mem_cons.2 ⟨?_, List.forall_mem_cons.2 ⟨?_, List.forall_mem_singleton.2 ?_⟩⟩
    · exact ⟨["docs"], "agent_hopper_analysis.md", by decide, rfl⟩
    · exact ⟨["docs", "specs"], "defense_architecture.md", by decide, rfl⟩
    · exact ⟨[], "agent_killer.py", by decide, rfl⟩
  ways := by decide

theorem apart_of_stored {clock : Number} {s : Stage} {answer : s.request.Answer}
    {entries : List (Text × Text)} (h : stored clock s answer = .ok entries) :
    Apart (entries.map Prod.fst) := by
  cases s with
  | countermeasure g document architecture =>
    obtain rfl := Except.ok.inj h
    exact apart_analysis
  | research existing context =>
    obtain rfl := Except.ok.inj h
    refine apart_of_depth (List.forall_mem_cons.2 ⟨?_, ?_⟩)
    · exact ⟨"docs", "deep_dive_intel.md", by decide, by decide, rfl⟩
    · intro p hp
      obtain ⟨e, he, rfl⟩ := List.mem_map.1 hp
      obtain ⟨x, hx, rfl⟩ := List.mem_map.1 he
      exact ⟨"exploits", x.name, by decide, (List.mem_filter.1 hx).2, rfl⟩
  | browse url =>
    simp only [stored] at h
    split at h
    · exact absurd h (by simp)
    · obtain rfl := Except.ok.inj h
      refine apart_of_depth (List.forall_mem_singleton.2 ?_)
      exact ⟨"browse", PageName.ofAddress url, by decide, isName_ofAddress url, rfl⟩
  | document | architecture | scan | chat =>
    obtain rfl := Except.ok.inj h
    exact ⟨by simp, by simp⟩

theorem wellFormed_of_stored {clock : Number} {s : Stage} {answer : s.request.Answer}
    {entries : List (Text × Text)} (h : stored clock s answer = .ok entries) {t u : Tree}
    (ht : t.WellFormed) (hs : t.storeAll entries = .ok u) : u.WellFormed := by
  have hfiles := (apart_of_stored h).files
  exact Tree.wellFormed_storeAll ht
    (fun e he => (hfiles e.1 (List.mem_map_of_mem he)).isName_split) hs

theorem wellFormed_run {t : Tree} (h : t.WellFormed) (call : ToolCall) :
    (call.run t).1.WellFormed := by
  unfold ToolCall.run
  split
  · exact h
  · split
    · exact h
    · next tool ht =>
      unfold TreeTool.call
      split
      · exact h
      · exact h
      · next fields hf =>
        cases tool with
        | list => exact h
        | read => exact h
        | write => exact Tree.wellFormed_write h _ _

theorem wellFormed_runCalls {t : Tree} (h : t.WellFormed) (calls : List ToolCall) :
    (Exchange.runCalls t calls).1.WellFormed := by
  induction calls generalizing t with
  | nil => exact h
  | cons call calls ih =>
    have hrun := wellFormed_run h call
    rw [Exchange.runCalls]
    split
    · next u fault hu =>
      rw [hu] at hrun
      exact hrun
    · next u result hu =>
      rw [hu] at hrun
      exact ih hrun

/-! ## One step -/

theorem sound_of_saying {a b : Answer} (h : a.Says b) (ha : a.desk.Sound) : b.desk.Sound where
  archive := by rw [h.site]; exact ha.archive
  keys := by rw [h.site]; exact ha.keys
  host := by rw [h.host]; exact ha.host
  tree := by
    have ht : b.desk.session.tree = a.desk.session.tree := h.tree
    rw [ht]
    exact ha.tree

theorem sound_of_edit {a b : Answer} (h : Edit a b) (ha : a.desk.Sound) : b.desk.Sound := by
  obtain ⟨harchive, hkeys, hhost, htree⟩ := ha
  cases h with
  | said h => exact sound_of_saying h ⟨harchive, hkeys, hhost, htree⟩
  | moved cwd hc h => exact sound_of_saying h ⟨harchive, hkeys, hhost, htree⟩
  | opened path f hf h => exact sound_of_saying h ⟨harchive, hkeys, hhost, htree⟩
  | made name hn h =>
    exact sound_of_saying h ⟨harchive, hkeys, hhost, Tree.wellFormed_makeDirectory htree _ hn⟩
  | wrote path content h =>
    exact sound_of_saying h ⟨harchive, hkeys, hhost, Tree.wellFormed_write htree path content⟩
  | keyed key h =>
    exact sound_of_saying h ⟨harchive, hkeys, KeyStore.named_set hkeys hhost key, htree⟩
  | exported e he version hv h =>
    exact sound_of_saying h
      ⟨harchive, hkeys, Archive.named_write harchive hhost e.bytes e.filename, htree⟩

theorem sound_of_effect {a b : Answer} (h : Effect a b) (ha : a.desk.Sound) : b.desk.Sound := by
  cases h with
  | edited h => exact sound_of_edit h ha
  | cleared h => exact sound_of_saying h ⟨ha.archive, ha.keys, ha.host, ha.tree⟩
  | loaded name snapshot d report hb hs hr h =>
    obtain ⟨bytes, hbytes⟩ := readSnapshot_eq_ok hs
    obtain ⟨tree, added, hreconcile, rfl⟩ := restore_eq_ok hr
    have hmodules : ∀ ms, a.desk.modules = .ok ms → ∀ m ∈ ms, m.Named :=
      fun ms hm => Baseline.named_read ha.host hm
    have htree : tree.WellFormed :=
      Baseline.wellFormed_reconcile (Snapshot.wellFormed_ofBytes hbytes) hmodules hreconcile
    exact sound_of_saying h ⟨ha.archive, ha.keys, ha.host, htree⟩

theorem sound_begin {d : Desk} (hd : d.Sound) (now : Int) (raw : Text) :
    (begin d now raw).1.desk.Sound := by
  have hb := begin_cases d now raw
  have he : (echo d now raw).desk.Sound :=
    sound_of_saying (Says.say (d.silent now) .input raw) hd
  generalize begin d now raw = r at hb
  cases hb with
  | done h => exact sound_of_effect h he
  | begun op hidle =>
    obtain ⟨state, hs, h⟩ := start_cases (echo d now raw) op
    exact sound_of_saying h ⟨he.archive, he.keys, he.host, he.tree⟩

theorem sound_abort {a : Answer} (ha : a.desk.Sound) (label : Text) (failure : Failure) :
    (abort a label failure).desk.Sound := by
  obtain ⟨harchive, hkeys, hhost, htree⟩ := ha
  cases failure <;> exact ⟨harchive, hkeys, hhost, htree⟩

theorem sound_resume {a : Answer} (ha : a.desk.Sound) (s : Stage)
    (reply : Except Failure s.request.Answer) : (resume a s reply).1.desk.Sound := by
  have hr := resume_cases a s reply
  generalize resume a s reply = r at hr
  obtain ⟨harchive, hkeys, hhost, htree⟩ := ha
  cases hr with
  | failed hf hb => exact sound_abort (sound_of_saying hb ⟨harchive, hkeys, hhost, htree⟩) ..
  | stored he hs hf hb =>
    have hsound := sound_of_saying hb
      ⟨harchive, hkeys, hhost, wellFormed_of_stored he htree hs⟩
    exact ⟨hsound.archive, hsound.keys, hsound.host, hsound.tree⟩
  | advanced hf hs hb => exact sound_of_saying hb ⟨harchive, hkeys, hhost, htree⟩
  | toolFailed hf =>
    exact sound_abort (a := exchanged a _ _)
      ⟨harchive, hkeys, hhost, wellFormed_runCalls htree _⟩ ..
  | again hf => exact ⟨harchive, hkeys, hhost, wellFormed_runCalls htree _⟩
  | answered hf hb =>
    have hsound := sound_of_saying hb ⟨harchive, hkeys, hhost, wellFormed_runCalls htree _⟩
    exact ⟨hsound.archive, hsound.keys, hsound.host, hsound.tree⟩

namespace Floor

theorem desk_settle (before after : List Pending) (r : Answer × Option Stage) :
    (settle before after r).desk = r.1.desk := by
  obtain ⟨a, s⟩ := r
  cases s <;> rfl

theorem Step.sound {f g : Floor} (h : Step Host.Named f g) (hf : f.desk.Sound) :
    g.desk.Sound := by
  obtain ⟨harchive, hkeys, hhost, htree⟩ := hf
  cases h with
  | host f hh => exact ⟨harchive, hkeys, hh, htree⟩
  | refused f => exact ⟨harchive, hkeys, hhost, htree⟩
  | line f now raw =>
    rw [desk_settle]
    exact sound_begin ⟨harchive, hkeys, hhost, htree⟩ now raw
  | progress text => exact ⟨harchive, hkeys, hhost, htree⟩
  | @signal d before after p signal =>
    rw [desk_settle]
    cases signal with
    | cancelled => exact ⟨harchive, hkeys, hhost, htree⟩
    | replied reply =>
      exact sound_resume (a := p.answer d) ⟨harchive, hkeys, hhost, htree⟩ p.stage reply

theorem Reaches.sound {f g : Floor} (h : Reaches Host.Named f g) (hf : f.desk.Sound) :
    g.desk.Sound := by
  induction h with
  | refl => exact hf
  | tail _ hs ih => exact hs.sound ih

end Floor

/-! ## Lines seen through one after the other -/

open Floor (Reaches Step)

def waiting (a : Answer) (s : Stage) : Floor := ⟨a.desk, [⟨a.now, a.said, s⟩]⟩

variable {hosts : Host → Prop}

theorem reaches_meanwhile (s : Stage) (interludes : List Interlude) {a : Answer}
    (ha : a.session.isBusy = true) (asides : List Answer) :
    Reaches hosts (waiting a s) (waiting (meanwhile a asides interludes).1 s) ∧
      (meanwhile a asides interludes).1.session.isBusy = true := by
  induction interludes generalizing a asides with
  | nil => exact ⟨.refl, ha⟩
  | cons interlude rest ih =>
    cases interlude with
    | progress text =>
      obtain ⟨hr, hb⟩ := ih (a := a.system text) ha asides
      have hstep := @Step.progress hosts a.desk [] [] ⟨a.now, a.said, s⟩ text
      exact ⟨.head hstep hr, hb⟩
    | line raw =>
      have hnone := begin_of_isBusy ha a.now raw
      have hpair : begin a.desk a.now raw = ((begin a.desk a.now raw).1, none) := Prod.ext rfl hnone
      have hstep := @Step.line hosts (waiting a s) a.now raw
      rw [show begin (waiting a s).desk a.now raw = _ from hpair] at hstep
      obtain ⟨hr, hb⟩ := ih (a := { a with desk := (begin a.desk a.now raw).1.desk })
        (Floor.isBusy_begin ha a.now raw) (asides ++ [(begin a.desk a.now raw).1])
      exact ⟨.head hstep hr, hb⟩

/-- One stage of an operation, and what is left of it. -/
theorem drive_stage {σ : Type} (engine : Engine σ) (state : σ) (a : Answer) (asides : List Answer)
    (s : Stage) :
    drive engine state a asides s =
      let attended := engine.attend state a.desk.host s.request
      let m := meanwhile a asides attended.interludes
      match resume m.1 s attended.reply with
      | (b, none) => ⟨attended.state, b, m.2⟩
      | (b, some t) => drive engine attended.state b m.2 t := by
  rw [drive]
  simp only
  split
  · next hb => rw [hb]
  · next hb => rw [hb]

theorem reaches_drive {σ : Type} (engine : Engine σ) (state : σ) {a : Answer}
    (ha : a.session.isBusy = true) (asides : List Answer) (s : Stage) :
    Reaches hosts (waiting a s) ⟨(drive engine state a asides s).answer.desk, []⟩ := by
  have hm := @reaches_meanwhile hosts s (engine.attend state a.desk.host s.request).interludes a ha
    asides
  rw [drive_stage]
  simp only
  generalize meanwhile a asides (engine.attend state a.desk.host s.request).interludes = r at hm
  obtain ⟨b, asides'⟩ := r
  obtain ⟨hr, hbusy⟩ := hm
  have hstep := @Step.signal hosts b.desk [] [] ⟨b.now, b.said, s⟩
    (.replied (engine.attend state a.desk.host s.request).reply)
  simp only
  split
  · next c hc =>
    have hc : continued ((⟨b.now, b.said, s⟩ : Pending).answer b.desk) s
        (.replied (engine.attend state a.desk.host s.request).reply) = (c, none) := hc
    rw [hc] at hstep
    exact hr.tail hstep
  · next c t hc =>
    have hlt : t.rank < s.rank := rank_resume (congrArg Prod.snd hc)
    have hresumed := resume_cases b s (engine.attend state a.desk.host s.request).reply
    rw [hc] at hresumed
    have hcbusy := (hresumed.advances hbusy).1
    have hc : continued ((⟨b.now, b.said, s⟩ : Pending).answer b.desk) s
        (.replied (engine.attend state a.desk.host s.request).reply) = (c, some t) := hc
    rw [hc] at hstep
    exact (hr.tail hstep).trans (reaches_drive engine _ hcbusy asides' t)
termination_by s.rank

/-- A line that is seen through is a run that leaves nothing pending. -/
theorem reaches_executeAt {σ : Type} (engine : Engine σ) (state : σ) (d : Desk) (now : Int)
    (raw : Text) :
    Reaches hosts ⟨d, []⟩ ⟨(executeAt engine state d now raw).answer.desk, []⟩ := by
  have hstep := @Step.line hosts ⟨d, []⟩ now raw
  have hbegun := begin_cases d now raw
  unfold executeAt
  split
  · next a ha =>
    rw [show begin (Floor.mk d []).desk now raw = (a, none) from ha] at hstep
    exact .single hstep
  · next a s ha =>
    rw [show begin (Floor.mk d []).desk now raw = (a, some s) from ha] at hstep
    rw [ha] at hbegun
    cases hbegun with
    | begun op hidle =>
      exact .head hstep (reaches_drive engine state (Floor.isBusy_start ..) [] _)

/-- What becomes of a desk: lines are taken in one after the other, each with an engine of its own
and lines entered while that works, and in between the host turns into another one. -/
inductive Becomes : Desk → Desk → Prop
  | refl (d : Desk) : Becomes d d
  | host {d e : Desk} (h : Becomes d e) {host : Host} (hh : host.Named) :
    Becomes d { e with host := host }
  | line {d e : Desk} (h : Becomes d e) {σ : Type} (engine : Engine σ) (state : σ) (raw : Text)
    {outcome : Outcome σ} (ho : execute engine state e raw = .ok outcome) :
    Becomes d outcome.answer.desk
  | refused {d e : Desk} (h : Becomes d e) {σ : Type} (engine : Engine σ) (state : σ) (raw : Text)
    {refusal : Refusal} (hr : execute engine state e raw = .error refusal) :
    Becomes d refusal.desk

theorem Becomes.reaches {d e : Desk} (h : Becomes d e) : Reaches Host.Named ⟨d, []⟩ ⟨e, []⟩ := by
  induction h with
  | refl => exact .refl
  | host h hh ih => exact ih.tail (.host ⟨_, []⟩ hh)
  | @line e h σ engine state raw outcome ho ih =>
    unfold execute at ho
    split at ho
    · exact absurd ho (by simp)
    · obtain rfl := Except.ok.inj ho
      exact ih.trans (reaches_executeAt ..)
  | @refused e h σ engine state raw refusal hr ih =>
    unfold execute at hr
    split at hr
    · obtain rfl := Except.error.inj hr
      exact ih.tail (.refused ⟨e, []⟩)
    · exact absurd hr (by simp)

theorem wellFormed_new {ε : Type} {modules : Except ε (List Baseline.Module)}
    (hm : ∀ ms, modules = .ok ms → ∀ m ∈ ms, m.Named) {now : Except ε Int} {version : Text}
    {drawn : Nat → Nat} {s : Session} (h : Session.new modules now version drawn = .ok s) :
    s.tree.WellFormed := by
  obtain ⟨n, rfl⟩ := Session.new_eq_ok h
  exact Baseline.wellFormed_merge Baseline.wellFormed_initialTree hm

/-- Whatever lines a shell takes in and whatever its engine does, its tree stays well-formed. -/
theorem wellFormed_of_becomes {d e : Desk} (hd : d.Sound) (h : Becomes d e) :
    e.session.tree.WellFormed :=
  (h.reaches.sound hd).tree

theorem wellFormed_of_becomes_new :
    let modules : Except Host.Fault (List Baseline.Module) := .ok [⟨["core"], "a.py", "pass"⟩]
    let engine : Engine Unit :=
      ⟨fun state _ _ => ⟨state, [.line "mkdir b"], .error .missingCredential⟩⟩
    ∃ s o, Session.new modules (.ok 0) "1.1.0" = .ok s ∧
      execute engine () (Desk.bare s) "analyze" = .ok o ∧
      o.answer.desk.session.tree.WellFormed := by
  intro modules engine
  obtain ⟨s, hs⟩ : ∃ s, Session.new modules (.ok 0) "1.1.0" = .ok s := ⟨_, rfl⟩
  have hnamed : ∀ ms, modules = .ok ms → ∀ m ∈ ms, m.Named := by
    intro ms hms
    obtain rfl := Except.ok.inj hms
    exact List.forall_mem_singleton.2 ⟨List.forall_mem_singleton.2 (by decide), by decide⟩
  have hsound : (Desk.bare s).Sound :=
    ⟨HostPath.plain_ofText _, HostPath.plain_ofText _, ⟨by simp [Desk.bare], by simp [Desk.bare]⟩,
      wellFormed_new hnamed hs⟩
  have ho : execute engine () (Desk.bare s) "analyze" =
      .ok (executeAt engine () (Desk.bare s) 0 "analyze") := execute_eq_ok rfl engine () "analyze"
  exact ⟨s, _, hs, ho, wellFormed_of_becomes hsound (.line (.refl _) engine () "analyze" ho)⟩

end Shell

end ThreatDesk
