import ThreatDesk.Proofs.Host.Frame
import ThreatDesk.Proofs.Shell.Saving

/-!
# What a line stores

Only two verbs write to the host, and only a load or an export changes the version. Main statement: what a
line stores can be told from what it says (`stores_begin`).
-/

namespace ThreatDesk

namespace Shell

open Answer (Says)
open Engine (Failure)
open Host (Keeps)

/-! ## Undisturbed -/

/-- The second answer is given at the same site and host, and in the same version. -/
structure Undisturbed (a b : Answer) : Prop where
  site : b.desk.site = a.desk.site
  host : b.desk.host = a.desk.host
  version : b.session.version = a.session.version

theorem undisturbed_of_saying {a b : Answer} (h : a.Says b) : Undisturbed a b :=
  ⟨h.site, h.host, congrArg (fun d => d.session.version) h.desk⟩

theorem undisturbed_startUnlessBusy (a : Answer) (op : Operation) :
    Undisturbed a (startUnlessBusy a op).1 := by
  unfold startUnlessBusy
  split
  · exact undisturbed_of_saying (Says.say ..)
  · obtain ⟨state, -, h⟩ := start_cases a op
    have hstarted := undisturbed_of_saying h
    exact ⟨hstarted.site, hstarted.host, hstarted.version⟩

theorem undisturbed_changeDirectory (a : Answer) (args : List Text) :
    Undisturbed a (changeDirectory a args) := by
  unfold changeDirectory
  split
  · exact ⟨rfl, rfl, rfl⟩
  · simp only
    split <;> exact ⟨rfl, rfl, rfl⟩

theorem undisturbed_makeDirectory (a : Answer) (args : List Text) :
    Undisturbed a (makeDirectory a args) := by
  unfold makeDirectory
  split
  · exact ⟨rfl, rfl, rfl⟩
  · repeat' split
    all_goals exact ⟨rfl, rfl, rfl⟩

theorem undisturbed_read (a : Answer) (args : List Text) : Undisturbed a (read a args) := by
  unfold read
  split
  · exact ⟨rfl, rfl, rfl⟩
  · split <;> exact ⟨rfl, rfl, rfl⟩

theorem undisturbed_write (a : Answer) (raw : Text) (args : List Text) :
    Undisturbed a (write a raw args) := by
  unfold write
  split
  · exact ⟨rfl, rfl, rfl⟩
  · simp only
    split <;> exact ⟨rfl, rfl, rfl⟩

theorem undisturbed_perform {v : Verb} (hv : v ≠ .setkey ∧ v ≠ .exportSession ∧ v ≠ .load) (a : Answer)
    (args : List Text) (raw : Text) : Undisturbed a (perform a v args raw).1 := by
  cases v with
  | help => exact undisturbed_of_saying (Says.say ..)
  | about => exact undisturbed_of_saying (Says.say ..)
  | version => exact undisturbed_of_saying (says_version a)
  | clear => exact ⟨rfl, rfl, rfl⟩
  | ls => exact undisturbed_of_saying (says_list a args)
  | cd => exact undisturbed_changeDirectory a args
  | mkdir => exact undisturbed_makeDirectory a args
  | cat => exact undisturbed_read a args
  | write => exact undisturbed_write a raw args
  | find => exact undisturbed_of_saying (says_find a args)
  | status => exact undisturbed_of_saying (says_status a)
  | setkey => exact absurd rfl hv.1
  | run => exact undisturbed_of_saying (says_run a args)
  | analyze => exact undisturbed_startUnlessBusy a .analyze
  | research => exact undisturbed_startUnlessBusy a .research
  | scan => exact undisturbed_startUnlessBusy a .scan
  | browse =>
    cases args with
    | nil => exact undisturbed_of_saying (Says.say ..)
    | cons url args => exact undisturbed_startUnlessBusy a (.browse url)
  | ask =>
    cases args with
    | nil => exact undisturbed_of_saying (Says.say ..)
    | cons word args => exact undisturbed_startUnlessBusy a (.ask (raw.argument 1))
  | exportSession => exact absurd rfl hv.2.1
  | load => exact absurd rfl hv.2.2

theorem undisturbed_abort (a : Answer) (label : Text) (failure : Failure) :
    Undisturbed a (abort a label failure) := by
  cases failure <;> exact ⟨rfl, rfl, rfl⟩

theorem Undisturbed.trans {a b c : Answer} (h : Undisturbed a b) (k : Undisturbed b c) :
    Undisturbed a c :=
  ⟨k.site.trans h.site, k.host.trans h.host, k.version.trans h.version⟩

theorem undisturbed_continued (a : Answer) (s : Stage) (signal : Signal s) :
    Undisturbed a (continued a s signal).1 := by
  cases signal with
  | cancelled => exact ⟨rfl, rfl, rfl⟩
  | replied reply =>
    have hr := resume_cases a s reply
    show Undisturbed a (resume a s reply).1
    generalize resume a s reply = r at hr
    cases hr with
    | failed hf hb => exact (undisturbed_of_saying hb).trans (undisturbed_abort ..)
    | @stored _ b _ _ tree he hs hf hb =>
      have hsaid := undisturbed_of_saying hb
      exact ⟨hsaid.site, hsaid.host, hsaid.version⟩
    | advanced hf hs hb =>
      have hsaid := undisturbed_of_saying hb
      exact ⟨hsaid.site, hsaid.host, hsaid.version⟩
    | @toolFailed e reply fault hf =>
      have hexchanged : Undisturbed a (exchanged a e reply) := ⟨rfl, rfl, rfl⟩
      exact hexchanged.trans (undisturbed_abort _ (Stage.chat e).label (.fault fault))
    | again hf => exact ⟨rfl, rfl, rfl⟩
    | answered hf hb =>
      have hsaid := undisturbed_of_saying hb
      exact ⟨hsaid.site, hsaid.host, hsaid.version⟩

/-! ## What is stored -/

/-- What a line may have done to the archive: a snapshot was saved at that time, or one was loaded. -/
inductive Event
  | saved (now : Int) (x : Export)
  | loaded

def event? (d : Desk) (now : Int) (raw : Text) : Option Event :=
  let said := (begin d now raw).1.said
  match verb? raw with
  | some .exportSession =>
    if said.any (·.kind = .success) then
      (Export.ofDesk (echo d now raw).desk now).toOption.map (.saved now)
    else none
  | some .load => if said.any (·.kind = .error) then none else some .loaded
  | _ => none

/-- What a line that says so has stored. -/
inductive Stores (a b : Answer) : Option Event → Prop
  | nothing (hs : b.desk.site = a.desk.site) (hv : b.session.version = a.session.version)
    (hh : Keeps ∅ a.desk.host b.desk.host) : Stores a b none
  | keyed (key : Text) (hs : b.desk.site = a.desk.site)
    (hv : b.session.version = a.session.version)
    (hh : b.desk.host = (a.desk.site.keys.set a.desk.host key).1) : Stores a b none
  | saved {e : Export} (he : Export.ofDesk a.desk a.now = .ok e)
    (hw : a.desk.site.archive.write a.desk.host e.bytes e.filename =
      (b.desk.host, .ok (a.desk.site.archive.pathOf e.filename)))
    (hs : b.desk.site = a.desk.site) (hv : b.session.version = e.version) :
    Stores a b (some (.saved a.now e))
  | loaded (hs : b.desk.site = a.desk.site) (hh : b.desk.host = a.desk.host) :
    Stores a b (some .loaded)

theorem Undisturbed.stores {a b : Answer} (h : Undisturbed a b) : Stores a b none :=
  .nothing h.site h.version (h.host ▸ Keeps.refl ∅ a.desk.host)

theorem stores_setKey (a : Answer) (args : List Text) : Stores a (setKey a args) none := by
  cases args with
  | nil => exact (undisturbed_of_saying (Says.say ..)).stores
  | cons key args =>
    rw [setKey]
    split
    · next host hk => exact .keyed key rfl rfl (congrArg Prod.fst hk).symm
    · next host fault hk =>
      simp only
      split
      · exact .keyed key rfl rfl (congrArg Prod.fst hk).symm
      · exact .keyed key rfl rfl (congrArg Prod.fst hk).symm

theorem kind_of_mem_sayAll {a : Answer} {kind : LineKind} {texts : List Text} {l : Line}
    (h : l ∈ (a.sayAll kind texts).said) : l.kind = kind ∨ ∃ m ∈ a.said, l.kind = m.kind := by
  have hshown := List.mem_map_of_mem (f := shown) h
  rw [shown_sayAll] at hshown
  rcases List.mem_append.1 hshown with hm | ht
  · obtain ⟨m, hm, hsame⟩ := List.mem_map.1 hm
    exact .inr ⟨m, hm, (Prod.mk.inj hsame).1.symm⟩
  · obtain ⟨text, -, hsame⟩ := List.mem_map.1 ht
    exact .inl (Prod.mk.inj hsame).1.symm

theorem stores_load {a : Answer} (ha : ∀ l ∈ a.said, l.kind ≠ .error) (args : List Text) :
    Stores a (load a args)
      (if (load a args).said.any (·.kind = .error) then none else some .loaded) := by
  have hrefused (text : Text) : Stores a (a.error text)
      (if (a.error text).said.any (·.kind = .error) then none else some .loaded) := by
    rw [if_pos]
    · exact (undisturbed_of_saying (Says.say ..)).stores
    · refine List.any_eq_true.2 ⟨_, List.mem_append_right _ (List.mem_singleton_self _), ?_⟩
      exact decide_eq_true rfl
  cases hbusy : a.session.isBusy with
  | true =>
    rw [load, if_pos hbusy]
    exact hrefused _
  | false =>
    have hends := load_cases hbusy args
    generalize load a args = b at hends ⊢
    cases hends with
    | refused hn text => exact hrefused text
    | @loaded name snapshot tree h =>
      rw [if_neg]
      · refine .loaded ?_ ?_
        · exact (Says.sayAll _ .system _).site
        · exact (Says.sayAll _ .system _).host
      · intro hany
        obtain ⟨l, hl, hk⟩ := List.any_eq_true.1 hany
        rcases kind_of_mem_sayAll hl with h | ⟨m, hm, h⟩
        · cases h.symm.trans (of_decide_eq_true hk)
        · exact ha m hm (h.symm.trans (of_decide_eq_true hk))

theorem stores_export {a : Answer} (ha : ∀ l ∈ a.said, l.kind ≠ .success) :
    Stores a (exportSession a)
      (if (exportSession a).said.any (·.kind = .success) then
        (Export.ofDesk a.desk a.now).toOption.map (.saved a.now)
      else none) := by
  have hsilent (b : Answer) (hb : b.said = a.said) {fault : Fault} :
      ¬ (report b exportLabel fault).said.any (·.kind = .success) = true := by
    intro hany
    obtain ⟨l, hl, hk⟩ := List.any_eq_true.1 hany
    rcases kind_of_mem_report hl with hl | hl
    · exact ha l (hb ▸ hl) (of_decide_eq_true hk)
    · exact nomatch hl.symm.trans (of_decide_eq_true hk)
  have hends := export_cases a
  generalize exportSession a = b at hends ⊢
  cases hends with
  | unmade he =>
    rw [if_neg (hsilent a rfl)]
    exact (undisturbed_of_saying (says_report ..)).stores
  | @unwritten e host fault he hw =>
    rw [if_neg (hsilent (a.withHost host) rfl)]
    obtain ⟨hs, hh, hv⟩ :=
      undisturbed_of_saying (says_report (a.withHost host) exportLabel (.host fault))
    exact .nothing hs hv (hh ▸ Archive.keeps_of_write_error hw)
  | written he hw =>
    rw [if_pos, he]
    · obtain ⟨rfl, -⟩ := Archive.write_cases hw
      exact .saved he hw rfl rfl
    · refine List.any_eq_true.2 ⟨_, List.mem_append_right _ (List.mem_singleton_self _), ?_⟩
      exact decide_eq_true rfl

theorem stores_begin (d : Desk) (now : Int) (raw : Text) :
    Stores (echo d now raw) (begin d now raw).1 (event? d now raw) := by
  unfold event?
  simp only
  cases hv : verb? raw with
  | none => exact (undisturbed_of_saying (says_begin hv d now)).stores
  | some v =>
    rw [begin_of_verb? hv]
    cases v with
    | exportSession =>
      refine stores_export (a := echo d now raw) ?_
      exact List.forall_mem_singleton.2 nofun
    | load =>
      refine stores_load (a := echo d now raw) ?_ _
      exact List.forall_mem_singleton.2 nofun
    | setkey => exact stores_setKey ..
    | _ => exact (undisturbed_perform (by decide) ..).stores

end Shell

end ThreatDesk
