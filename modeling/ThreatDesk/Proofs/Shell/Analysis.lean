import ThreatDesk.Proofs.Shell.AllOrNothing

/-!
# What an analysis puts back

An analysis reads its three files when it begins and stores them when it ends, with lines taken in
between. The invariant: what waits for the engine carries the texts of the beginning and the replies so
far (`Analysing.stage`). So the mark of no changes stores the text of the beginning, not the one that was
written meanwhile (`stored_since_begun`).
-/

namespace ThreatDesk

def Stage.text? : (s : Stage) → s.request.Answer → Option Text
  | .document _, text => some text
  | .architecture .., text => some text
  | .countermeasure .., text => some text
  | .scan _, text => some text
  | .research .., _ | .browse _, _ | .chat _, _ => none

/-- Where an analysis stands that goes on from the groundwork and has got those replies. -/
def Groundwork.stage? (g : Groundwork) : List Text → Option Stage
  | [] => some (.document g)
  | [document] => some (.architecture g document)
  | [document, architecture] => some (.countermeasure g document architecture)
  | _ => none

namespace Shell

open Engine (Failure)
open ThreatDesk.Tree (Stored)

/-- The replies that an analysis has got and the floor where it waits for the next one. It began on the
desk `d`; whatever happens meanwhile neither answers it nor begins anything else. -/
inductive Analysing (hosts : Host → Prop) (d : Desk) : List Text → Floor → Prop
  | begun (hd : d.session.isBusy = false) (now : Int) {raw : Text}
    (ho : operation? raw = some .analyze) :
    Analysing hosts d [] (Floor.settle [] [] (begin d now raw))
  | aside {replies : List Text} {f g : Floor} (h : Analysing hosts d replies f)
    (hs : Floor.Step hosts f g)
    (hp : g.pending.map Pending.stage = f.pending.map Pending.stage) :
    Analysing hosts d replies g
  | answered {replies : List Text} {e : Desk} {p : Pending} {answer : p.stage.request.Answer}
    {text : Text} {a : Answer} {s : Stage} (h : Analysing hosts d replies ⟨e, [p]⟩)
    (ht : p.stage.text? answer = some text)
    (hr : resume (p.answer e) p.stage (.ok answer) = (a, some s)) :
    Analysing hosts d (replies ++ [text]) (Floor.settle [] [] (a, some s))

variable {hosts : Host → Prop} {d e : Desk} {replies : List Text}

theorem begin_analysis (hd : d.session.isBusy = false) (now : Int) {raw : Text}
    (ho : operation? raw = some .analyze) :
    (begin d now raw).2 = some (.document (groundwork d.session.tree)) := by
  have he : (echo d now raw).session.isBusy = false := hd
  rw [begin_of_operation? ho, startUnlessBusy, if_neg (by rw [he]; decide)]
  rfl

/-- What waits for the engine knows the replies so far, and of the tree what it was at first. -/
theorem Analysing.stage {f : Floor} (h : Analysing hosts d replies f) :
    ∃ s, (groundwork d.session.tree).stage? replies = some s ∧
      f.pending.map Pending.stage = [s] := by
  induction h with
  | begun hd now ho =>
    refine ⟨.document (groundwork d.session.tree), rfl, ?_⟩
    have hb := begin_analysis hd now ho
    generalize begin d now _ = r at hb
    obtain ⟨a, s⟩ := r
    obtain rfl := hb
    rfl
  | aside h hs hp ih =>
    obtain ⟨s, hstage, hpending⟩ := ih
    exact ⟨s, hstage, hp.trans hpending⟩
  | @answered replies e p answer text a s h ht hr ih =>
    obtain ⟨now, said, stage⟩ := p
    obtain ⟨t, hstage, hpending⟩ := ih
    obtain rfl : stage = t := List.singleton_inj.1 hpending
    -- The replies so far tell which stage has been answered, and so which one comes next.
    match replies, hstage with
    | [], hstage =>
      obtain rfl := Option.some.inj hstage
      obtain rfl := Option.some.inj ht
      obtain rfl := Option.some.inj (congrArg Prod.snd hr)
      exact ⟨_, rfl, rfl⟩
    | [document], hstage =>
      obtain rfl := Option.some.inj hstage
      obtain rfl := Option.some.inj ht
      obtain rfl := Option.some.inj (congrArg Prod.snd hr)
      exact ⟨_, rfl, rfl⟩
    | [document, architecture], hstage =>
      obtain rfl := Option.some.inj hstage
      exact nomatch congrArg Prod.snd hr

theorem analysing_after_line (hd : d.session.isBusy = false) (now later : Int) {raw : Text}
    (ho : operation? raw = some .analyze) (line document architecture : Text) :
    let g := groundwork d.session.tree
    let a := (begin d now raw).1
    let e := (begin a.desk later line).1.desk
    let a₁ := (resume ⟨e, a.now, a.said⟩ (.document g) (.ok document)).1
    let a₂ := (resume a₁ (.architecture g document) (.ok architecture)).1
    Analysing hosts d [document, architecture]
      ⟨a₂.desk, [⟨a.now, a₂.said, .countermeasure g document architecture⟩]⟩ := by
  intro g a e a₁ a₂
  have hbegin : begin d now raw = (a, some (.document g)) := Prod.ext rfl (begin_analysis hd now ho)
  have hbegun : Analysing hosts d [] ⟨a.desk, [⟨a.now, a.said, .document g⟩]⟩ := by
    have h : Analysing hosts d [] (Floor.settle [] [] (begin d now raw)) := .begun hd now ho
    rwa [hbegin] at h
  have hbusy : a.desk.session.isBusy = true := by
    have he : (echo d now raw).session.isBusy = false := hd
    have hstart : a = (start (echo d now raw) .analyze).1 := by
      show (begin d now raw).1 = _
      rw [begin_of_operation? ho, startUnlessBusy, if_neg (by rw [he]; decide)]
    rw [hstart]
    exact Floor.isBusy_start ..
  have hline : begin a.desk later line = ((begin a.desk later line).1, none) :=
    Prod.ext rfl (begin_of_isBusy hbusy ..)
  have hedited : Analysing hosts d [] ⟨e, [⟨a.now, a.said, .document g⟩]⟩ := by
    refine .aside hbegun ?_ rfl
    have hstep : Floor.Step hosts ⟨a.desk, [⟨a.now, a.said, .document g⟩]⟩ _ := .line _ later line
    rwa [hline] at hstep
  have hfirst : Analysing hosts d [document]
      ⟨a₁.desk, [⟨a.now, a₁.said, .architecture g document⟩]⟩ :=
    @Analysing.answered _ _ _ _ ⟨a.now, a.said, .document g⟩ document _ _ _ hedited rfl rfl
  exact @Analysing.answered _ _ _ _ ⟨a.now, a₁.said, .architecture g document⟩ architecture _ _ _
    hfirst rfl rfl

theorem textAt_of_stored {t u : Tree} {document architecture code : Text}
    (h : Stored [(Place.analysis, document), (Place.architecture, architecture),
      (Place.countermeasure, code)] t u) :
    u.textAt Place.analysis = document ∧ u.textAt Place.architecture = architecture ∧
      u.textAt Place.countermeasure = code := by
  have htext {path text : Text}
      (hm : ∃ f, u.file? path = some f ∧ f.content = some text) : u.textAt path = text := by
    obtain ⟨f, hf, hc⟩ := hm
    rw [Tree.textAt, hf]
    simp only [File.text, hc, Option.getD_some]
  obtain ⟨ha, hb, hc, -⟩ : _ ∧ _ ∧ _ ∧ _ := by
    simpa only [List.forall_mem_cons] using h.texts
  exact ⟨htext ha, htext hb, htext hc⟩

/-- When an analysis completes, each of its files holds the reply of the engine, or, where that was the
mark of no changes, the text of when the analysis began: a text that was written meanwhile is kept only
if it is that one. -/
theorem stored_since_begun {p : Pending} (h : Analysing hosts d replies ⟨e, [p]⟩)
    {answer : p.stage.request.Answer} {b : Answer}
    (hr : resume (p.answer e) p.stage (.ok answer) = (b, none))
    (hc : b.session.lastOutcome = some .complete) :
    ∃ document architecture code, replies = [document, architecture] ∧
      p.stage.text? answer = some code ∧
      ∀ x ∈ [(Place.analysis, document), (Place.architecture, architecture),
          (Place.countermeasure, code)],
        b.session.tree.textAt x.1 = orUnchanged x.2 (d.session.tree.textAt x.1) ∧
        (x.2 = Engine.noChanges →
          (b.session.tree.textAt x.1 = e.session.tree.textAt x.1 ↔
            e.session.tree.textAt x.1 = d.session.tree.textAt x.1)) := by
  obtain ⟨now, said, stage⟩ := p
  obtain ⟨s, hstage, hpending⟩ := h.stage
  obtain rfl : stage = s := List.singleton_inj.1 hpending
  match replies, hstage with
  | [], hstage =>
    obtain rfl := Option.some.inj hstage
    exact nomatch congrArg Prod.snd hr
  | [document], hstage =>
    obtain rfl := Option.some.inj hstage
    exact nomatch congrArg Prod.snd hr
  | [document, architecture], hstage =>
    obtain rfl := Option.some.inj hstage
    have hresumed := resume_cases ⟨e, now, said⟩
      (.countermeasure (groundwork d.session.tree) document architecture) (.ok answer)
    rw [show resume ⟨e, now, said⟩ _ (.ok answer) = (b, none) from hr] at hresumed
    have hsettled := settled_of_resumed (fun _ => by simp) hresumed
    refine ⟨document, architecture, answer, rfl, rfl, ?_⟩
    cases hsettled with
    | failed ho ht hw => exact nomatch ho.symm.trans hc
    | completed ho hw hobstacles hstored hf =>
      obtain rfl := Option.some.inj hw
      obtain ⟨ha, hb, hd⟩ := textAt_of_stored hstored
      have hkept {before now after reply : Text} (h : after = orUnchanged reply before) :
          after = orUnchanged reply before ∧
            (reply = Engine.noChanges → (after = now ↔ now = before)) := by
        refine ⟨h, ?_⟩
        rintro rfl
        rw [h, orUnchanged, if_pos rfl]
        exact eq_comm
      intro x hx
      simp only [List.mem_cons, List.not_mem_nil, or_false] at hx
      rcases hx with rfl | rfl | rfl
      · exact hkept ha
      · exact hkept hb
      · exact hkept hd

theorem stored_since_begun_empty :
    let d := Desk.bare (Session.withoutHistory ⟨[]⟩ "1.0.0")
    ∃ e now said g b,
      Analysing (fun _ => False) d ["x", Engine.noChanges]
        ⟨e, [⟨now, said, .countermeasure g "x" Engine.noChanges⟩]⟩ ∧
      resume ⟨e, now, said⟩ (.countermeasure g "x" Engine.noChanges) (.ok Engine.noChanges) =
        (b, none) ∧
      b.session.tree.textAt Place.analysis = "x" ∧
      b.session.tree.textAt Place.architecture = [] := by
  intro d
  have hraw : operation? "analyze" = some .analyze := by decide
  have h := @analysing_after_line (fun _ => False) d rfl 0 1 "analyze" hraw "mkdir docs" "x"
    Engine.noChanges
  refine ⟨_, _, _, _, _, h, rfl, ?_⟩
  obtain ⟨document, architecture, code, hreplies, -, htexts⟩ :=
    @stored_since_begun _ d _ _ _ h Engine.noChanges _ rfl (by decide +kernel)
  obtain ⟨rfl, hrest⟩ := List.cons.inj hreplies
  obtain ⟨rfl, -⟩ := List.cons.inj hrest
  obtain ⟨ha, hb, -⟩ := List.forall_mem_cons.1 htexts |>.imp_right List.forall_mem_cons.1
  exact ⟨ha.1.trans (if_neg (by decide)), hb.1.trans (if_pos rfl)⟩

/-- What is written while an analysis waits is lost, though the engine answers that nothing changes. -/
theorem reverts_what_was_written :
    let tree : Tree := ⟨[.directory "docs" "/docs" [.file ⟨"agent_hopper_analysis.md",
      "/docs/agent_hopper_analysis.md", some "old"⟩]]⟩
    let d := Desk.bare (Session.withoutHistory tree "1.0.0")
    let unchanged := Engine.noChanges
    ∃ e now said g b,
      Analysing (fun _ => False) d [unchanged, unchanged]
        ⟨e, [⟨now, said, .countermeasure g unchanged unchanged⟩]⟩ ∧
      resume ⟨e, now, said⟩ (.countermeasure g unchanged unchanged) (.ok unchanged) = (b, none) ∧
      b.session.lastOutcome = some .complete ∧
      e.session.tree.textAt Place.analysis = "new" ∧
      b.session.tree.textAt Place.analysis = "old" := by
  intro tree d unchanged
  have hraw : operation? "analyze" = some .analyze := by decide
  have h := @analysing_after_line (fun _ => False) d rfl 0 1 "analyze" hraw
    "write /docs/agent_hopper_analysis.md new" unchanged unchanged
  refine ⟨_, _, _, _, _, h, rfl, ?_, ?_, ?_⟩
  · decide +kernel
  · decide +kernel
  · decide +kernel

end Shell

end ThreatDesk
