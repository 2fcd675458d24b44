import ThreatDesk.Proofs.Shell.Runs

/-!
# All or nothing

What an operation is to store is known from the replies of the engine and the tree it begins with
(`wanted`). If no line is entered meanwhile, either all of that is stored or the tree stays as it was
(`executeAt_all_or_nothing`).
-/

namespace ThreatDesk

open ThreatDesk.Tree (Stored)

/-- An engine that tells its progress and lets no line be entered. -/
def Engine.Quiet {σ : Type} (engine : Engine σ) : Prop :=
  ∀ state host request, ∀ i ∈ (engine.attend state host request).interludes,
    ∃ text, i = .progress text

namespace Shell

open Engine (Failure)
open Answer (Says)

/-! ## What is to be stored -/

def groundwork (t : Tree) : Groundwork where
  document := t.textAt Place.analysis
  architecture := t.textAt Place.architecture
  countermeasure := t.textAt Place.countermeasure
  context := t.gather Place.pages

variable {σ : Type}

/-- The files that an operation is to store: nothing is to be stored if the engine fails, or if the
page that was visited cannot be written. -/
def wanted (engine : Engine σ) (state : σ) (host : Host) (t : Tree) :
    Operation → Option (List (Text × Text))
  | .analyze =>
    let g := groundwork t
    let first := engine.attend state host (Stage.document g).request
    first.reply.toOption.bind fun document =>
    let second := engine.attend first.state host (Stage.architecture g document).request
    second.reply.toOption.bind fun architecture =>
    let third :=
      engine.attend second.state host (Stage.countermeasure g document architecture).request
    third.reply.toOption.bind fun code =>
      some [(Place.analysis, orUnchanged document g.document),
        (Place.architecture, orUnchanged architecture g.architecture),
        (Place.countermeasure, orUnchanged code g.countermeasure)]
  | .research =>
    let attended :=
      engine.attend state host (.research (t.textAt Place.intelligence) (t.gather Place.pages))
    attended.reply.toOption.bind fun report =>
      some ((Place.intelligence, report.report) :: artifactEntries report.artifacts)
  | .scan =>
    let attended := engine.attend state host (.scan (definitions t))
    attended.reply.toOption.bind fun _ => some []
  | .browse url =>
    let attended := engine.attend state host (.browse url)
    attended.reply.toOption.bind fun page =>
      (pageText url page host.clock).toOption.bind fun text =>
        some [(Path.join Place.pages (PageName.ofAddress url), text)]
  | .ask _ => none

/-! ## Seeing an operation through -/

theorem says_meanwhile {interludes : List Interlude}
    (h : ∀ i ∈ interludes, ∃ text, i = .progress text) (a : Answer) (asides : List Answer) :
    a.Says (meanwhile a asides interludes).1 := by
  induction interludes generalizing a with
  | nil => exact Says.refl a
  | cons i rest ih =>
    obtain ⟨⟨text, rfl⟩, hrest⟩ := List.forall_mem_cons.1 h
    exact (Says.say a .system text).trans (ih hrest _)

theorem drive_eq {engine : Engine σ} (hq : engine.Quiet) (state : σ) (a : Answer)
    (asides : List Answer) (s : Stage) :
    ∃ b asides', a.Says b ∧ drive engine state a asides s =
      match resume b s (engine.attend state a.desk.host s.request).reply with
      | (c, none) => ⟨(engine.attend state a.desk.host s.request).state, c, asides'⟩
      | (c, some t) =>
        drive engine (engine.attend state a.desk.host s.request).state c asides' t := by
  exact ⟨_, _, says_meanwhile (hq state a.desk.host s.request) a asides, drive_stage ..⟩

/-- How an operation ends that is to store some files in a tree. -/
inductive Settled (t : Tree) (wanted : Option (List (Text × Text))) (a : Answer) : Prop
  | failed (ho : a.session.lastOutcome = some .error) (ht : a.session.tree = t)
    (hw : ∀ entries, wanted = some entries → ∃ e ∈ entries, t.obstacle? e.1 ≠ none)
  | completed {entries : List (Text × Text)} (ho : a.session.lastOutcome = some .complete)
    (hw : wanted = some entries) (hc : ∀ e ∈ entries, t.obstacle? e.1 = none)
    (hs : Stored entries t a.session.tree) (hf : t.WellFormed → a.session.tree.WellFormed)

theorem settled_abort {t : Tree} {b : Answer} (hb : b.session.tree = t) (label : Text)
    (failure : Failure) : Settled t none (abort b label failure) :=
  .failed (lastOutcome_abort ..) ((tree_abort ..).trans hb) (by simp)

theorem failure?_ok (a : Answer) {s : Stage} (hs : ∀ e, s ≠ .chat e) (answer : s.request.Answer) :
    failure? a s (.ok answer) =
      match stored a.desk.host.clock s answer with
      | .error failure => some failure
      | .ok entries => storeFailure? a.session.tree entries := by
  cases s with
  | chat e => exact absurd rfl (hs e)
  | _ => rfl

theorem settled_of_resumed {a b : Answer} {s : Stage} (hs : ∀ e, s ≠ .chat e)
    {answer : s.request.Answer} (h : Resumed a s (.ok answer) (b, none)) :
    Settled a.session.tree (stored a.desk.host.clock s answer).toOption b := by
  cases h with
  | @failed s c reply failure hf hb =>
    refine .failed (lastOutcome_abort ..) ((tree_abort ..).trans hb.tree) ?_
    intro entries he
    rw [failure?_ok a hs] at hf
    cases hstored : stored a.desk.host.clock s answer with
    | error failure =>
      rw [hstored] at he
      exact absurd he (by simp [Except.toOption])
    | ok files =>
      rw [hstored] at he hf
      obtain rfl := Option.some.inj he
      have hf : storeFailure? a.session.tree files = some failure := hf
      unfold storeFailure? at hf
      rcases Tree.storeAll_cases (t := a.session.tree) (apart_of_stored hstored) with
        ⟨e, hmem, fault, hobstacle, -⟩ | ⟨-, u, hu, -⟩
      · exact ⟨e, hmem, by simp [hobstacle]⟩
      · rw [hu] at hf
        exact absurd hf (by simp)
  | @stored s c answer entries tree he hstore hf hb =>
    have htree : (complete c).session.tree = tree := hb.tree
    rcases Tree.storeAll_cases (t := a.session.tree) (apart_of_stored he) with
      ⟨e, -, fault, -, hfault⟩ | ⟨hclear, u, hu, hs⟩
    · exact absurd (hfault.symm.trans hstore) (by simp)
    · obtain rfl := Except.ok.inj (hu.symm.trans hstore)
      refine .completed rfl (by rw [he]; rfl) hclear ?_ ?_
      · rw [htree]
        exact hs
      · intro hw
        rw [htree]
        exact wellFormed_of_stored he hw hstore
  | toolFailed hf => exact absurd rfl (hs _)
  | answered hf hb => exact absurd rfl (hs _)

theorem settled_last {engine : Engine σ} (hq : engine.Quiet) (state : σ) {a : Answer} {t : Tree}
    {host : Host} (ht : a.session.tree = t) (hh : a.desk.host = host) (asides : List Answer)
    {s : Stage} (hs : ∀ e, s ≠ .chat e)
    (hlast : ∀ b answer, ∃ c, resume b s (.ok answer) = (c, none)) :
    Settled t ((engine.attend state host s.request).reply.toOption.bind fun answer =>
      (stored host.clock s answer).toOption) (drive engine state a asides s).answer := by
  subst ht hh
  obtain ⟨b, asides', hb, hd⟩ := drive_eq hq state a asides s
  rw [hd]
  cases hr : (engine.attend state a.desk.host s.request).reply with
  | error failure => exact settled_abort hb.tree s.label failure
  | ok answer =>
    obtain ⟨c, hc⟩ := hlast b answer
    have hresumed := resume_cases b s (.ok answer)
    rw [hc] at hresumed ⊢
    have hsettled := settled_of_resumed hs hresumed
    rw [hb.tree, hb.host] at hsettled
    exact hsettled

theorem settled_advanced {engine : Engine σ} (hq : engine.Quiet) (state : σ) {a : Answer}
    {t : Tree} {host : Host} (ht : a.session.tree = t) (hh : a.desk.host = host)
    (asides : List Answer) {s : Stage} (next : s.request.Answer → Stage)
    {wanted : s.request.Answer → Option (List (Text × Text))}
    (hnext : ∀ b answer, ∃ c, resume b s (.ok answer) = (c, some (next answer)) ∧
      c.session.tree = b.session.tree ∧ c.desk.host = b.desk.host)
    (h : ∀ answer (b : Answer) asides, b.session.tree = t → b.desk.host = host →
      Settled t (wanted answer)
        (drive engine (engine.attend state host s.request).state b asides (next answer)).answer) :
    Settled t ((engine.attend state host s.request).reply.toOption.bind wanted)
      (drive engine state a asides s).answer := by
  subst ht hh
  obtain ⟨b, asides', hb, hd⟩ := drive_eq hq state a asides s
  rw [hd]
  cases hr : (engine.attend state a.desk.host s.request).reply with
  | error failure => exact settled_abort hb.tree s.label failure
  | ok answer =>
    obtain ⟨c, hc, htree, hhost⟩ := hnext b answer
    rw [hc]
    exact h answer c asides' (htree.trans hb.tree) (hhost.trans hb.host)

theorem settled_drive {engine : Engine σ} (hq : engine.Quiet) (state : σ) (a : Answer)
    {op : Operation} (hask : ∀ message, op ≠ .ask message) :
    Settled a.session.tree (wanted engine state a.desk.host a.session.tree op)
      (drive engine state (start a op).1 [] (start a op).2).answer := by
  obtain ⟨shell, -, hs⟩ := start_cases a op
  have ht : (start a op).1.session.tree = a.session.tree := hs.tree
  have hh : (start a op).1.desk.host = a.desk.host := hs.host
  cases op with
  | analyze =>
    let g := groundwork a.session.tree
    refine settled_advanced hq state ht hh [] (s := .document g) (.architecture g)
      (fun b document => ⟨_, rfl, rfl, rfl⟩) ?_
    intro document b asides ht hh
    refine settled_advanced hq _ ht hh asides (s := .architecture g document)
      (.countermeasure g document) (fun b architecture => ⟨_, rfl, rfl, rfl⟩) ?_
    intro architecture b asides ht hh
    exact settled_last hq _ ht hh asides (s := .countermeasure g document architecture) (by simp)
      fun b code => ⟨_, rfl⟩
  | research =>
    exact settled_last hq state ht hh [] (s := .research _ _) (by simp) fun b report => ⟨_, rfl⟩
  | scan =>
    exact settled_last hq state ht hh [] (s := .scan _) (by simp) fun b report => ⟨_, rfl⟩
  | browse url =>
    have hlast := settled_last hq state ht hh [] (s := .browse url) (by simp) fun b page => ⟨_, rfl⟩
    have hpage : (fun page => (stored a.desk.host.clock (.browse url) page).toOption) =
        fun page => (pageText url page a.desk.host.clock).toOption.bind fun text =>
          some [(Path.join Place.pages (PageName.ofAddress url), text)] := by
      funext page
      simp only [stored]
      cases pageText url page a.desk.host.clock <;> rfl
    rw [hpage] at hlast
    exact hlast
  | ask message => exact absurd rfl (hask message)

/-- If no line is entered while the engine works, an analysis, a research, a scan or a visit either
ends as an error, and the tree is as it was, or it is complete, and everything that is wanted is
stored: the first when something has failed or something in the tree stands in the way of a file. -/
theorem executeAt_all_or_nothing {engine : Engine σ} (hq : engine.Quiet) (state : σ) {d : Desk}
    (hbusy : d.session.isBusy = false) (ht : d.session.tree.WellFormed) (now : Int) {raw : Text}
    {op : Operation} (hop : operation? raw = some op) (hask : ∀ message, op ≠ .ask message) :
    let before := d.session.tree
    let after := (executeAt engine state d now raw).answer.session
    (after.lastOutcome = some .error ∧ after.tree = before ∧
      ∀ entries, wanted engine state d.host before op = some entries →
        ∃ e ∈ entries, before.obstacle? e.1 ≠ none) ∨
    (after.lastOutcome = some .complete ∧ after.tree.WellFormed ∧
      ∃ entries, wanted engine state d.host before op = some entries ∧
        (∀ e ∈ entries, before.obstacle? e.1 = none) ∧ Stored entries before after.tree) := by
  intro before after
  have he : ¬ (echo d now raw).session.isBusy = true := ne_true_of_eq_false hbusy
  have hbegin : begin d now raw =
      ((start (echo d now raw) op).1, some (start (echo d now raw) op).2) := by
    rw [begin_of_operation? hop, startUnlessBusy, if_neg he]
  have hsettled : Settled before (wanted engine state d.host before op)
      (executeAt engine state d now raw).answer := by
    rw [executeAt, hbegin]
    exact settled_drive hq state (echo d now raw) hask
  cases hsettled with
  | failed ho htree hw => exact Or.inl ⟨ho, htree, hw⟩
  | completed ho hw hc hs hf => exact Or.inr ⟨ho, hf ht, _, hw, hc, hs⟩

theorem executeAt_all_or_nothing_research :
    let engine : Engine Unit := ⟨fun state _ request => ⟨state, [.progress "SEARCHING"],
      match request with
      | .research .. => .ok ⟨"intel", [⟨"a.py", "one"⟩, ⟨"a/b", "none"⟩, ⟨"a.py", "two"⟩], false⟩
      | _ => .error .missingCredential⟩⟩
    let d := Desk.bare (Session.withoutHistory ⟨[]⟩ "1.0.0")
    let after := (executeAt engine () d 0 "research").answer.session
    engine.Quiet ∧ d.session.isBusy = false ∧ d.session.tree.WellFormed ∧
      operation? "research" = some .research ∧ after.lastOutcome = some .complete ∧
      ∃ f, after.tree.file? "/exploits/a.py" = some f ∧ f.content = some "two" := by
  intro engine d after
  have hq : engine.Quiet := fun _ _ _ => List.forall_mem_singleton.2 ⟨_, rfl⟩
  have hop : operation? "research" = some .research := by decide
  refine ⟨hq, rfl, trivial, hop, ?_⟩
  rcases executeAt_all_or_nothing hq () (d := d) rfl trivial 0 hop (by simp) with
    ⟨-, -, h⟩ | ⟨ho, -, entries, he, -, hstored⟩
  · obtain ⟨e, -, hobstacle⟩ := h _ rfl
    exact absurd (Nodes.obstacle?_empty ..) hobstacle
  · obtain rfl := Option.some.inj he
    obtain ⟨f, hf, hcontent⟩ := hstored.texts ("/exploits/a.py", "two") (by decide)
    exact ⟨ho, f, hf, hcontent.trans (by decide)⟩

end Shell

end ThreatDesk
