import ThreatDesk.Proofs.Shell.Analysis
import ThreatDesk.Proofs.Shell.Artifacts

/-!
# What an analysis makes of the replies of the service

A reply in which the mark of no changes occurs stands for the document that was there, and every other
one is the document (`orUnchanged_sentinel`). So where nothing was there, a reply that only mentions the
mark is lost. Main statement: `documents_stored`.
-/

namespace ThreatDesk

namespace Engine.Service

open Work

theorem answered_document {script : Nat → Except Text ApiReply} {config : ServiceConfig} {keys : KeyStore}
    {s u : ServiceState (Host × List ApiCall)} {filename topic existing context text : Text}
    (h : outcome (document ((Client.scripted script).link keys) config filename topic existing context) s =
      (.ok text, u)) :
    ∃ r t, script s.made = .ok r ∧ r.text = .ok t ∧ text = (sentinel t).getD t ∧
      u.made = s.made + 1 := by
  unfold document complete at h
  obtain ⟨t, v, hcomplete, hpure⟩ := exists_of_bind h
  obtain ⟨r, w, hsend, htext⟩ := exists_of_bind hcomplete
  obtain ⟨hr, hmade⟩ := answered_send script config hsend
  obtain ⟨ht, rfl⟩ := Prod.mk.inj ((outcome_orFail ..).symm.trans htext)
  obtain ⟨htext, rfl⟩ := Prod.mk.inj hpure
  exact ⟨r, t, hr, eq_ok_of_mapError_ok ht, (Except.ok.inj htext).symm, hmade⟩

end Engine.Service

namespace Shell

open Engine (Online ServiceConfig ServiceState noChanges online)
open Engine.Service (sentinel)

variable {σ : Type}

theorem orUnchanged_sentinel (t existing : Text) :
    orUnchanged ((sentinel t).getD t) existing =
      if Text.occurs noChanges t = true then existing else t := by
  unfold sentinel orUnchanged
  split
  · exact if_pos rfl
  · next hoccurs =>
    refine if_neg ?_
    rintro rfl
    exact hoccurs (by decide)

/-! ## Operations that complete -/

theorem drive_of_resume {engine : Engine σ} {state : σ} {a b : Answer} {asides : List Answer} {s t : Stage}
    (h : resume (meanwhile a asides (engine.attend state a.desk.host s.request).interludes).1 s
      (engine.attend state a.desk.host s.request).reply = (b, some t)) :
    drive engine state a asides s =
      drive engine (engine.attend state a.desk.host s.request).state b
        (meanwhile a asides (engine.attend state a.desk.host s.request).interludes).2 t := by
  rw [drive_stage]
  dsimp only
  rw [h]

theorem exists_next_of_complete {engine : Engine σ} {state : σ} {a : Answer} {asides : List Answer}
    {s : Stage} (next : s.request.Answer → Stage)
    (hnext : ∀ b answer, ∃ c, resume b s (.ok answer) = (c, some (next answer)))
    (h : (drive engine state a asides s).answer.session.lastOutcome = some .complete) :
    ∃ answer b asides', (engine.attend state a.desk.host s.request).reply = .ok answer ∧
      drive engine state a asides s =
        drive engine (engine.attend state a.desk.host s.request).state b asides' (next answer) := by
  cases hr : (engine.attend state a.desk.host s.request).reply with
  | error failure =>
    rw [drive_stage] at h
    dsimp only at h
    rw [hr] at h
    exact nomatch (lastOutcome_abort _ s.label failure).symm.trans h
  | ok answer =>
    obtain ⟨c, hc⟩ := hnext (meanwhile a asides
      (engine.attend state a.desk.host s.request).interludes).1 answer
    exact ⟨answer, c, _, rfl, drive_of_resume (hr ▸ hc)⟩

theorem exists_stored_of_complete {engine : Engine σ} {state : σ} {a : Answer} {asides : List Answer}
    {s : Stage} (hs : ∀ e, s ≠ .chat e)
    (hlast : ∀ b answer, ∃ c, resume b s (.ok answer) = (c, none))
    (h : (drive engine state a asides s).answer.session.lastOutcome = some .complete) :
    ∃ answer clock entries t, (engine.attend state a.desk.host s.request).reply = .ok answer ∧
      (stored clock s answer).toOption = some entries ∧
      Tree.Stored entries t (drive engine state a asides s).answer.session.tree := by
  rw [drive_stage] at h ⊢
  dsimp only at h ⊢
  generalize meanwhile a asides (engine.attend state a.desk.host s.request).interludes = m at h ⊢
  cases hr : (engine.attend state a.desk.host s.request).reply with
  | error failure =>
    rw [hr] at h
    exact nomatch (lastOutcome_abort _ s.label failure).symm.trans h
  | ok answer =>
    obtain ⟨c, hc⟩ := hlast m.1 answer
    have hresumed := resume_cases m.1 s (.ok answer)
    rw [hr, hc] at h
    rw [hc] at hresumed ⊢
    cases settled_of_resumed hs hresumed with
    | failed ho ht hw => exact nomatch ho.symm.trans h
    | completed ho hw hobstacles hstored hf => exact ⟨answer, _, _, _, rfl, hw, hstored⟩

/-! ## Documents of the service -/

variable {script : Nat → Except Text ApiReply} {config : ServiceConfig} {keys : KeyStore}
  {engine : Engine (Online (List ApiCall))}

/-- A stage that asks the service for a document has got it from the next entry of the script. -/
theorem document_of_reply (hamid : engine.Amid (online (.scripted script) keys config))
    {state : Online (List ApiCall)} {host : Host} {filename topic existing context document : Text}
    (h : (engine.attend state host (.document filename topic existing context)).reply = .ok document) :
    ∃ r t, script state.client.length = .ok r ∧ r.text = .ok t ∧ document = (sentinel t).getD t ∧
      (engine.attend state host (.document filename topic existing context)).state.client.length =
        state.client.length + 1 := by
  rw [hamid.reply] at h
  rw [hamid.state]
  generalize hw : (Engine.Service.document ((Client.scripted script).link keys) config filename topic
    existing context).outcome ⟨state.key, (host, state.client), []⟩ = w
  obtain ⟨r, u⟩ := w
  have hrun : (online (.scripted script) keys config).attend state host
      (.document filename topic existing context) = _ := Engine.Online.run_eq hw
  rw [hrun] at h ⊢
  obtain rfl : r = .ok document := h
  exact Engine.Service.answered_document hw

theorem executeAt_analysis {d : Desk} (hbusy : d.session.isBusy = false) (now : Int) {raw : Text}
    (hop : operation? raw = some .analyze) (engine : Engine σ) (state : σ) :
    executeAt engine state d now raw =
      drive engine state (begin d now raw).1 [] (.document (groundwork d.session.tree)) := by
  rw [executeAt, show begin d now raw = ((begin d now raw).1, some (.document (groundwork d.session.tree)))
    from Prod.ext rfl (begin_analysis hbusy now hop)]

/-- An analysis over the service that completes stores each of the first two replies, without white space
around it, unless the mark of no changes occurs in it; then it stores what was there when it began. So of
a document that was not there, or was empty, nothing is stored just if the mark occurs in the reply. -/
theorem documents_stored (hamid : engine.Amid (online (.scripted script) keys config))
    (state : Online (List ApiCall)) {d : Desk} (hbusy : d.session.isBusy = false) (now : Int) {raw : Text}
    (hop : operation? raw = some .analyze)
    (hcomplete : (executeAt engine state d now raw).answer.session.lastOutcome = some .complete) :
    let after := (executeAt engine state d now raw).answer.session.tree
    ∃ r₀ r₁ t₀ t₁, script state.client.length = .ok r₀ ∧ r₀.text = .ok t₀ ∧
      script (state.client.length + 1) = .ok r₁ ∧ r₁.text = .ok t₁ ∧
      ∀ x ∈ [(Place.analysis, t₀), (Place.architecture, t₁)],
        ∃ f content, after.file? x.1 = some f ∧ f.content = some content ∧
          content = (if Text.occurs noChanges x.2 then d.session.tree.textAt x.1 else x.2) ∧
          (d.session.tree.textAt x.1 = [] → x.2 ≠ [] →
            (content = x.2 ↔ Text.occurs noChanges x.2 = false)) := by
  intro after
  have hafter : after = (executeAt engine state d now raw).answer.session.tree := rfl
  rw [executeAt_analysis hbusy now hop] at hcomplete hafter
  obtain ⟨document, b, asides, hfirst, hdrive⟩ :=
    exists_next_of_complete (s := .document (groundwork d.session.tree))
      (.architecture (groundwork d.session.tree)) (fun b answer => ⟨_, rfl⟩) hcomplete
  rw [hdrive] at hcomplete hafter
  obtain ⟨architecture, c, asides', hsecond, hdrive⟩ :=
    exists_next_of_complete (s := .architecture (groundwork d.session.tree) document)
      (.countermeasure (groundwork d.session.tree) document) (fun b answer => ⟨_, rfl⟩) hcomplete
  rw [hdrive] at hcomplete hafter
  obtain ⟨code, clock, entries, t, -, hentries, hstored⟩ :=
    exists_stored_of_complete (s := .countermeasure (groundwork d.session.tree) document architecture)
      (by simp) (fun b answer => ⟨_, rfl⟩) hcomplete
  obtain rfl := Option.some.inj hentries
  rw [← hafter] at hstored
  obtain ⟨r₀, t₀, hr₀, ht₀, rfl, hmade⟩ := document_of_reply hamid hfirst
  obtain ⟨r₁, t₁, hr₁, ht₁, rfl, -⟩ := document_of_reply hamid hsecond
  refine ⟨r₀, r₁, t₀, t₁, hr₀, ht₀, (congrArg script hmade).symm.trans hr₁, ht₁, ?_⟩
  obtain ⟨hanalysis, harchitecture, -⟩ : _ ∧ _ ∧ _ := by
    simpa only [List.forall_mem_cons] using hstored.texts
  have hkept {place t : Text} (h : ∃ f, after.file? place = some f ∧
      f.content = some (orUnchanged ((sentinel t).getD t) (d.session.tree.textAt place))) :
      ∃ f content, after.file? place = some f ∧ f.content = some content ∧
        content = (if Text.occurs noChanges t then d.session.tree.textAt place else t) ∧
        (d.session.tree.textAt place = [] → t ≠ [] →
          (content = t ↔ Text.occurs noChanges t = false)) := by
    obtain ⟨f, hf, hcontent⟩ := h
    refine ⟨f, _, hf, hcontent, orUnchanged_sentinel .., fun hempty hne => ?_⟩
    rw [orUnchanged_sentinel, hempty]
    cases Text.occurs noChanges t
    · simp
    · simpa using hne.symm
  intro x hx
  simp only [List.mem_cons, List.not_mem_nil, or_false] at hx
  rcases hx with rfl | rfl
  · exact hkept hanalysis
  · exact hkept harchitecture

theorem documents_stored_fresh :
    let script : Nat → Except Text ApiReply := fun n => .ok (.saying (if n = 0 then " one\n" else "two"))
    let service := online (.scripted script) ⟨HostPath.ofText "/k", KeyStore.defaultVariable⟩ ⟨.null, 1, 1⟩
    let engine : Engine (Online (List ApiCall)) := ⟨fun state host q =>
      let attended := service.attend state host q
      { attended with interludes := .line "mkdir docs" :: attended.interludes }⟩
    let bare := Desk.bare (Session.withoutHistory ⟨[]⟩ "1.0")
    let d := { bare with host := { bare.host with environment := [(KeyStore.defaultVariable, "k")] } }
    let after := (executeAt engine ⟨none, []⟩ d 0 "analyze").answer.session
    engine.Amid service ∧ after.lastOutcome = some .complete ∧
      ∃ f, after.tree.file? Place.analysis = some f ∧ f.content = some "one" := by
  intro script service engine bare d after
  have hamid : engine.Amid service := ⟨fun _ _ _ => rfl, fun _ _ _ => rfl, fun _ _ _ => rfl⟩
  have hbusy : d.session.isBusy = false := rfl
  have hop : operation? "analyze" = some .analyze := by decide
  have hcomplete : after.lastOutcome = some .complete := by
    show (executeAt engine ⟨none, []⟩ d 0 "analyze").answer.session.lastOutcome = _
    rw [executeAt_analysis hbusy 0 hop, drive_of_resume rfl, drive_of_resume rfl, drive_stage]
    decide +kernel
  obtain ⟨r, _, t, _, hr, ht, -, -, hdocuments⟩ :=
    documents_stored hamid ⟨none, []⟩ hbusy 0 hop hcomplete
  obtain rfl : t = "one" := by
    obtain rfl := Except.ok.inj hr
    rw [ApiReply.text_saying] at ht
    exact (Except.ok.inj ht).symm.trans (by decide)
  obtain ⟨f, content, hf, hcontent, rfl, -⟩ := hdocuments _ List.mem_cons_self
  exact ⟨hamid, hcomplete, f, hf, hcontent.trans (by decide)⟩

/-- There is no document yet, and the first reply is one that mentions the mark: it completes with an
empty document. -/
theorem document_thrown_away :
    let reply : Text := "NO_CHANGES to the kernel are made by the worm."
    let script : Nat → Except Text ApiReply := fun n => .ok (.saying (if n = 0 then reply else "two"))
    let service := online (.scripted script) ⟨HostPath.ofText "/k", KeyStore.defaultVariable⟩ ⟨.null, 1, 1⟩
    let bare := Desk.bare (Session.withoutHistory ⟨[]⟩ "1.0")
    let d := { bare with host := { bare.host with environment := [(KeyStore.defaultVariable, "k")] } }
    let after := (executeAt service ⟨none, []⟩ d 0 "analyze").answer.session
    d.session.tree.file? Place.analysis = none ∧ d.session.tree.file? Place.architecture = none ∧
      reply.trim ≠ [] ∧ after.lastOutcome = some .complete ∧
      (after.tree.file? Place.analysis).map File.content = some (some []) := by
  intro reply script service bare d after
  have hbusy : d.session.isBusy = false := rfl
  have hop : operation? "analyze" = some .analyze := by decide
  have hafter : after = (executeAt service ⟨none, []⟩ d 0 "analyze").answer.session := rfl
  rw [executeAt_analysis hbusy 0 hop, drive_of_resume rfl, drive_of_resume rfl, drive_stage] at hafter
  rw [hafter]
  decide +kernel

end Shell

end ThreatDesk
