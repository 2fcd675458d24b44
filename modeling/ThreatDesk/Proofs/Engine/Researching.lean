import ThreatDesk.Proofs.Engine.Replies
import ThreatDesk.Proofs.Engine.Work

/-!
# What research comes to

Research makes three calls of the service. Of the first it wants queries and of the last artifacts; it
goes on where a reply to these is of no use (`Plans`, `Offers`). It fails where the service does not
answer one of the first two calls, and where a reply cannot be read at all.
-/

namespace ThreatDesk

namespace Engine.Service

open Work

/-- A reply that can be read, whether it makes sense or not. -/
def Legible (r : ApiReply) : Prop := ∀ fault, documentOf r ≠ .error (.fault fault)

def Plans (r : ApiReply) (queries : List Text) : Prop :=
  Legible r ∧ (documentOf r = .ok (.array (queries.map .text)) ∨
    (∀ texts : List Text, documentOf r ≠ .ok (.array (texts.map .text))) ∧ queries = fallbackQueries)

def toldOf (found : List Artifact) : List Text := found.map fun a => "> GENERATED ARTIFACT: " ++ a.name

def Offers (answer : Except Text ApiReply) (artifacts : List Artifact) (told : List Text) : Prop :=
  (∀ r, answer = .ok r → Legible r) ∧
    ((∃ r items, answer = .ok r ∧ documentOf r = .ok (.array items) ∧
      artifacts = items.filterMap artifact? ∧ told = toldOf artifacts) ∨
    (∀ r items, answer = .ok r → documentOf r ≠ .ok (.array items)) ∧ artifacts = [] ∧
      ∃ why : Text, told = ["WARN: Artifact gen failed: " ++ why])

theorem legible_of_ok {r : ApiReply} {v : Json} (h : documentOf r = .ok v) : Legible r := by
  intro fault hfault
  cases h.symm.trans hfault

theorem legible_of_malformed {r : ApiReply} {message : Text}
    (h : documentOf r = .error (.malformed message)) : Legible r := by
  intro fault hfault
  cases h.symm.trans hfault

def toldOpening (existing : Text) (queries : List Text) : List Text :=
  let opening : List Text := ["INITIALIZING TARGETED THREAT RECONNAISSANCE..."]
  let update : List Text :=
    if existing.isEmpty then [] else ["> LOADING EXISTING INTEL FOR INCREMENTAL UPDATE..."]
  let queued : List Text := queries.map fun q => "> QUEUED VECTOR: " ++ q
  let search : List Text := ["EXECUTING DEEP WEB SEARCH PROTOCOLS..."]
  opening ++ update ++ queued ++ search

def toldSearch (sources : List ApiReply.Source) : List Text :=
  let synthesis : List Text := ["SYNTHESIZING INTELLIGENCE..."]
  let acquired : List Text :=
    if sources.isEmpty then []
    else ["> DATA ACQUIRED: " ++ Text.ofNat sources.length ++ " verified sources."]
  let extraction : List Text := ["EXTRACTING EXPLOIT DEFINITIONS & ARTIFACTS..."]
  synthesis ++ acquired ++ extraction

def reportOf (text : Text) (sources : List ApiReply.Source) : Text :=
  withSources (if text.isEmpty then "No intelligence gathered." else text) sources

def askDocument (config : ServiceConfig) (prompt : Text) : ApiCall := ask config (jsonOnly prompt)

section

variable (script : Nat → Except Text ApiReply) (config : ServiceConfig) {keys : KeyStore} {key : Text}
  {s : ServiceState (Host × List ApiCall)}

theorem outcome_completeJson (hkey : keys.key s.outside.1 = .ok (some key)) (hne : key ≠ [])
    (prompt : Text) :
    outcome (completeJson ((Client.scripted script).link keys) config prompt) s =
      ((script s.made).mapError apiFailure >>= documentOf, s.sent key (askDocument config prompt)) := by
  have hsend := outcome_send script config hkey hne (askDocument config prompt)
  have hcomplete := outcome_bind_orFail hsend .fault ApiReply.text
  have hjson := outcome_bind_orFail hcomplete replyFailure fun t => Json.ofText (Markdown.unfence t)
  refine hjson.trans ?_
  cases script s.made <;> rfl

theorem plan_cases (hkey : keys.key s.outside.1 = .ok (some key)) (hne : key ≠ [])
    (existing context : Text) :
    ∃ result, outcome (plan ((Client.scripted script).link keys) config existing context) s =
        (result, s.sent key (askDocument config (planPrompt existing context))) ∧
      ((∃ message, script s.made = .error message ∧ result = .error (apiFailure message)) ∨
        (∃ r fault, script s.made = .ok r ∧ result = .error (.fault fault) ∧
          (r.LacksText ∨ r.Overlong)) ∨
        ∃ r queries, script s.made = .ok r ∧ result = .ok queries ∧ Plans r queries) := by
  have hjson := outcome_completeJson script config hkey hne (planPrompt existing context)
  unfold plan
  cases hs : script s.made with
  | error message =>
    rw [hs] at hjson
    refine ⟨_, outcome_bind_error ?_ _, .inl ⟨message, rfl, rfl⟩⟩
    exact outcome_tryCatch_error (outcome_bind_error hjson _) _
  | ok r =>
    rw [hs] at hjson
    have hdocument : (Except.mapError apiFailure (.ok r) >>= documentOf) = documentOf r := rfl
    rw [hdocument] at hjson
    rcases documentOf_cases r with ⟨v, hv⟩ | ⟨message, hmalformed⟩ | ⟨fault, hfault, hunread⟩
    · rw [hv] at hjson
      refine ⟨_, ?_, .inr (.inr ⟨r, (queriesOf? v).getD fallbackQueries, rfl, rfl, ?_⟩)⟩
      · rw [outcome_bind_ok (outcome_tryCatch_ok (outcome_bind_ok hjson _) _)]
        rfl
      · cases hq : queriesOf? v with
        | some queries =>
          exact ⟨legible_of_ok hv, .inl (by rw [hv, queriesOf?_eq_some_iff.1 hq]; rfl)⟩
        | none =>
          refine ⟨legible_of_ok hv, .inr ⟨fun texts htexts => ?_, rfl⟩⟩
          rw [hv, Except.ok.injEq, ← queriesOf?_eq_some_iff, hq] at htexts
          exact nomatch htexts
    · rw [hmalformed] at hjson
      refine ⟨_, ?_, .inr (.inr ⟨r, fallbackQueries, rfl, rfl, legible_of_malformed hmalformed,
        .inr ⟨?_, rfl⟩⟩)⟩
      · rw [outcome_bind_ok (outcome_tryCatch_error (outcome_bind_error hjson _) _)]
        rfl
      · intro texts htexts
        exact nomatch hmalformed.symm.trans htexts
    · rw [hfault] at hjson
      refine ⟨_, outcome_bind_error ?_ _, .inr (.inl ⟨r, fault, rfl, rfl, hunread⟩)⟩
      exact outcome_tryCatch_error (outcome_bind_error hjson _) _

theorem artifactsOf_cases (hkey : keys.key s.outside.1 = .ok (some key)) (hne : key ≠ [])
    (report : Text) :
    let w := artifactsOf ((Client.scripted script).link keys) config report
    let t := s.sent key (askDocument config (artifactPrompt report))
    (∃ r items, script s.made = .ok r ∧ documentOf r = .ok (.array items) ∧
      outcome w s = (.ok (items.filterMap artifact?), t.tell (toldOf (items.filterMap artifact?)))) ∨
    (∃ failure message, (failure = .collaborator message ∨ failure = .malformed message) ∧
      outcome w s = (.error failure, t) ∧ ∀ r, script s.made = .ok r →
        Legible r ∧ ∀ items, documentOf r ≠ .ok (.array items)) ∨
    ∃ r fault, script s.made = .ok r ∧ outcome w s = (.error (.fault fault), t) ∧
      (r.LacksText ∨ r.Overlong) := by
  intro w t
  have hjson := outcome_completeJson script config hkey hne (artifactPrompt report)
  cases hs : script s.made with
  | error message =>
    rw [hs] at hjson
    exact .inr (.inl ⟨_, _, .inl rfl, outcome_bind_error hjson _, nofun⟩)
  | ok r =>
    rw [hs] at hjson
    have hdocument : (Except.mapError apiFailure (.ok r) >>= documentOf) = documentOf r := rfl
    rw [hdocument] at hjson
    rcases documentOf_cases r with ⟨v, hv⟩ | ⟨message, hmalformed⟩ | ⟨fault, hfault, hunread⟩
    · rw [hv] at hjson
      by_cases harray : ∃ items, v = .array items
      · obtain ⟨items, rfl⟩ := harray
        refine .inl ⟨r, items, rfl, hv, (outcome_bind_ok hjson _).trans ?_⟩
        exact outcome_bind_ok (outcome_forIn_log _ _ t) _
      · refine .inr (.inl ⟨_, "Malformed JSON from model: expected an array", .inr rfl,
          (outcome_bind_ok hjson _).trans ?_, ?_⟩)
        · cases v with
          | array items => exact absurd ⟨items, rfl⟩ harray
          | _ => rfl
        · rintro r' hr
          obtain rfl := Except.ok.inj hr
          exact ⟨legible_of_ok hv, fun items hitems =>
            harray ⟨items, Except.ok.inj (hv.symm.trans hitems)⟩⟩
    · rw [hmalformed] at hjson
      refine .inr (.inl ⟨_, message, .inr rfl, outcome_bind_error hjson _, ?_⟩)
      rintro r' hr
      obtain rfl := Except.ok.inj hr
      exact ⟨legible_of_malformed hmalformed, fun items hitems => nomatch hmalformed.symm.trans hitems⟩
    · rw [hfault] at hjson
      exact .inr (.inr ⟨r, fault, rfl, outcome_bind_error hjson _, hunread⟩)

theorem artifacts_cases (hkey : keys.key s.outside.1 = .ok (some key)) (hne : key ≠ [])
    (report : Text) :
    ∃ result told, outcome (artifacts ((Client.scripted script).link keys) config report) s =
        (result, (s.sent key (askDocument config (artifactPrompt report))).tell told) ∧
      ((∃ r fault, script s.made = .ok r ∧ result = .error (.fault fault) ∧
          (r.LacksText ∨ r.Overlong)) ∨
        ∃ found, result = .ok found ∧ Offers (script s.made) found told) := by
  rcases artifactsOf_cases script config hkey hne report with
    ⟨r, items, hs, hitems, h⟩ | ⟨failure, message, hfailure, h, hitems⟩ | ⟨r, fault, hs, h, hunread⟩
  · refine ⟨_, _, outcome_tryCatch_ok h _, .inr ⟨_, rfl, fun r' hr => ?_,
      .inl ⟨r, items, hs, hitems, rfl, rfl⟩⟩⟩
    obtain rfl := Except.ok.inj (hs.symm.trans hr)
    exact legible_of_ok hitems
  · refine ⟨.ok [], ["WARN: Artifact gen failed: " ++ message], ?_, .inr ⟨[], rfl,
      fun r hr => (hitems r hr).1, .inr ⟨fun r items hr => (hitems r hr).2 items, rfl, message, rfl⟩⟩⟩
    refine (outcome_tryCatch_error h _).trans ?_
    rcases hfailure with rfl | rfl <;> rfl
  · refine ⟨_, [], ?_, .inl ⟨r, fault, hs, rfl, hunread⟩⟩
    refine (outcome_tryCatch_error h _).trans ?_
    rw [ServiceState.tell_nil]
    rfl

def extracted {σ : Type} (link : Link σ) (existing report : Text) : Work σ ResearchReport := do
  log "EXTRACTING EXPLOIT DEFINITIONS & ARTIFACTS..."
  let found ← artifacts link config report
  return ⟨report, found, !existing.isEmpty⟩

theorem extracted_cases (hkey : keys.key s.outside.1 = .ok (some key)) (hne : key ≠ [])
    (existing report : Text) :
    ∃ result told,
      outcome (extracted config ((Client.scripted script).link keys) existing report) s =
        (result, (s.sent key (askDocument config (artifactPrompt report))).tell
          ("EXTRACTING EXPLOIT DEFINITIONS & ARTIFACTS..." :: told)) ∧
      ((∃ r fault, script s.made = .ok r ∧ result = .error (.fault fault) ∧
          (r.LacksText ∨ r.Overlong)) ∨
        ∃ found, result = .ok ⟨report, found, !existing.isEmpty⟩ ∧ Offers (script s.made) found told) := by
  obtain ⟨result, told, h, hcases⟩ := artifacts_cases script config
    (s := s.tell ["EXTRACTING EXPLOIT DEFINITIONS & ARTIFACTS..."]) hkey hne report
  rw [ServiceState.sent_tell, ServiceState.tell_tell] at h
  unfold extracted
  rw [outcome_log_bind]
  rcases hcases with ⟨r, fault, hs, rfl, hunread⟩ | ⟨found, rfl, hoffers⟩
  · exact ⟨_, told, outcome_bind_error h _, .inl ⟨r, fault, hs, rfl, hunread⟩⟩
  · exact ⟨_, told, outcome_bind_ok h _, .inr ⟨found, rfl, hoffers⟩⟩

def searched {σ : Type} (link : Link σ) (existing context : Text) (queries : List Text) :
    Work σ ResearchReport := do
  let reply ← send link config (askSearching config (searchPrompt queries existing context))
  log "SYNTHESIZING INTELLIGENCE..."
  let text ← orFail .fault reply.text
  let sources ← orFail .fault reply.sources
  unless sources.isEmpty do
    log ("> DATA ACQUIRED: " ++ Text.ofNat sources.length ++ " verified sources.")
  extracted config link existing (reportOf text sources)

theorem searched_cases (hkey : keys.key s.outside.1 = .ok (some key)) (hne : key ≠ [])
    (existing context : Text) (queries : List Text) :
    let search := askSearching config (searchPrompt queries existing context)
    ∃ result t,
      outcome (searched config ((Client.scripted script).link keys) existing context queries) s =
        (result, t) ∧
      ((∃ message, script s.made = .error message ∧ result = .error (apiFailure message)) ∨
        (∃ r fault, ((script s.made = .ok r ∧ (r.LacksText ∨ r.Misaddressed)) ∨
          (script (s.made + 1) = .ok r ∧ (r.LacksText ∨ r.Overlong))) ∧
            result = .error (.fault fault)) ∨
        ∃ r text sources found told, script s.made = .ok r ∧ r.text = .ok text ∧
          r.sources = .ok sources ∧ Offers (script (s.made + 1)) found told ∧
          result = .ok ⟨reportOf text sources, found, !existing.isEmpty⟩ ∧
          t = ((s.sent key search).sent key
            (askDocument config (artifactPrompt (reportOf text sources)))).tell
              (toldSearch sources ++ told)) := by
  intro search
  have hsend := outcome_send script config hkey hne search
  unfold searched
  cases hs : script s.made with
  | error message =>
    rw [hs] at hsend
    exact ⟨_, _, outcome_bind_error hsend _, .inl ⟨message, rfl, rfl⟩⟩
  | ok r =>
    rw [hs] at hsend
    rw [outcome_bind_ok hsend, outcome_log_bind]
    cases htext : r.text with
    | error fault =>
      exact ⟨_, _, outcome_bind_error (outcome_orFail _ _ _) _,
        .inr (.inl ⟨r, fault, .inl ⟨rfl, .inl (ApiReply.lacksText_of_error htext)⟩, rfl⟩)⟩
    | ok text =>
      rw [outcome_bind_ok (outcome_orFail _ _ _)]
      cases hsources : r.sources with
      | error fault =>
        exact ⟨_, _, outcome_bind_error (outcome_orFail _ _ _) _,
          .inr (.inl ⟨r, fault, .inl ⟨rfl, .inr (ApiReply.misaddressed_of_error hsources)⟩, rfl⟩)⟩
      | ok sources =>
        let acquired : List Text :=
          if sources.isEmpty then []
          else ["> DATA ACQUIRED: " ++ Text.ofNat sources.length ++ " verified sources."]
        obtain ⟨result, told, h, hcases⟩ := extracted_cases script config
          (s := ((s.sent key search).tell ["SYNTHESIZING INTELLIGENCE..."]).tell acquired) hkey hne
          existing (reportOf text sources)
        rw [outcome_bind_ok (outcome_orFail _ _ _)]
        refine ⟨result, _, (outcome_unless _ _ _ _).trans h, ?_⟩
        rw [ServiceState.made_tell, ServiceState.made_tell, ServiceState.made_sent] at hcases
        rcases hcases with ⟨r', fault, hs', rfl, hunread⟩ | ⟨found, rfl, hoffers⟩
        · exact .inr (.inl ⟨r', fault, .inr ⟨hs', hunread⟩, rfl⟩)
        · refine .inr (.inr ⟨r, text, sources, found, told, rfl, htext, hsources, hoffers, rfl, ?_⟩)
          rw [ServiceState.sent_tell, ServiceState.sent_tell, ServiceState.tell_tell,
            ServiceState.tell_tell, toldSearch, List.append_assoc, List.append_assoc]
          rfl

/-- One of the replies cannot be read: there is no text where there should be one, or a document is more
than can be read, or the address of a source has parts. -/
def Unread (n : Nat) : Prop :=
  ∃ r, (script n = .ok r ∧ (r.LacksText ∨ r.Overlong)) ∨
    (script (n + 1) = .ok r ∧ (r.LacksText ∨ r.Misaddressed)) ∨
    (script (n + 2) = .ok r ∧ (r.LacksText ∨ r.Overlong))

/-- What is made of the answers to the three calls. -/
structure Researched (n : Nat) (queries : List Text) (text : Text) (sources : List ApiReply.Source)
    (found : List Artifact) (told : List Text) : Prop where
  plan : ∃ r, script n = .ok r ∧ Plans r queries
  search : ∃ r, script (n + 1) = .ok r ∧ r.text = .ok text ∧ r.sources = .ok sources
  offers : Offers (script (n + 2)) found told

def researchCalls (existing context : Text) (queries : List Text) (report : Text) : List ApiCall :=
  [askDocument config (planPrompt existing context),
    askSearching config (searchPrompt queries existing context),
    askDocument config (artifactPrompt report)]

theorem research_eq {σ : Type} (link : Link σ) (existing context : Text) :
    research link config existing context = (do
      log "INITIALIZING TARGETED THREAT RECONNAISSANCE..."
      unless existing.isEmpty do
        log "> LOADING EXISTING INTEL FOR INCREMENTAL UPDATE..."
      let queries ← plan link config existing context
      for q in queries do
        log ("> QUEUED VECTOR: " ++ q)
      log "EXECUTING DEEP WEB SEARCH PROTOCOLS..."
      searched config link existing context queries) := rfl

theorem research_cases (hkey : keys.key s.outside.1 = .ok (some key)) (hne : key ≠ [])
    (existing context : Text) :
    ∃ result t, outcome (research ((Client.scripted script).link keys) config existing context) s =
        (result, t) ∧
      ((∃ message, (script s.made = .error message ∨ script (s.made + 1) = .error message) ∧
          result = .error (apiFailure message)) ∨
        (Unread script s.made ∧ ∃ fault, result = .error (.fault fault)) ∨
        ∃ queries text sources found told, Researched script s.made queries text sources found told ∧
          result = .ok ⟨reportOf text sources, found, !existing.isEmpty⟩ ∧
          t.outside.2 = s.outside.2 ++
            researchCalls config existing context queries (reportOf text sources) ∧
          t.progress = s.progress ++ (toldOpening existing queries ++ toldSearch sources ++ told)) := by
  let update : List Text :=
    if existing.isEmpty then [] else ["> LOADING EXISTING INTEL FOR INCREMENTAL UPDATE..."]
  let u := (s.tell ["INITIALIZING TARGETED THREAT RECONNAISSANCE..."]).tell update
  let planning := askDocument config (planPrompt existing context)
  obtain ⟨result, h, hcases⟩ := plan_cases script config (s := u) hkey hne existing context
  rw [research_eq, outcome_log_bind]
  rcases hcases with ⟨message, hs, rfl⟩ | ⟨r, fault, hs, rfl, hunread⟩ | ⟨r, queries, hs, rfl, hplans⟩
  · exact ⟨_, _, (outcome_unless _ _ _ _).trans (outcome_bind_error h _),
      .inl ⟨message, .inl hs, rfl⟩⟩
  · exact ⟨_, _, (outcome_unless _ _ _ _).trans (outcome_bind_error h _),
      .inr (.inl ⟨⟨r, .inl ⟨hs, hunread⟩⟩, fault, rfl⟩)⟩
  · let v := ((u.sent key planning).tell (queries.map fun q => "> QUEUED VECTOR: " ++ q)).tell
      ["EXECUTING DEEP WEB SEARCH PROTOCOLS..."]
    obtain ⟨result, t, hsearched, hcases⟩ :=
      searched_cases script config (s := v) hkey hne existing context queries
    have hmade : v.made = s.made + 1 := ServiceState.made_sent u key planning
    rw [hmade] at hcases
    refine ⟨result, t, (outcome_unless _ _ _ _).trans ((outcome_bind_ok h _).trans
      ((outcome_bind_ok (outcome_forIn_log _ _ _) _).trans
        ((outcome_log_bind _ _ _).trans hsearched))), ?_⟩
    rcases hcases with ⟨message, hs', rfl⟩ | ⟨r', fault, hs', rfl⟩ |
      ⟨r', text, sources, found, told, hs', htext, hsources, hoffers, rfl, rfl⟩
    · exact .inl ⟨message, .inr hs', rfl⟩
    · refine .inr (.inl ⟨⟨r', .inr hs'⟩, fault, rfl⟩)
    · refine .inr (.inr ⟨queries, text, sources, found, told,
        ⟨⟨r, hs, hplans⟩, ⟨r', hs', htext, hsources⟩, hoffers⟩, rfl, ?_, ?_⟩)
      · simp [ServiceState.tell, ServiceState.sent, researchCalls, v, u, planning]
      · simp [ServiceState.tell, ServiceState.sent, toldOpening, v, u, update]

theorem research_keyless (hkey : ∀ key, keys.key s.outside.1 = .ok (some key) → key = [])
    (existing context : Text) :
    ∃ failure t, outcome (research ((Client.scripted script).link keys) config existing context) s =
      (.error failure, t) := by
  let update : List Text :=
    if existing.isEmpty then [] else ["> LOADING EXISTING INTEL FOR INCREMENTAL UPDATE..."]
  let u := (s.tell ["INITIALIZING TARGETED THREAT RECONNAISSANCE..."]).tell update
  obtain ⟨failure, hsend, hsent⟩ := outcome_send_keyless script config (s := u) hkey
    (askDocument config (planPrompt existing context))
  have hjson : outcome (completeJson ((Client.scripted script).link keys) config
      (planPrompt existing context)) u = (.error failure, u) :=
    outcome_bind_error (outcome_bind_error hsend _) _
  have hplan : outcome (plan ((Client.scripted script).link keys) config existing context) u =
      (.error failure, u) := by
    unfold plan
    refine outcome_bind_error ((outcome_tryCatch_error (outcome_bind_error hjson _) _).trans ?_) _
    cases failure with
    | malformed message => exact absurd rfl (hsent message)
    | _ => rfl
  rw [research_eq, outcome_log_bind]
  exact ⟨failure, u, (outcome_unless _ _ _ _).trans (outcome_bind_error hplan _)⟩

end

end Engine.Service

namespace Engine

open Service

theorem attend_research {τ : Type} {client : Client τ} {config : ServiceConfig} {keys : KeyStore}
    {s : Online τ} {h : Host} {existing context : Text} {result : Except Failure ResearchReport}
    {t : ServiceState (Host × τ)}
    (hrun : Work.outcome (research (client.link keys) config existing context)
      ⟨s.key, (h, s.client), []⟩ = (result, t)) :
    (online client keys config).attend s h (.research existing context) =
      ⟨⟨t.client, t.outside.2⟩, t.progress.map .progress, result⟩ :=
  Online.run_eq hrun

/-- Research that has a result has a key, and its result is made of the answers to its three calls. -/
theorem researched_of_reply (script : Nat → Except Text ApiReply) (config : ServiceConfig)
    {keys : KeyStore} {s : Online (List ApiCall)} {h : Host} {existing context : Text}
    {result : ResearchReport}
    (hreply : ((online (.scripted script) keys config).attend s h (.research existing context)).reply =
      .ok result) :
    ∃ queries text sources found told,
      Researched script s.client.length queries text sources found told ∧
      result = ⟨reportOf text sources, found, !existing.isEmpty⟩ ∧
      ((online (.scripted script) keys config).attend s h (.research existing context)).interludes =
        (toldOpening existing queries ++ toldSearch sources ++ told).map .progress := by
  let start : ServiceState (Host × List ApiCall) := ⟨s.key, (h, s.client), []⟩
  by_cases hkey : ∃ key, keys.key h = .ok (some key) ∧ key ≠ []
  · obtain ⟨key, hkey, hne⟩ := hkey
    obtain ⟨r, t, hrun, hcases⟩ := research_cases script config (s := start) hkey hne existing context
    rw [attend_research hrun] at hreply ⊢
    have hok : r = .ok result := hreply
    rcases hcases with ⟨message, -, rfl⟩ | ⟨-, fault, rfl⟩ |
      ⟨queries, text, sources, found, told, hresearched, rfl, -, hprogress⟩
    · cases hok
    · cases hok
    · refine ⟨queries, text, sources, found, told, hresearched, (Except.ok.inj hok).symm, ?_⟩
      rw [hprogress]
      rfl
  · have hkeyless : ∀ key, keys.key h = .ok (some key) → key = [] := by
      intro key hfound
      exact Decidable.not_not.1 fun hne => hkey ⟨key, hfound, hne⟩
    obtain ⟨failure, t, hrun⟩ :=
      research_keyless script config (s := start) hkeyless existing context
    rw [attend_research hrun] at hreply
    cases hreply

/-- Research with a key fails where the service does not answer one of the first two calls, and where a
reply cannot be read. In every other case it has a result: what there is to be made of the replies. -/
theorem online_research (script : Nat → Except Text ApiReply) (config : ServiceConfig) {keys : KeyStore}
    {h : Host} {key : Text} (hkey : keys.key h = .ok (some key)) (hne : key ≠ [])
    (s : Online (List ApiCall)) (existing context : Text) :
    let n := s.client.length
    let a := (online (.scripted script) keys config).attend s h (.research existing context)
    (∃ message, (script n = .error message ∨ script (n + 1) = .error message) ∧
      a.reply = .error (apiFailure message)) ∨
    (Unread script n ∧ ∃ fault, a.reply = .error (.fault fault)) ∨
    ∃ queries text sources found told, Researched script n queries text sources found told ∧
      a.reply = .ok ⟨reportOf text sources, found, !existing.isEmpty⟩ ∧
      a.state.client =
        s.client ++ researchCalls config existing context queries (reportOf text sources) ∧
      a.interludes = (toldOpening existing queries ++ toldSearch sources ++ told).map .progress := by
  intro n a
  obtain ⟨result, t, hrun, hcases⟩ := research_cases script config
    (s := (⟨s.key, (h, s.client), []⟩ : ServiceState (Host × List ApiCall))) hkey hne existing context
  have ha : a = ⟨⟨t.client, t.outside.2⟩, t.progress.map .progress, result⟩ := attend_research hrun
  rw [ha]
  rcases hcases with hunanswered | hunread | ⟨queries, text, sources, found, told, hresearched, hreply, hcalls, htold⟩
  · exact .inl hunanswered
  · exact .inr (.inl hunread)
  · refine .inr (.inr ⟨queries, text, sources, found, told, hresearched, hreply, hcalls, ?_⟩)
    rw [htold]
    rfl

theorem online_research_without_plan :
    let script : Nat → Except Text ApiReply := fun n =>
      if n = 0 then .ok (.saying "no plan")
      else .ok (.saying
        "[7, \x7b\"name\": \"a\"\x7d, \x7b\"name\": \"b\", \"content\": \"\"\x7d]")
    let keys : KeyStore := ⟨HostPath.ofText "/k", KeyStore.defaultVariable⟩
    let host : Host := ⟨0, [(KeyStore.defaultVariable, "k")], HostPath.ofText "/", [], [], []⟩
    let a := (online (.scripted script) keys ⟨.null, 1, 1⟩).attend ⟨none, []⟩ host (.research [] [])
    keys.key host = .ok (some "k") ∧ ∃ result text sources told, a.reply = .ok result ∧
      Researched script 0 fallbackQueries text sources result.artifacts told ∧
      result.artifacts.map Artifact.name = ["b"] := by
  intro script keys host a
  have hkey : keys.key host = .ok (some "k") := rfl
  have hnames : a.reply.toOption.map (fun result => result.artifacts.map Artifact.name) =
      some [("b" : Text)] := by
    decide +kernel
  have hplan : (documentOf (.saying "no plan")).toOption.isNone = true := by decide +kernel
  refine ⟨hkey, ?_⟩
  rcases online_research script ⟨.null, 1, 1⟩ hkey (by decide) ⟨none, []⟩ [] [] with
    ⟨message, -, h⟩ | ⟨-, fault, h⟩ | ⟨queries, text, sources, found, told, h, hreply, -, -⟩
  · rw [show a.reply = _ from h] at hnames
    cases hnames
  · rw [show a.reply = _ from h] at hnames
    cases hnames
  · rw [show a.reply = _ from hreply] at hnames ⊢
    obtain ⟨r, hr, -, hqueries⟩ := h.plan
    obtain rfl := Except.ok.inj hr
    rcases hqueries with hv | ⟨-, rfl⟩
    · rw [show documentOf (.saying "no plan") = _ from hv] at hplan
      cases hplan
    · exact ⟨_, text, sources, told, rfl, h, Option.some.inj hnames⟩

/-- Replies that are an integer of too many digits end the research with what is no failure of the
service. -/
theorem online_research_tooLong :
    let script : Nat → Except Text ApiReply := fun _ =>
      .ok (.saying (Text.ofNat (tenTo Integer.digitLimit)))
    let keys : KeyStore := ⟨HostPath.ofText "/k", KeyStore.defaultVariable⟩
    let host : Host := ⟨0, [(KeyStore.defaultVariable, "k")], HostPath.ofText "/", [], [], []⟩
    let a := (online (.scripted script) keys ⟨.null, 1, 1⟩).attend ⟨none, []⟩ host (.research [] [])
    keys.key host = .ok (some "k") ∧ (∀ n, ∃ r, script n = .ok r) ∧ (¬ ∃ result, a.reply = .ok result) ∧
      ∀ failure, a.reply = .error failure → failure.isCollaborator = false := by
  -- The integer stays a variable, so that it is never computed.
  generalize hn : tenTo Integer.digitLimit = n
  intro script keys host a
  have hkey : keys.key host = .ok (some "k") := rfl
  have htext : (ApiReply.saying (Text.ofNat n)).text = .ok (Text.ofNat n) := by
    rw [ApiReply.text_saying, (isWord_ofNat n).isTrimmed.trim (isWord_ofNat n).1]
  obtain ⟨result, t, hrun, hcases⟩ := research_cases script ⟨.null, 1, 1⟩
    (s := (⟨none, (host, []), []⟩ : ServiceState (Host × List ApiCall))) hkey (by decide) [] []
  have ha : a = ⟨⟨t.client, t.outside.2⟩, t.progress.map .progress, result⟩ := attend_research hrun
  have hfault : ∃ fault, result = .error (.fault fault) := by
    rcases hcases with ⟨message, hs | hs, -⟩ | ⟨-, h⟩ | ⟨queries, _, _, _, _, h, -⟩
    · cases hs
    · cases hs
    · exact h
    · obtain ⟨r, hr, hlegible, -⟩ := h.plan
      obtain rfl := Except.ok.inj hr
      exact absurd (documentOf_tooLong hn.le htext) (hlegible _)
  obtain ⟨fault, rfl⟩ := hfault
  rw [ha]
  refine ⟨hkey, fun m => ⟨_, rfl⟩, ?_, ?_⟩
  · rintro ⟨result, hresult⟩
    cases hresult
  · intro failure hfailure
    obtain rfl := Except.error.inj hfailure
    rfl

end Engine

end ThreatDesk
