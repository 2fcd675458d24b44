import ThreatDesk.Proofs.Engine.Researching
import ThreatDesk.Proofs.Host.KeyFile

/-!
# Which key a client is used with

Whatever the engine is asked to do, it looks the key up first. Without one it is refused and nothing is
asked of a client (`Heeds.refused`). With one, a client is made for it unless the last one was made for the
same, and all calls are made with that key (`Contacted`). Getting ready is where this is decided
(`ready_contacted`); it goes for every call, and for what is made of calls. Main statements:
`Errand.refused`, `Errand.served`.
-/

namespace ThreatDesk

variable {σ τ α β : Type}

inductive Contact
  | connected (key : Text) (timeout : Int)
  | called (key : Text) (call : ApiCall)

/-- The client with a record of all that is asked of it. -/
def Client.logged (c : Client τ) : Client (List Contact × τ) where
  connect := fun key timeout (log, t) =>
    let (done, t) := c.connect key timeout t
    (done, (log ++ [.connected key timeout], t))
  create := fun key call (log, t) =>
    let (reply, t) := c.create key call t
    (reply, (log ++ [.called key call], t))

def Client.Connects (c : Client τ) : Prop := ∀ key timeout t, (c.connect key timeout t).1 = .ok ()

namespace Engine

/-- Between the two states nothing was asked of a client. -/
structure Idle (s t : ServiceState (Host × List Contact × τ)) : Prop where
  client : t.client = s.client
  outside : t.outside = s.outside

/-- Between the two states a client was made for the key, unless there was one, and made some calls. -/
structure Contacted (timeout : Int) (key : Text) (s t : ServiceState (Host × List Contact × τ)) : Prop where
  client : t.client = some key
  host : t.outside.1 = s.outside.1
  contacts : ∃ calls : List ApiCall, t.outside.2.1 = s.outside.2.1 ++
    (if s.client = some key then [] else [.connected key timeout]) ++ calls.map (.called key)

theorem Idle.refl (s : ServiceState (Host × List Contact × τ)) : Idle s s := ⟨rfl, rfl⟩

variable {timeout : Int} {key : Text} {s t u : ServiceState (Host × List Contact × τ)}

theorem Contacted.after_idle (h : Idle s t) (k : Contacted timeout key t u) : Contacted timeout key s u where
  client := k.client
  host := by rw [k.host, h.outside]
  contacts := by
    obtain ⟨calls, hcalls⟩ := k.contacts
    refine ⟨calls, ?_⟩
    rw [hcalls, h.client, h.outside]

theorem Contacted.then_idle (h : Contacted timeout key s t) (k : Idle t u) : Contacted timeout key s u where
  client := k.client.trans h.client
  host := by rw [k.outside, h.host]
  contacts := by rw [k.outside]; exact h.contacts

theorem Contacted.trans (h : Contacted timeout key s t) (k : Contacted timeout key t u) :
    Contacted timeout key s u where
  client := k.client
  host := k.host.trans h.host
  contacts := by
    obtain ⟨calls, hcalls⟩ := h.contacts
    obtain ⟨more, hmore⟩ := k.contacts
    refine ⟨calls ++ more, ?_⟩
    rw [hmore, hcalls, if_pos h.client, List.append_nil, List.map_append, List.append_assoc]

/-! ## Work that minds the key -/

/-- With a key, the work does not miss one, and if it asks anything of a client it is with that key. -/
def Mild (keys : KeyStore) (timeout : Int) (w : Work (Host × List Contact × τ) α) : Prop :=
  ∀ s key, keys.key s.outside.1 = .ok (some key) → (w.outcome s).1 ≠ .error .missingCredential ∧
    (Idle s (w.outcome s).2 ∨ Contacted timeout key s (w.outcome s).2)

/-- The work is refused without a key, and with one it is done by a client for that key. -/
structure Heeds (keys : KeyStore) (timeout : Int) (w : Work (Host × List Contact × τ) α) : Prop where
  refused : ∀ s, keys.key s.outside.1 = .ok none →
    (w.outcome s).1 = .error .missingCredential ∧ Idle s (w.outcome s).2
  served : ∀ s key, keys.key s.outside.1 = .ok (some key) →
    (w.outcome s).1 ≠ .error .missingCredential ∧ Contacted timeout key s (w.outcome s).2

variable {keys : KeyStore} {w : Work (Host × List Contact × τ) α}

theorem Heeds.mild (h : Heeds keys timeout w) : Mild keys timeout w := fun s key hkey =>
  (h.served s key hkey).imp_right .inr

theorem host_of_done (h : Idle s t ∨ Contacted timeout key s t) : t.outside.1 = s.outside.1 :=
  h.elim (fun h => by rw [h.outside]) fun h => h.host

theorem Mild.bind {f : α → Work (Host × List Contact × τ) β} (hw : Mild keys timeout w)
    (hf : ∀ a, Mild keys timeout (f a)) : Mild keys timeout (w >>= f) := by
  intro s key hkey
  obtain ⟨hmissed, hdone⟩ := hw s key hkey
  rcases Work.outcome_bind_cases w f s with ⟨failure, t, hr, hbind⟩ | ⟨a, t, hr, hbind⟩
  · rw [hr] at hmissed hdone
    rw [hbind]
    exact ⟨fun h => hmissed (congrArg _ (Except.error.inj h)), hdone⟩
  · rw [hr] at hdone
    rw [hbind]
    obtain ⟨hmissed', hdone'⟩ := hf a t key (host_of_done hdone ▸ hkey)
    refine ⟨hmissed', ?_⟩
    -- A client is made by the first part that asks one for anything, and not again by the second.
    rcases hdone, hdone' with ⟨h | h, k | k⟩
    · exact .inl ⟨k.client.trans h.client, k.outside.trans h.outside⟩
    · exact .inr (k.after_idle h)
    · exact .inr (h.then_idle k)
    · exact .inr (h.trans k)

theorem Heeds.bind {f : α → Work (Host × List Contact × τ) β} (hw : Heeds keys timeout w)
    (hf : ∀ a, Mild keys timeout (f a)) : Heeds keys timeout (w >>= f) where
  refused s hkey := by
    obtain ⟨hmissed, hidle⟩ := hw.refused s hkey
    rcases Work.outcome_bind_cases w f s with ⟨failure, t, hr, hbind⟩ | ⟨a, t, hr, hbind⟩
    · rw [hr] at hmissed hidle
      rw [hbind]
      exact ⟨congrArg _ (Except.error.inj hmissed), hidle⟩
    · rw [hr] at hmissed
      exact nomatch hmissed
  served s key hkey := by
    obtain ⟨hmissed, hdone⟩ := hw.served s key hkey
    rcases Work.outcome_bind_cases w f s with ⟨failure, t, hr, hbind⟩ | ⟨a, t, hr, hbind⟩
    · rw [hr] at hmissed hdone
      rw [hbind]
      exact ⟨fun h => hmissed (congrArg _ (Except.error.inj h)), hdone⟩
    · rw [hr] at hdone
      rw [hbind]
      obtain ⟨hmissed', hdone'⟩ := hf a t key (hdone.host ▸ hkey)
      exact ⟨hmissed', hdone'.elim hdone.then_idle hdone.trans⟩

theorem Heeds.tryCatch {f : Failure → Work (Host × List Contact × τ) α} (hw : Heeds keys timeout w)
    (hmissing : f .missingCredential = throw .missingCredential)
    (hf : ∀ failure, failure ≠ .missingCredential → Mild keys timeout (f failure)) :
    Heeds keys timeout (tryCatch w f) where
  refused s hkey := by
    obtain ⟨hmissed, hidle⟩ := hw.refused s hkey
    generalize hr : w.outcome s = r at hmissed hidle
    obtain ⟨r, t⟩ := r
    obtain rfl : r = .error .missingCredential := hmissed
    rw [Work.outcome_tryCatch_error hr, hmissing]
    exact ⟨rfl, hidle⟩
  served s key hkey := by
    obtain ⟨hmissed, hdone⟩ := hw.served s key hkey
    generalize hr : w.outcome s = r at hmissed hdone
    obtain ⟨r, t⟩ := r
    cases r with
    | ok a =>
      rw [Work.outcome_tryCatch_ok hr]
      exact ⟨nofun, hdone⟩
    | error failure =>
      rw [Work.outcome_tryCatch_error hr]
      obtain ⟨hmissed', hdone'⟩ := hf failure (fun h => hmissed (congrArg _ h)) t key
        (hdone.host ▸ hkey)
      exact ⟨hmissed', hdone'.elim hdone.then_idle hdone.trans⟩

theorem mild_of_idle (h : ∀ s, (w.outcome s).1 ≠ .error .missingCredential ∧ Idle s (w.outcome s).2) :
    Mild keys timeout w := fun s _ _ => (h s).imp_right .inl

theorem mild_pure (a : α) : Mild keys timeout (pure a : Work (Host × List Contact × τ) α) :=
  mild_of_idle fun s => ⟨nofun, .refl s⟩

theorem mild_throw {failure : Failure} (h : failure ≠ .missingCredential) :
    Mild keys timeout (throw failure : Work (Host × List Contact × τ) α) :=
  mild_of_idle fun s => ⟨fun heq => h (Except.error.inj heq), .refl s⟩

namespace Service

open Work

theorem mild_log (text : Text) : Mild keys timeout (log text : Work (Host × List Contact × τ) Unit) :=
  mild_of_idle fun _ => ⟨nofun, rfl, rfl⟩

theorem mild_orFail {ε : Type} {failure : ε → Failure} (h : ∀ e, failure e ≠ .missingCredential)
    (x : Except ε α) : Mild keys timeout (orFail failure x : Work (Host × List Contact × τ) α) := by
  cases x with
  | ok a => exact mild_pure a
  | error e => exact mild_throw (h e)

theorem heeds_log_bind (text : Text) {f : Unit → Work (Host × List Contact × τ) α}
    (hf : Heeds keys timeout (f ())) : Heeds keys timeout (log text >>= f) where
  refused s hkey := by
    rw [outcome_log_bind]
    obtain ⟨hmissed, hidle⟩ := hf.refused (s.tell [text]) hkey
    exact ⟨hmissed, hidle.client, hidle.outside⟩
  served s key hkey := by
    rw [outcome_log_bind]
    obtain ⟨hmissed, hdone⟩ := hf.served (s.tell [text]) key hkey
    exact ⟨hmissed, Contacted.after_idle (t := s.tell [text]) ⟨rfl, rfl⟩ hdone⟩

theorem heeds_unless {b : Bool} {text : Text} {f : Unit → Work (Host × List Contact × τ) α}
    (hf : Heeds keys timeout (f ())) :
    Heeds keys timeout (if b = true then f () else log text >>= f) := by
  split
  · exact hf
  · exact heeds_log_bind text hf

theorem mild_unless {b : Bool} {text : Text} {f : Unit → Work (Host × List Contact × τ) α}
    (hf : Mild keys timeout (f ())) :
    Mild keys timeout (if b = true then f () else log text >>= f) := by
  split
  · exact hf
  · exact (mild_log text).bind fun _ => hf

theorem mild_orFault (x : Except Fault α) :
    Mild keys timeout (orFail .fault x : Work (Host × List Contact × τ) α) :=
  mild_orFail (fun _ heq => by cases heq) x

theorem mild_forIn_log (items : List β) (text : β → Text) :
    Mild keys timeout (forIn items PUnit.unit fun a _ => do
      log (text a)
      pure (ForInStep.yield PUnit.unit) : Work (Host × List Contact × τ) PUnit) :=
  mild_of_idle fun s => by
    rw [outcome_forIn_log]
    exact ⟨nofun, rfl, rfl⟩

/-! ## Calls -/

variable {c : Client τ} (keys : KeyStore) (config : ServiceConfig)

theorem link_key {found : Option Text} (hkey : keys.key s.outside.1 = .ok found) :
    (c.logged.link keys).key s.outside = (.ok found, s.outside) := by
  simp only [Client.link, hkey]
  rfl

section Connecting

variable (hc : c.Connects)

include hc

theorem ready_contacted (hkey : keys.key s.outside.1 = .ok (some key)) :
    ∃ t, outcome (ready (c.logged.link keys) config) s = (.ok key, t) ∧
      Contacted config.timeout key s t := by
  refine ⟨_, ready_served config (link_key keys hkey) (keys.key_ne_nil hkey)
    (hc key config.timeout s.outside.2.2), rfl, ?_, [], ?_⟩
  · show (if s.client = some key then s.outside else _).1 = s.outside.1
    split <;> rfl
  · show (if s.client = some key then s.outside else _).2.1 = _
    rw [List.map_nil, List.append_nil]
    split
    · exact (List.append_nil _).symm
    · rfl

theorem heeds_ready : Heeds keys config.timeout (ready (c.logged.link keys) config) where
  refused s hkey := by
    rw [ready_refused config (link_key keys hkey)]
    exact ⟨rfl, .refl s⟩
  served s key hkey := by
    obtain ⟨t, hr, hdone⟩ := ready_contacted keys config hc hkey
    rw [hr]
    exact ⟨nofun, hdone⟩

theorem heeds_send (call : ApiCall) :
    Heeds keys config.timeout (send (c.logged.link keys) config call) where
  refused s hkey := by
    unfold send
    rw [outcome_bind_error (ready_refused config (link_key keys hkey))]
    exact ⟨rfl, .refl s⟩
  served s key hkey := by
    -- Not `Heeds.bind`: the call is minded only with the key that getting ready has come to.
    obtain ⟨t, hr, hdone⟩ := ready_contacted keys config hc hkey
    unfold send
    rw [outcome_bind_ok hr, outcome_reach]
    constructor
    · generalize ((c.logged.link keys).create key call t.outside).1 = reply
      cases reply <;> exact nofun
    · refine hdone.trans ⟨hdone.client, rfl, [call], ?_⟩
      rw [if_pos hdone.client, List.append_nil]
      rfl

/-! ## The requests -/

theorem heeds_complete (call : ApiCall) :
    Heeds keys config.timeout (complete (c.logged.link keys) config call) :=
  (heeds_send keys config hc call).bind fun _ => mild_orFault _

theorem heeds_completeJson (prompt : Text) :
    Heeds keys config.timeout (completeJson (c.logged.link keys) config prompt) := by
  refine (heeds_complete keys config hc _).bind fun _ => mild_orFail (fun fault => ?_) _
  cases fault <;> exact nofun

theorem heeds_plan (existing context : Text) :
    Heeds keys config.timeout (plan (c.logged.link keys) config existing context) := by
  have hread := (heeds_completeJson keys config hc (planPrompt existing context)).bind
    fun v => mild_pure (some v)
  unfold plan
  refine Heeds.bind (hread.tryCatch rfl fun failure hfailure => ?_) fun _ => mild_pure _
  cases failure with
  | malformed => exact mild_pure none
  | missingCredential => exact absurd rfl hfailure
  | collaborator | unusable | fault => exact mild_throw hfailure

theorem heeds_artifactsOf (report : Text) :
    Heeds keys config.timeout (artifactsOf (c.logged.link keys) config report) := by
  refine (heeds_completeJson keys config hc _).bind fun v => ?_
  split
  · exact (mild_forIn_log _ fun a : Artifact => "> GENERATED ARTIFACT: " ++ a.name).bind
      fun _ => mild_pure _
  · exact mild_throw nofun

theorem heeds_artifacts (report : Text) :
    Heeds keys config.timeout (artifacts (c.logged.link keys) config report) := by
  refine (heeds_artifactsOf keys config hc report).tryCatch rfl fun failure hfailure => ?_
  cases failure with
  | collaborator | malformed => exact (mild_log _).bind fun _ => mild_pure _
  | missingCredential => exact absurd rfl hfailure
  | unusable | fault => exact mild_throw hfailure

theorem heeds_searched (existing context : Text) (queries : List Text) :
    Heeds keys config.timeout (searched config (c.logged.link keys) existing context queries) := by
  refine (heeds_send keys config hc _).bind fun _ => (mild_log _).bind fun _ => ?_
  refine (mild_orFault _).bind fun _ => (mild_orFault _).bind fun _ => mild_unless ?_
  exact (mild_log _).bind fun _ => (heeds_artifacts keys config hc _).mild.bind fun _ => mild_pure _

theorem heeds_research (existing context : Text) :
    Heeds keys config.timeout (research (c.logged.link keys) config existing context) := by
  rw [research_eq]
  refine heeds_log_bind _ (heeds_unless ((heeds_plan keys config hc existing context).bind fun queries => ?_))
  exact (mild_forIn_log queries fun q => "> QUEUED VECTOR: " ++ q).bind fun _ => (mild_log _).bind
    fun _ => (heeds_searched keys config hc existing context queries).mild

theorem heeds_scan (definitions : List Text) :
    Heeds keys config.timeout (scan (c.logged.link keys) config definitions) := by
  refine (heeds_ready keys config hc).bind fun _ => (mild_log _).bind fun _ => ?_
  split
  · exact mild_pure _
  · exact (mild_log _).bind fun _ => (heeds_complete keys config hc _).mild.bind fun _ => mild_pure _

theorem heeds_answer (q : Request) :
    Heeds keys config.timeout (answer (c.logged.link keys) config q) := by
  cases q with
  | document | code => exact (heeds_complete keys config hc _).bind fun _ => mild_pure _
  | research existing context => exact heeds_research keys config hc existing context
  | browse => exact heeds_log_bind _ ((heeds_complete keys config hc _).bind fun _ => mild_pure _)
  | scan definitions => exact heeds_scan keys config hc definitions
  | chat =>
    exact (heeds_send keys config hc _).bind fun _ => (mild_orFault _).bind
      fun _ => (mild_orFault _).bind fun _ => mild_pure _

theorem heeds_ping : Heeds keys config.timeout (do
    let _ ← complete (c.logged.link keys) config { ask config "ping" with maxTokens := 10 }
    return true) :=
  (heeds_complete keys config hc _).bind fun _ => mild_pure true

theorem health_refused {s : ServiceState (Host × List Contact × τ)} (hkey : keys.key s.outside.1 = .ok none) :
    (outcome (health (c.logged.link keys) config) s).1 = .ok false ∧
      Idle s (outcome (health (c.logged.link keys) config) s).2 := by
  obtain ⟨hmissed, hidle⟩ := (heeds_ping keys config hc).refused s hkey
  -- A missing key counts as a service that does not answer.
  unfold health
  rw [outcome_tryCatch_error (Prod.ext hmissed rfl)]
  exact ⟨rfl, hidle⟩

theorem health_served {s : ServiceState (Host × List Contact × τ)} {key : Text}
    (hkey : keys.key s.outside.1 = .ok (some key)) :
    (outcome (health (c.logged.link keys) config) s).1 ≠ .error .missingCredential ∧
      Contacted config.timeout key s (outcome (health (c.logged.link keys) config) s).2 := by
  obtain ⟨-, hdone⟩ := (heeds_ping keys config hc).served s key hkey
  unfold health
  generalize hr : outcome _ s = r at hdone
  obtain ⟨r, t⟩ := r
  cases r with
  | ok answered =>
    rw [outcome_tryCatch_ok hr]
    exact ⟨nofun, hdone⟩
  | error failure =>
    rw [outcome_tryCatch_error hr]
    cases failure <;> exact ⟨nofun, hdone⟩

end Connecting

end Service

/-! ## Errands -/

inductive Errand
  | request (q : Request)
  | health

namespace Errand

def Answer : Errand → Type
  | request q => q.Answer
  | health => Bool

def work {σ : Type} (link : Link σ) (config : ServiceConfig) : (e : Errand) → Work σ e.Answer
  | request q => Service.answer link config q
  | health => Service.health link config

def refusal : (e : Errand) → Except Failure e.Answer
  | request _ => .error .missingCredential
  | health => .ok false

variable {c : Client τ} (hc : c.Connects) (keys : KeyStore) (config : ServiceConfig)
  {s : ServiceState (Host × List Contact × τ)}

include hc

theorem refused (e : Errand) (hkey : keys.key s.outside.1 = .ok none) :
    ((e.work (c.logged.link keys) config).outcome s).1 = e.refusal ∧
      Idle s ((e.work (c.logged.link keys) config).outcome s).2 := by
  cases e with
  | request q => exact (Service.heeds_answer keys config hc q).refused s hkey
  | health => exact Service.health_refused keys config hc hkey

theorem served (e : Errand) {key : Text} (hkey : keys.key s.outside.1 = .ok (some key)) :
    ((e.work (c.logged.link keys) config).outcome s).1 ≠ .error .missingCredential ∧
      Contacted config.timeout key s ((e.work (c.logged.link keys) config).outcome s).2 := by
  cases e with
  | request q => exact (Service.heeds_answer keys config hc q).served s key hkey
  | health => exact Service.health_served keys config hc hkey

end Errand

end Engine

end ThreatDesk
