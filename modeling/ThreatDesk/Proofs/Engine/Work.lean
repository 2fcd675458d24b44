import ThreatDesk.Engine.Online
import ThreatDesk.Proofs.Results

/-!
# What work comes to

Work of the service, run from a state, comes to a result and a state (`Work.outcome`), and what it is
made of comes to what its parts do. A client that answers from a script (`Client.scripted`) makes of a
call the next entry of that script (`outcome_send`).
-/

namespace ThreatDesk

variable {σ α β : Type}

namespace Engine

def Work.outcome (w : Work σ α) (s : ServiceState σ) : Except Failure α × ServiceState σ :=
  (ExceptT.run w).run s

namespace Work

variable {w : Work σ α} {s t : ServiceState σ}

theorem outcome_bind_ok {a : α} (h : outcome w s = (.ok a, t)) (f : α → Work σ β) :
    outcome (w >>= f) s = outcome (f a) t := by
  unfold outcome at h ⊢
  rw [ExceptT.run_bind, StateT.run_bind, h]
  rfl

theorem outcome_bind_error {failure : Failure} (h : outcome w s = (.error failure, t))
    (f : α → Work σ β) : outcome (w >>= f) s = (.error failure, t) := by
  unfold outcome at h ⊢
  rw [ExceptT.run_bind, StateT.run_bind, h]
  rfl

theorem outcome_bind_cases (w : Work σ α) (f : α → Work σ β) (s : ServiceState σ) :
    (∃ failure t, outcome w s = (.error failure, t) ∧ outcome (w >>= f) s = (.error failure, t)) ∨
      ∃ a t, outcome w s = (.ok a, t) ∧ outcome (w >>= f) s = outcome (f a) t := by
  generalize hw : outcome w s = r
  obtain ⟨r, t⟩ := r
  cases r with
  | error failure => exact .inl ⟨failure, t, rfl, outcome_bind_error hw f⟩
  | ok a => exact .inr ⟨a, t, rfl, outcome_bind_ok hw f⟩

theorem exists_of_bind {f : α → Work σ β} {b : β} {u : ServiceState σ}
    (h : outcome (w >>= f) s = (.ok b, u)) :
    ∃ a t, outcome w s = (.ok a, t) ∧ outcome (f a) t = (.ok b, u) := by
  rcases outcome_bind_cases w f s with ⟨failure, t, -, hbind⟩ | ⟨a, t, hw, hbind⟩
  · exact nomatch hbind.symm.trans h
  · exact ⟨a, t, hw, hbind.symm.trans h⟩

theorem outcome_tryCatch_ok {a : α} (h : outcome w s = (.ok a, t)) (f : Failure → Work σ α) :
    outcome (tryCatch w f) s = (.ok a, t) := by
  unfold outcome at h ⊢
  rw [ExceptT.run_tryCatch, StateT.run_bind, h]
  rfl

theorem outcome_tryCatch_error {failure : Failure} (h : outcome w s = (.error failure, t))
    (f : Failure → Work σ α) : outcome (tryCatch w f) s = outcome (f failure) t := by
  unfold outcome at h ⊢
  rw [ExceptT.run_tryCatch, StateT.run_bind, h]
  rfl

end Work

def ServiceState.tell (s : ServiceState σ) (texts : List Text) : ServiceState σ :=
  { s with progress := s.progress ++ texts }

theorem ServiceState.tell_nil (s : ServiceState σ) : s.tell [] = s := by
  rw [tell, List.append_nil]

theorem ServiceState.tell_tell (s : ServiceState σ) (texts more : List Text) :
    (s.tell texts).tell more = s.tell (texts ++ more) := by
  simp [tell]

namespace Service

open Work

@[simp] theorem outcome_log (text : Text) (s : ServiceState σ) :
    outcome (log text : Work σ Unit) s = (.ok (), s.tell [text]) := rfl

theorem outcome_log_bind (text : Text) (f : Unit → Work σ β) (s : ServiceState σ) :
    outcome (log text >>= f) s = outcome (f ()) (s.tell [text]) :=
  outcome_bind_ok (outcome_log text s) f

theorem outcome_forIn_log (items : List α) (text : α → Text) (s : ServiceState σ) :
    outcome (forIn items PUnit.unit fun a _ => do
      log (text a)
      pure (ForInStep.yield PUnit.unit) : Work σ PUnit) s = (.ok PUnit.unit, s.tell (items.map text)) := by
  induction items generalizing s with
  | nil => rw [List.forIn_nil, List.map_nil, ServiceState.tell_nil]; rfl
  | cons a items ih =>
    rw [List.forIn_cons, bind_assoc, outcome_log_bind, pure_bind]
    refine (ih (s.tell [text a])).trans ?_
    rw [ServiceState.tell_tell]
    rfl

theorem outcome_unless (b : Bool) (text : Text) (f : Unit → Work σ β) (s : ServiceState σ) :
    outcome (if b = true then f () else log text >>= f) s =
      outcome (f ()) (s.tell (if b then [] else [text])) := by
  cases b
  · exact outcome_log_bind text f s
  · exact congrArg (outcome (f ())) (ServiceState.tell_nil s).symm

@[simp] theorem outcome_orFail {ε : Type} (failure : ε → Failure) (x : Except ε α)
    (s : ServiceState σ) : outcome (orFail failure x : Work σ α) s = (x.mapError failure, s) := by
  cases x <;> rfl

theorem outcome_bind_orFail {ε : Type} {w : Work σ α} {s t : ServiceState σ} {r : Except Failure α}
    (h : outcome w s = (r, t)) (failure : ε → Failure) (f : α → Except ε β) :
    outcome (w >>= fun a => orFail failure (f a)) s = (r >>= fun a => (f a).mapError failure, t) := by
  cases r with
  | error e => exact outcome_bind_error h _
  | ok a =>
    rw [outcome_bind_ok h, outcome_orFail]
    rfl

theorem outcome_reach {ε : Type} (act : σ → Except ε α × σ) (failure : ε → Failure)
    (s : ServiceState σ) :
    outcome (reach act failure) s =
      ((act s.outside).1.mapError failure, { s with outside := (act s.outside).2 }) := by
  show outcome (do let s ← get; _ : Work σ α) s = _
  have hget : outcome (get : Work σ (ServiceState σ)) s = (.ok s, s) := rfl
  rw [outcome_bind_ok hget]
  generalize act s.outside = r
  obtain ⟨reply, outside⟩ := r
  cases reply <;> rfl

/-! ## Getting ready -/

section Readiness

variable {link : Link σ} (config : ServiceConfig) {key : Text} {s : ServiceState σ}

theorem ready_refused (hkey : link.key s.outside = (.ok none, s.outside)) :
    outcome (ready link config) s = (.error .missingCredential, s) := by
  have hfound : outcome (reach link.key .fault) s = (.ok none, s) := by
    rw [outcome_reach, hkey]
    rfl
  unfold ready
  rw [outcome_bind_ok hfound]
  rfl

/-- A client is ready for the key in force: it is made unless the last one was made for that key. -/
theorem ready_served (hkey : link.key s.outside = (.ok (some key), s.outside)) (hne : key ≠ [])
    (hconnect : (link.connect key config.timeout s.outside).1 = .ok ()) :
    outcome (ready link config) s = (.ok key, { s with
      client := some key
      outside := if s.client = some key then s.outside
        else (link.connect key config.timeout s.outside).2 }) := by
  have hfound : outcome (reach link.key .fault) s = (.ok (some key), s) := by
    rw [outcome_reach, hkey]
    rfl
  have hpresent : ¬ (key.isEmpty = true) := fun h => hne (List.isEmpty_iff.1 h)
  have hget : outcome (get : Work σ (ServiceState σ)) s = (.ok s, s) := rfl
  unfold ready
  rw [outcome_bind_ok hfound]
  simp only [if_neg hpresent]
  rw [outcome_bind_ok hget]
  split
  · next hclient =>
    have hmade : outcome (reach (link.connect key config.timeout) fun message =>
        .fault (.noClient message)) s =
          (.ok (), { s with outside := (link.connect key config.timeout s.outside).2 }) := by
      rw [outcome_reach, hconnect]
      rfl
    rw [outcome_bind_ok hmade]
    rfl
  · next hclient =>
    have hclient : s.client = some key := Decidable.not_not.1 hclient
    rw [if_pos hclient, ← hclient]
    rfl

end Readiness

end Service

end Engine

theorem Engine.Online.run_eq {τ : Type} {s : Engine.Online τ} {h : Host}
    {w : Engine.Work (Host × τ) α} {r : Except Engine.Failure α} {t : Engine.ServiceState (Host × τ)}
    (hw : w.outcome ⟨s.key, (h, s.client), []⟩ = (r, t)) :
    s.run h w = ⟨⟨t.client, t.outside.2⟩, t.progress.map .progress, r⟩ := by
  unfold Engine.Online.run
  rw [show (ExceptT.run w).run ⟨s.key, (h, s.client), []⟩ = (r, t) from hw]

/-! ## Scripts -/

/-- The client that answers the calls in order from a script, and keeps a record of them. -/
def Client.scripted (script : Nat → Except Text ApiReply) : Client (List ApiCall) where
  connect := fun _ _ calls => (.ok (), calls)
  create := fun _ call calls => (script calls.length, calls ++ [call])

namespace Engine

def apiFailure (message : Text) : Failure := .collaborator ("Anthropic API error: " ++ message)

def ServiceState.sent (s : ServiceState (Host × List ApiCall)) (key : Text) (call : ApiCall) :
    ServiceState (Host × List ApiCall) :=
  { s with client := some key, outside := (s.outside.1, s.outside.2 ++ [call]) }

def ServiceState.made (s : ServiceState (Host × List ApiCall)) : Nat := s.outside.2.length

namespace ServiceState

variable (s : ServiceState (Host × List ApiCall)) (texts : List Text) (key : Text) (call : ApiCall)

theorem sent_tell : (s.tell texts).sent key call = (s.sent key call).tell texts := rfl

@[simp] theorem made_tell : (s.tell texts).made = s.made := rfl

@[simp] theorem made_sent : (s.sent key call).made = s.made + 1 := List.length_append

end ServiceState

namespace Service

open Work

variable (script : Nat → Except Text ApiReply) (config : ServiceConfig) {keys : KeyStore} {key : Text}
  {s : ServiceState (Host × List ApiCall)}

theorem outcome_ready (hkey : keys.key s.outside.1 = .ok (some key)) (hne : key ≠ []) :
    outcome (ready ((Client.scripted script).link keys) config) s =
      (.ok key, { s with client := some key }) := by
  have hlooked : ((Client.scripted script).link keys).key s.outside = (.ok (some key), s.outside) := by
    simp only [Client.link, hkey]
    rfl
  rw [ready_served config hlooked hne rfl]
  exact congrArg (fun outside => (_, { s with client := some key, outside := outside })) (ite_self s.outside)

theorem outcome_send (hkey : keys.key s.outside.1 = .ok (some key)) (hne : key ≠ []) (call : ApiCall) :
    outcome (send ((Client.scripted script).link keys) config call) s =
      ((script s.made).mapError apiFailure, s.sent key call) := by
  unfold send
  rw [outcome_bind_ok (outcome_ready script config hkey hne), outcome_reach]
  rfl

theorem outcome_send_keyless (hkey : ∀ key, keys.key s.outside.1 = .ok (some key) → key = [])
    (call : ApiCall) :
    ∃ failure, outcome (send ((Client.scripted script).link keys) config call) s = (.error failure, s) ∧
      ∀ message, failure ≠ .malformed message := by
  have hlooked : outcome (reach ((Client.scripted script).link keys).key .fault) s =
      (((keys.key s.outside.1).mapError .host).mapError .fault, s) := outcome_reach _ _ s
  unfold send ready
  cases hfound : keys.key s.outside.1 with
  | error fault =>
    rw [hfound] at hlooked
    refine ⟨_, outcome_bind_error (outcome_bind_error hlooked _) _, ?_⟩
    intro message h
    cases h
  | ok found =>
    rw [hfound] at hlooked
    refine ⟨.missingCredential, outcome_bind_error ((outcome_bind_ok hlooked _).trans ?_) _, ?_⟩
    · cases found with
      | none => rfl
      | some key =>
        obtain rfl := hkey key hfound
        rfl
    · intro message h
      cases h

theorem answered_send {call : ApiCall} {r : ApiReply} {t : ServiceState (Host × List ApiCall)}
    (h : outcome (send ((Client.scripted script).link keys) config call) s = (.ok r, t)) :
    script s.made = .ok r ∧ t.made = s.made + 1 := by
  by_cases hkey : ∃ key, keys.key s.outside.1 = .ok (some key) ∧ key ≠ []
  · obtain ⟨key, hkey, hne⟩ := hkey
    obtain ⟨hr, rfl⟩ := Prod.mk.inj ((outcome_send script config hkey hne call).symm.trans h)
    exact ⟨eq_ok_of_mapError_ok hr, s.made_sent key call⟩
  · have hkeyless : ∀ key, keys.key s.outside.1 = .ok (some key) → key = [] := fun key hfound =>
      Decidable.not_not.1 fun hne => hkey ⟨key, hfound, hne⟩
    obtain ⟨failure, hfailed, -⟩ := outcome_send_keyless script config hkeyless call
    exact nomatch (Prod.mk.inj (hfailed.symm.trans h)).1

end Service

end Engine

end ThreatDesk
