import ThreatDesk.Proofs.Engine.Calls
import ThreatDesk.Proofs.Engine.Dialogue
import ThreatDesk.Proofs.Shell.History

/-!
# What the agent is asked

Every round of an exchange asks the service with the whole conversation and the prompt of the round. A
prompt is the message of the line that has begun the exchange, or tells what tool calls gave
(`prompt_of_begin`, `prompt_of_continued`). Where it is not empty, the call is as the service takes it,
whatever the conversation holds (`calls_wellShaped`). A line can ask with quotes around nothing, though,
and then the call may have no messages at all (`asked_nothing`).
-/

namespace ThreatDesk

namespace Shell

open Engine (ServiceConfig Online)

/-! ## Prompts -/

theorem prompt_of_start {a : Answer} {op : Operation} {e : Exchange}
    (h : (start a op).2 = .chat e) : op = .ask e.prompt := by
  cases op with
  | ask message =>
    obtain rfl := Stage.chat.inj h
    rfl
  | _ => exact nomatch h

theorem begin_of_none {raw : Text} (h : operation? raw = none) (d : Desk) (now : Int) :
    (begin d now raw).2 = none := by
  cases hw : raw.words with
  | nil =>
    unfold begin
    simp only [hw]
  | cons word args =>
    rw [begin_of_words hw]
    simp only [operation?, hw] at h
    cases hv : Verb.ofText? word.lower with
    | none => rfl
    | some verb =>
      rw [hv] at h
      cases verb <;> cases args <;> first | rfl | exact nomatch h

theorem prompt_of_begin {d : Desk} {now : Int} {raw : Text} {e : Exchange}
    (h : (begin d now raw).2 = some (.chat e)) : operation? raw = some (.ask e.prompt) := by
  cases ho : operation? raw with
  | none =>
    rw [begin_of_none ho] at h
    cases h
  | some op =>
    rw [begin_of_operation? ho, startUnlessBusy] at h
    split at h
    · cases h
    · rw [prompt_of_start (Option.some.inj h)]

theorem resultsPrompt_ne_nil (results : List (ToolCall × Text)) :
    Exchange.resultsPrompt results ≠ [] := by
  unfold Exchange.resultsPrompt
  exact List.append_ne_nil_of_left_ne_nil (by decide) _

theorem prompt_of_next {e f : Exchange} {reply : ChatReply} {results : List (ToolCall × Text)}
    (h : e.next reply results = .again f) : f.prompt = Exchange.resultsPrompt results := by
  unfold Exchange.next at h
  simp only at h
  split at h
  · cases h
  · split at h
    · cases h
    · cases h
      rfl

theorem prompt_of_continueChat {a : Answer} {e f : Exchange} {reply : ChatReply}
    (h : (continueChat a e reply).2 = some (.chat f)) :
    ∃ results, f.prompt = Exchange.resultsPrompt results := by
  rw [continueChat_eq] at h
  split at h
  · exact nomatch h
  · next results hr =>
    split at h
    · next g hg =>
      obtain rfl := Stage.chat.inj (Option.some.inj h)
      exact ⟨results, prompt_of_next hg⟩
    · exact nomatch h

theorem prompt_of_continued {a : Answer} {s : Stage} {signal : Signal s} {f : Exchange}
    (h : (continued a s signal).2 = some (.chat f)) :
    ∃ results, f.prompt = Exchange.resultsPrompt results := by
  cases signal with
  | cancelled => exact nomatch h
  | replied reply =>
    cases reply with
    | error failure => exact nomatch h
    | ok answer =>
      cases s with
      | chat e => exact prompt_of_continueChat h
      | _ => exact nomatch h

/-! ## Runs -/

namespace Floor

/-- A step that does not begin an exchange with nothing. -/
def StepAsking (hosts : Host → Prop) (f g : Floor) : Prop :=
  Step hosts f g ∧ ¬ ∃ now raw, operation? raw = some (.ask []) ∧
    f.desk.session.isBusy = false ∧ g = settle f.pending [] (begin f.desk now raw)

theorem line_of_begin {d : Desk} {now now' : Int} {raw raw' : Text}
    (h : (begin d now raw).1.desk = (begin d now' raw').1.desk) : raw = raw' := by
  obtain ⟨⟨rest, hsaid⟩, hheard, -⟩ := told_begin d now raw
  obtain ⟨⟨rest', hsaid'⟩, hheard', -⟩ := told_begin d now' raw'
  have htold : (begin d now raw).1.session.told = (begin d now' raw').1.session.told :=
    congrArg (fun d => d.session.told) h
  rw [hheard, hheard', hsaid, hsaid'] at htold
  exact congrArg Line.text (List.cons.inj (List.append_cancel_left htold)).1

theorem stepAsking_line (hosts : Host → Prop) (f : Floor) (now : Int) {raw : Text}
    (h : operation? raw ≠ some (.ask [])) :
    StepAsking hosts f (settle f.pending [] (begin f.desk now raw)) := by
  refine ⟨.line f now raw, ?_⟩
  rintro ⟨now', raw', hoperation, -, hsame⟩
  have hdesk := congrArg Floor.desk hsame
  rw [desk_settle, desk_settle] at hdesk
  rw [line_of_begin hdesk] at h
  exact h hoperation

/-- Every exchange that is pending has a prompt. -/
def Prompted (f : Floor) : Prop := ∀ p ∈ f.pending, ∀ e, p.stage = .chat e → e.prompt ≠ []

theorem mem_settle {before after : List Pending} {r : Answer × Option Stage} {p : Pending}
    (h : p ∈ (settle before after r).pending) : p ∈ before ++ after ∨ r.2 = some p.stage := by
  obtain ⟨a, s⟩ := r
  cases s with
  | none => exact .inl h
  | some s =>
    have h : p ∈ before ++ ⟨a.now, a.said, s⟩ :: after := h
    simp only [List.mem_append, List.mem_cons] at h ⊢
    rcases h with h | rfl | h
    · exact .inl (.inl h)
    · exact .inr rfl
    · exact .inl (.inr h)

theorem StepAsking.prompted {hosts : Host → Prop} {f g : Floor} (h : StepAsking hosts f g)
    (hf : f.Prompted) : g.Prompted := by
  obtain ⟨hs, hasks⟩ := h
  intro p hp e he
  cases hs with
  | host f hh => exact hf p hp e he
  | refused f => exact hf p hp e he
  | line f now raw =>
    rcases mem_settle hp with hp | hp
    · rw [List.append_nil] at hp
      exact hf p hp e he
    · rw [he] at hp
      have hoperation := prompt_of_begin hp
      intro hnothing
      rw [hnothing] at hoperation
      refine hasks ⟨now, raw, hoperation, ?_, rfl⟩
      rw [begin_of_operation? hoperation, startUnlessBusy] at hp
      split at hp
      · cases hp
      · next hidle => exact Bool.not_eq_true _ ▸ hidle
  | @progress d before after q text =>
    rcases mem_settle hp with hp | hp
    · refine hf p ?_ e he
      simp only [List.mem_append, List.mem_cons] at hp ⊢
      exact hp.imp_right .inr
    · exact hf q (by simp) e ((Option.some.inj hp).trans he)
  | @signal d before after q signal =>
    rcases mem_settle hp with hp | hp
    · refine hf p ?_ e he
      simp only [List.mem_append, List.mem_cons] at hp ⊢
      exact hp.imp_right .inr
    · rw [he] at hp
      obtain ⟨results, hresults⟩ := prompt_of_continued hp
      rw [hresults]
      exact resultsPrompt_ne_nil results

theorem prompted_of_reaches {hosts : Host → Prop} {f g : Floor}
    (h : Relation.ReflTransGen (StepAsking hosts) f g) (hf : f.Prompted) : g.Prompted := by
  induction h with
  | refl => exact hf
  | tail _ hs ih => exact hs.prompted ih

end Floor

/-! ## Calls -/

variable {τ : Type}

theorem calls_attend (client : Client τ) (keys : KeyStore) (config : ServiceConfig)
    (s : Online (List ApiCall × τ)) (h : Host) (e : Exchange) :
    ∃ calls, ((Engine.online client.recorded keys config).attend s h
        (Stage.chat e).request).state.client.1 = s.client.1 ++ calls ∧
      ∀ call ∈ calls, call = Engine.Service.chatCall config e.history e.prompt e.context := by
  have hcalls := Engine.Service.calls_chat client keys config e.history e.prompt e.context
    ⟨s.key, (h, s.client), []⟩
  rcases hcalls with hcalls | hcalls
  · exact ⟨[], hcalls.trans (List.append_nil _).symm, List.forall_mem_nil _⟩
  · exact ⟨_, hcalls, List.forall_mem_singleton.2 rfl⟩

/-- From any desk on, whatever the conversation there holds, and whatever lines, replies, tool calls and
failures come in whatever order: where no line asks the agent nothing, every call that an exchange makes
has messages that the service takes, and the last of them ends with the prompt of the round. -/
theorem calls_wellShaped {hosts : Host → Prop} {d : Desk} {f : Floor}
    (hf : Relation.ReflTransGen (Floor.StepAsking hosts) ⟨d, []⟩ f) {p : Pending}
    (hp : p ∈ f.pending) {e : Exchange} (he : p.stage = .chat e) (client : Client τ)
    (keys : KeyStore) (config : ServiceConfig) (s : Online (List ApiCall × τ)) (h : Host) :
    ∃ calls, ((Engine.online client.recorded keys config).attend s h
        (Stage.chat e).request).state.client.1 = s.client.1 ++ calls ∧
      ∀ call ∈ calls, Message.WellShaped e.prompt call.messages := by
  have hprompt : e.prompt ≠ [] :=
    Floor.prompted_of_reaches hf (fun _ hp => absurd hp List.not_mem_nil) p hp e he
  obtain ⟨calls, hcalls, hall⟩ := calls_attend client keys config s h e
  refine ⟨calls, hcalls, fun call hcall => ?_⟩
  rw [hall call hcall]
  exact Message.wellShaped_ofDialogue e.history hprompt

def silentClient : Client Unit where
  connect := fun _ _ t => (.ok (), t)
  create := fun _ _ t => (.error "no answer", t)

theorem calls_wellShaped_hello :
    let start := Desk.bare (Session.withoutHistory ⟨[]⟩ "1.0")
    let d := { start with dialogue := [⟨.user, []⟩, ⟨.model, "hm"⟩] }
    let f := Floor.settle [] [] (begin d 0 "ask 'hello there'")
    let host := { d.host with environment := [(KeyStore.defaultVariable, "k")] }
    ∃ p e, f.pending = [p] ∧ p.stage = .chat e ∧ e.prompt = "hello there" ∧
      ((Engine.online silentClient.recorded d.site.keys ⟨.null, 1, 1⟩).attend ⟨none, ([], ())⟩ host
        (Stage.chat e).request).state.client.1.map ApiCall.messages = [[⟨.user, "hello there"⟩]] ∧
      Message.WellShaped e.prompt [⟨.user, "hello there"⟩] := by
  intro start d f host
  have hf : Relation.ReflTransGen (Floor.StepAsking fun _ => False) ⟨d, []⟩ f :=
    .single (Floor.stepAsking_line _ ⟨d, []⟩ 0 (by decide))
  refine ⟨_, _, rfl, rfl, by decide, ?_⟩
  obtain ⟨calls, hcalls, hall⟩ := calls_wellShaped hf (List.mem_singleton_self _) rfl silentClient
    d.site.keys ⟨.null, 1, 1⟩ ⟨none, ([], ())⟩ host
  have hmade : calls.map ApiCall.messages = [[⟨.user, "hello there"⟩]] := by
    rw [show calls = [] ++ calls from rfl, ← hcalls]
    decide +kernel
  refine ⟨by rw [hcalls]; exact hmade, ?_⟩
  obtain ⟨call, rfl, hmessages⟩ := List.map_eq_singleton_iff.1 hmade
  rw [← hmessages]
  exact hall call (List.mem_singleton_self _)

/-- Quotes around nothing are a message with nothing in it, and the service is asked without a message. -/
theorem asked_nothing :
    let d := Desk.bare (Session.withoutHistory ⟨[]⟩ "1.0")
    let f := Floor.settle [] [] (begin d 0 "ask ''")
    let host := { d.host with environment := [(KeyStore.defaultVariable, "k")] }
    ∃ p e, f.pending = [p] ∧ p.stage = .chat e ∧ e.prompt = [] ∧
      ((Engine.online silentClient.recorded d.site.keys ⟨.null, 1, 1⟩).attend ⟨none, ([], ())⟩ host
        (Stage.chat e).request).state.client.1.map ApiCall.messages = [[]] ∧
      ¬ Message.WellShaped e.prompt [] := by
  intro d f host
  refine ⟨_, _, rfl, rfl, by decide, by decide +kernel, ?_⟩
  intro h
  obtain ⟨m, hm, -⟩ := h.first
  exact nomatch hm

end Shell

end ThreatDesk
