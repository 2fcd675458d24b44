import ThreatDesk.Engine.Online

/-!
# The calls that are made

A client that keeps a record of the calls it is asked to make shows what a request asks of the service.
A request of a conversation makes one call at most, and that is the one that goes with it
(`calls_chat`).
-/

namespace ThreatDesk

variable {σ τ α β : Type}

/-- The client with a record of the calls that it has been asked to make. -/
def Client.recorded (c : Client τ) : Client (List ApiCall × τ) where
  connect := fun key timeout (calls, t) =>
    let (done, t) := c.connect key timeout t
    (done, (calls, t))
  create := fun key call (calls, t) =>
    let (reply, t) := c.create key call t
    (reply, (calls ++ [call], t))

namespace Engine

def Work.after (w : Work σ α) (s : ServiceState σ) : ServiceState σ := ((ExceptT.run w).run s).2

theorem Work.after_bind (w : Work σ α) (f : α → Work σ β) (s : ServiceState σ) :
    Work.after (w >>= f) s = Work.after w s ∨
      ∃ a, Work.after (w >>= f) s = Work.after (f a) (Work.after w s) := by
  unfold Work.after
  rw [ExceptT.run_bind, StateT.run_bind]
  generalize (ExceptT.run w).run s = r
  obtain ⟨reply, t⟩ := r
  cases reply with
  | ok a => exact .inr ⟨a, rfl⟩
  | error failure => exact .inl rfl

theorem Work.after_get_bind (f : ServiceState σ → Work σ α) (s : ServiceState σ) :
    Work.after (get >>= f) s = Work.after (f s) s := rfl

def ServiceState.calls (s : ServiceState (Host × List ApiCall × τ)) : List ApiCall := s.outside.2.1

def CallFree (w : Work (Host × List ApiCall × τ) α) : Prop := ∀ s, (Work.after w s).calls = s.calls

theorem CallFree.bind {w : Work (Host × List ApiCall × τ) α}
    {f : α → Work (Host × List ApiCall × τ) β} (hw : CallFree w) (hf : ∀ a, CallFree (f a)) :
    CallFree (w >>= f) := by
  intro s
  rcases Work.after_bind w f s with h | ⟨a, h⟩
  · rw [h, hw s]
  · rw [h, hf a, hw s]

namespace Service

variable (c : Client τ) (keys : KeyStore) (config : ServiceConfig)

theorem callFree_orFail {ε : Type} (failure : ε → Failure) (reply : Except ε α) :
    CallFree (orFail failure reply : Work (Host × List ApiCall × τ) α) := by
  intro s
  cases reply <;> rfl

theorem after_reach {ε : Type} (act : σ → Except ε α × σ) (failure : ε → Failure)
    (s : ServiceState σ) :
    Work.after (reach act failure) s = { s with outside := (act s.outside).2 } := by
  unfold reach
  rw [Work.after_get_bind]
  generalize act s.outside = r
  obtain ⟨reply, outside⟩ := r
  cases reply <;> rfl

theorem callFree_ready : CallFree (ready (c.recorded.link keys) config) := by
  unfold ready
  refine CallFree.bind (fun s => by rw [after_reach]; rfl) fun found => ?_
  cases found with
  | none => exact fun _ => rfl
  | some key =>
    simp only
    split
    · exact fun _ => rfl
    · refine CallFree.bind (fun _ => rfl) fun s => ?_
      split
      · refine CallFree.bind (fun s => by rw [after_reach]; rfl) fun _ => ?_
        exact CallFree.bind (fun _ => rfl) fun _ _ => rfl
      · exact fun _ => rfl

theorem calls_send (call : ApiCall) (s : ServiceState (Host × List ApiCall × τ)) :
    (Work.after (send (c.recorded.link keys) config call) s).calls = s.calls ∨
      (Work.after (send (c.recorded.link keys) config call) s).calls = s.calls ++ [call] := by
  unfold send
  rcases Work.after_bind (ready (c.recorded.link keys) config) _ s with h | ⟨key, h⟩
  · rw [h]
    exact .inl (callFree_ready c keys config s)
  · rw [h, after_reach]
    refine .inr ?_
    rw [← callFree_ready c keys config s]
    rfl

theorem calls_chat (history : List Turn) (message context : Text)
    (s : ServiceState (Host × List ApiCall × τ)) :
    (Work.after (chat (c.recorded.link keys) config history message context) s).calls = s.calls ∨
      (Work.after (chat (c.recorded.link keys) config history message context) s).calls =
        s.calls ++ [chatCall config history message context] := by
  have hrest (reply : ApiReply) : CallFree (do
      let toolCalls ← orFail .fault reply.toolCalls
      let text ← orFail .fault reply.text
      return ⟨text, toolCalls, reply.model⟩ : Work (Host × List ApiCall × τ) ChatReply) :=
    CallFree.bind (callFree_orFail _ _) fun _ => CallFree.bind (callFree_orFail _ _) fun _ _ => rfl
  have hsend := calls_send c keys config (chatCall config history message context) s
  unfold chat
  rcases Work.after_bind (send (c.recorded.link keys) config _) _ s with h | ⟨reply, h⟩
  · rw [h]
    exact hsend
  · rw [h, hrest reply]
    exact hsend

end Service

end Engine

end ThreatDesk
