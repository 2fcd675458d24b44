import ThreatDesk.Engine.Request
import ThreatDesk.Engine.Service
import ThreatDesk.KeyStore

/-!
# The online engine

The engine that asks the service, with the key that is in force on the host at every call.
-/

namespace ThreatDesk

structure Client (τ : Type) where
  connect : Text → Int → τ → Except Text Unit × τ
  create : Text → ApiCall → τ → Except Text ApiReply × τ

namespace Client

variable {τ : Type}

def link (c : Client τ) (keys : KeyStore) : Link (Host × τ) where
  key := fun (h, t) => ((keys.key h).mapError .host, (h, t))
  connect := fun key timeout (h, t) =>
    let (done, t) := c.connect key timeout t
    (done, (h, t))
  create := fun key call (h, t) =>
    let (reply, t) := c.create key call t
    (reply, (h, t))

def absence : Text := "anthropic package required. Install with: pip install retrodeck"

def absent : Client Unit where
  connect := fun _ _ s => (.error absence, s)
  create := fun _ _ s => (.error absence, s)

end Client

namespace Engine

variable {τ : Type}

structure Online (τ : Type) where
  key : Option Text
  client : τ

def Online.run {α : Type} (s : Online τ) (h : Host) (work : Work (Host × τ) α) : Attended (Online τ) α :=
  let (reply, t) := (ExceptT.run work).run ⟨s.key, (h, s.client), []⟩
  ⟨⟨t.client, t.outside.2⟩, t.progress.map .progress, reply⟩

def online (client : Client τ) (keys : KeyStore) (config : ServiceConfig) : Engine (Online τ) where
  attend := fun s h q => s.run h (Service.answer (client.link keys) config q)

end Engine

end ThreatDesk
