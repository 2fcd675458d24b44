import ThreatDesk.Fault

/-!
# Requests to an engine

What the shell asks of an engine, what it gets, and how it may fail. Each request has its own type of
answer. An engine attends to one request at a time; while it does it tells its progress, and lines may be
entered at the shell.
-/

namespace ThreatDesk

inductive Role
  | user
  | model
deriving DecidableEq

structure Turn where
  role : Role
  text : Text
deriving DecidableEq

/-- A tool that the model asks for, by any value for a name. -/
structure ToolCall where
  name : Json
  input : Arguments
  id : Json

def ToolCall.named (name : Text) (fields : Json.Fields) : ToolCall :=
  ⟨.text name, .ofFields fields, .text []⟩

structure ChatReply where
  text : Text
  toolCalls : List ToolCall
  model : Json

structure Artifact where
  name : Text
  content : Text

structure ResearchReport where
  report : Text
  artifacts : List Artifact
  isUpdate : Bool

structure VisitedPage where
  content : Text
  links : List Text

namespace Engine

/-- The answer that stands for text that need not change. -/
def noChanges : Text := "NO_CHANGES"

inductive Request
  | document (filename topic existing context : Text)
  | code (existing context : Text)
  | research (existing context : Text)
  | browse (url : Text)
  | scan (definitions : List Text)
  | chat (history : List Turn) (message context : Text)

def Request.Answer : Request → Type
  | .document .. => Text
  | .code .. => Text
  | .research .. => ResearchReport
  | .browse .. => VisitedPage
  | .scan .. => Text
  | .chat .. => ChatReply

inductive Failure
  | missingCredential
  | collaborator (message : Text)
  | malformed (message : Text)
  /-- The result of the work cannot be used by the shell. -/
  | unusable (message : Text)
  | fault (fault : Fault)

def Failure.message : Failure → Text
  | .missingCredential => "MISSING_API_KEY"
  | .collaborator message | .malformed message | .unusable message => message
  | .fault f => f.message

def Failure.isCollaborator : Failure → Bool
  | .missingCredential | .collaborator _ | .malformed _ => true
  | _ => false

end Engine

/-! ## Engines -/

inductive Interlude
  | progress (text : Text)
  | line (raw : Text)

structure Attended (σ α : Type) where
  state : σ
  interludes : List Interlude
  reply : Except Engine.Failure α

/-- An engine with a state of its own. It sees the host as it is when it is asked. -/
structure Engine (σ : Type) where
  attend : σ → Host → (q : Engine.Request) → Attended σ q.Answer

end ThreatDesk
