import ThreatDesk.Engine.Prompt
import ThreatDesk.Engine.Reply
import ThreatDesk.Engine.Markdown

/-!
# The engine over a messages service

Requests become prompts, replies become answers. The key is looked up for every call, and a client is
made anew when it has changed. What lies outside (where the key comes from, the client itself) is a
`Link` over a state of its own.
-/

namespace ThreatDesk

structure ApiCall where
  messages : List Message
  model : Json
  maxTokens : Int
  system : Option Text
  tools : List ToolOffer

structure Link (σ : Type) where
  key : σ → Except Fault (Option Text) × σ
  /-- Make a client for a key and a timeout, or say why there is none. -/
  connect : Text → Int → σ → Except Text Unit × σ
  create : Text → ApiCall → σ → Except Text ApiReply × σ

namespace Engine

structure ServiceConfig where
  model : Json
  maxTokens : Int
  timeout : Int

structure ServiceState (σ : Type) where
  client : Option Text
  outside : σ
  progress : List Text

abbrev Work (σ α : Type) := ExceptT Failure (StateM (ServiceState σ)) α

namespace Service

variable {σ : Type}

def log (text : Text) : Work σ Unit :=
  modify fun s => { s with progress := s.progress ++ [text] }

def reach {ε α : Type} (act : σ → Except ε α × σ) (failure : ε → Failure) : Work σ α := do
  let s ← get
  match act s.outside with
  | (.ok a, outside) => do
    set { s with outside := outside }
    return a
  | (.error e, outside) => do
    set { s with outside := outside }
    throw (failure e)

def orFail {ε α : Type} (failure : ε → Failure) : Except ε α → Work σ α
  | .ok a => return a
  | .error e => throw (failure e)

def ready (link : Link σ) (config : ServiceConfig) : Work σ Text := do
  match ← reach link.key .fault with
  | none => throw .missingCredential
  | some key =>
    if key.isEmpty then throw .missingCredential
    if (← get).client ≠ some key then
      reach (link.connect key config.timeout) fun message => .fault (.noClient message)
      modify fun s => { s with client := some key }
    return key

def send (link : Link σ) (config : ServiceConfig) (call : ApiCall) : Work σ ApiReply := do
  let key ← ready link config
  reach (link.create key call) fun message =>
    .collaborator ("Anthropic API error: " ++ message)

def ask (config : ServiceConfig) (prompt : Text) : ApiCall where
  messages := [⟨.user, prompt⟩]
  model := config.model
  maxTokens := config.maxTokens
  system := none
  tools := []

def askSearching (config : ServiceConfig) (prompt : Text) : ApiCall :=
  { ask config prompt with tools := [.webSearch] }

def complete (link : Link σ) (config : ServiceConfig) (call : ApiCall) : Work σ Text := do
  let reply ← send link config call
  orFail .fault reply.text

def replyFailure : Json.Fault → Failure
  | .malformed fault => .malformed ("Malformed JSON from model: " ++ fault.message)
  | .number fault => .fault (.integer fault)
  | .nested inObject => .fault (.nested inObject)
  | .undecodable fault => .malformed ("Malformed JSON from model: " ++ fault.message)

def completeJson (link : Link σ) (config : ServiceConfig) (prompt : Text) : Work σ Json := do
  let text ← complete link config (ask config (jsonOnly prompt))
  orFail replyFailure (Json.ofText (Markdown.unfence text))

/-! ## The requests -/

/-- A text in which the mark of no changes occurs is that mark. -/
def sentinel (text : Text) : Option Text :=
  if Text.occurs noChanges text then some noChanges else none

def document (link : Link σ) (config : ServiceConfig) (filename topic existing context : Text) :
    Work σ Text := do
  let text ← complete link config (ask config (documentPrompt filename topic existing context))
  return (sentinel text).getD text

def code (link : Link σ) (config : ServiceConfig) (existing context : Text) : Work σ Text := do
  let text ← complete link config (ask config (codePrompt existing context))
  return (sentinel text).getD (Markdown.unfence text)

def queriesOf? : Json → Option (List Text)
  | .array items => items.mapM Json.text?
  | _ => none

/-- The queries to search for. A reply that is no plan is made up for. -/
def plan (link : Link σ) (config : ServiceConfig) (existing context : Text) :
    Work σ (List Text) := do
  let reply ←
    tryCatch (do return some (← completeJson link config (planPrompt existing context)))
      fun
        | .malformed _ => return none
        | failure => throw failure
  return (reply.bind queriesOf?).getD fallbackQueries

def sourceLine (s : ApiReply.Source) : Text :=
  "- [" ++ (if s.title.isEmpty then ("Source" : Text) else s.title) ++ "](" ++
    s.url.toJson.shown ++ ")\n"

def withSources (report : Text) (sources : List ApiReply.Source) : Text :=
  if sources.isEmpty then report
  else report ++ "\n\n## NEW VERIFIED SOURCES\n" ++ sources.flatMap sourceLine

def artifact? : Json → Option Artifact
  | .object fields =>
    match Json.Fields.get? "name" fields, Json.Fields.get? "content" fields with
    | some (.text name), some (.text content) => some ⟨name, content⟩
    | _, _ => none
  | _ => none

def artifactsOf (link : Link σ) (config : ServiceConfig) (report : Text) :
    Work σ (List Artifact) := do
  match ← completeJson link config (artifactPrompt report) with
  | .array items =>
    let artifacts := items.filterMap artifact?
    for a in artifacts do
      log ("> GENERATED ARTIFACT: " ++ a.name)
    return artifacts
  | _ => throw (.malformed "Malformed JSON from model: expected an array")

/-- The artifacts, or none and a warning if the service fails; without a key nothing can go on. -/
def artifacts (link : Link σ) (config : ServiceConfig) (report : Text) :
    Work σ (List Artifact) :=
  tryCatch (artifactsOf link config report) fun failure => do
    match failure with
    | .collaborator message | .malformed message =>
      log ("WARN: Artifact gen failed: " ++ message)
      return []
    | failure => throw failure

def research (link : Link σ) (config : ServiceConfig) (existing context : Text) :
    Work σ ResearchReport := do
  log "INITIALIZING TARGETED THREAT RECONNAISSANCE..."
  unless existing.isEmpty do
    log "> LOADING EXISTING INTEL FOR INCREMENTAL UPDATE..."
  let queries ← plan link config existing context
  for q in queries do
    log ("> QUEUED VECTOR: " ++ q)
  log "EXECUTING DEEP WEB SEARCH PROTOCOLS..."
  let reply ← send link config (askSearching config (searchPrompt queries existing context))
  log "SYNTHESIZING INTELLIGENCE..."
  let text ← orFail .fault reply.text
  let sources ← orFail .fault reply.sources
  unless sources.isEmpty do
    log ("> DATA ACQUIRED: " ++ Text.ofNat sources.length ++ " verified sources.")
  let report := withSources (if text.isEmpty then "No intelligence gathered." else text) sources
  log "EXTRACTING EXPLOIT DEFINITIONS & ARTIFACTS..."
  let found ← artifacts link config report
  return ⟨report, found, !existing.isEmpty⟩

def browse (link : Link σ) (config : ServiceConfig) (url : Text) : Work σ VisitedPage := do
  log ("CONNECTING TO: " ++ url ++ "...")
  let text ← complete link config (askSearching config (browsePrompt url))
  let content : Text := if text.isEmpty then "Connection closed. No data received." else text
  return ⟨content, Markdown.links content⟩

def scan (link : Link σ) (config : ServiceConfig) (definitions : List Text) : Work σ Text := do
  let _ ← ready link config
  log "INITIALIZING LOCAL VULNERABILITY SCANNER..."
  if definitions.isEmpty then
    return "SCAN ABORTED: No exploit definitions found. " ++
      "Run 'research' first to populate the database."
  log ("LOADED " ++ Text.ofNat definitions.length ++ " SIGNATURES FROM DATABASE.")
  let text ← complete link config (ask config (scanPrompt definitions))
  return (if text.isEmpty then ("Scan completed. No output." : Text) else text)

def chatCall (config : ServiceConfig) (history : List Turn) (message context : Text) : ApiCall where
  messages := Message.ofDialogue history message
  model := config.model
  maxTokens := config.maxTokens
  system := some (systemPrompt context)
  tools := ToolOffer.tree

def chat (link : Link σ) (config : ServiceConfig) (history : List Turn) (message context : Text) :
    Work σ ChatReply := do
  let reply ← send link config (chatCall config history message context)
  let toolCalls ← orFail .fault reply.toolCalls
  let text ← orFail .fault reply.text
  return ⟨text, toolCalls, reply.model⟩

def health (link : Link σ) (config : ServiceConfig) : Work σ Bool :=
  tryCatch (do
    let _ ← complete link config { ask config "ping" with maxTokens := 10 }
    return true) fun failure => if failure.isCollaborator then return false else throw failure

def answer (link : Link σ) (config : ServiceConfig) : (q : Request) → Work σ q.Answer
  | .document filename topic existing context =>
    document link config filename topic existing context
  | .code existing context => code link config existing context
  | .research existing context => research link config existing context
  | .browse url => browse link config url
  | .scan definitions => scan link config definitions
  | .chat history message context => chat link config history message context

end Service

end Engine

end ThreatDesk
