import ThreatDesk.Shell.TreeTool
import ThreatDesk.Json.Printer

/-!
# Exchanges with the agent

One message to the agent takes rounds: the model answers, the tools that it asks for are run, and their
results are the prompt of the next round. Main statement: a next round has one round less to go
(`roundsLeft_of_next`).

The input of a call comes out of a document that has been read, so that it is never too deep to be written,
nor has it an integer of too many digits (`Json.fits_ofBytes`): a result always has its line.
-/

namespace ThreatDesk

structure Exchange where
  context : Text
  history : List Turn
  prompt : Text
  parts : List Text
  /-- How many tool calls have been run. -/
  executed : Nat
  limit : Nat
  /-- How many rounds may follow the one that is under way. -/
  roundsLeft : Nat

namespace Exchange

def ofMessage (history : List Turn) (limit : Nat) (message context : Text) : Exchange where
  context := context
  history := history
  prompt := message
  parts := []
  executed := 0
  limit := limit
  roundsLeft := limit - 1

def previewLength : Nat := 200

def partOf (call : ToolCall) (result : Text) : Text :=
  "[TOOL EXEC: " ++ call.name.shown ++ "]\nResult: " ++ result.take previewLength

def resultOf (call : ToolCall) (result : Text) : Text :=
  "[" ++ call.name.shown ++ "] " ++ call.input.toJson.toLine ++ "\n" ++ result

/-- The tree after the calls, and each call with its result; a fault ends them. -/
def runCalls (t : Tree) : List ToolCall → Tree × Except Fault (List (ToolCall × Text))
  | [] => (t, .ok [])
  | call :: calls =>
    match call.run t with
    | (t, .error fault) => (t, .error fault)
    | (t, .ok result) =>
      let (t, results) := runCalls t calls
      (t, results.map ((call, result) :: ·))

def resultsPrompt (results : List (ToolCall × Text)) : Text :=
  "TOOL RESULTS:\n" ++ Text.intercalate "\n\n" (results.map fun (call, result) => resultOf call result)

inductive Next
  | again (e : Exchange)
  | done (answer : Text)

def completionNote : Text := "(Tasks completed)"

def concluded (parts : List Text) (executed : Nat) : Text :=
  Text.intercalate "\n\n" (if executed = 0 then parts else parts ++ [completionNote])

def limitNote (limit : Nat) : Text := "(Tool round limit reached: " ++ Text.ofNat limit ++ ")"

def turns (e : Exchange) (reply : ChatReply) : List Turn :=
  [⟨.user, e.prompt⟩, ⟨.model, reply.text⟩]

def withReply (e : Exchange) (reply : ChatReply) : List Text :=
  if reply.text.isEmpty then e.parts else e.parts ++ [reply.text]

/-- What follows a round whose tool calls gave those results. -/
def next (e : Exchange) (reply : ChatReply) (results : List (ToolCall × Text)) : Next :=
  let parts := e.withReply reply ++ results.map fun (call, result) => partOf call result
  let executed := e.executed + results.length
  if results.isEmpty then .done (concluded parts executed)
  else
    match e.roundsLeft with
    | 0 => .done (concluded (parts ++ [limitNote e.limit]) executed)
    | left + 1 =>
      .again { e with
        history := e.history ++ e.turns reply
        prompt := resultsPrompt results
        parts, executed
        roundsLeft := left }

theorem roundsLeft_of_next {e f : Exchange} {reply : ChatReply} {results : List (ToolCall × Text)}
    (h : e.next reply results = .again f) : f.roundsLeft < e.roundsLeft := by
  unfold next at h
  simp only at h
  split at h
  · cases h
  · split at h
    · cases h
    · next left hl =>
      cases h
      simp only
      omega

end Exchange

end ThreatDesk
