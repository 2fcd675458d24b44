import ThreatDesk.Engine.Request
import ThreatDesk.Json.Printer
import ThreatDesk.Json.Basic

/-!
# What the service is sent

The texts sent to the model, with context and prior content cut to a length of their own in each; the
turns of a conversation as messages, of which the user's comes first, roles alternate and none is empty;
and the tools that a call may name: one that the service runs by itself, and those on the tree of a
session, which the model can only ask for.
-/

namespace ThreatDesk

namespace Engine

def background : Text := "
Context: AgentHopper is a Proof-of-Concept (PoC) AI worm/virus.
Key characteristics:
- It uses a Large Language Model (LLM) to make decisions.
- It can execute tools (like SSH, file system operations) to move laterally.
- It parses its environment to craft specific payloads or commands.
- It is autonomous and can \"reason\" about how to infect the next host.
- It highlights the risks of giving LLM agents unconstrained execution environments (RCE).
"

def systemHead : Text := "You are the \"NetSec AI Core\", an advanced cybersecurity agent embedded in the NetSec RetroDeck OS.
Your capabilities include analyzing threats and DIRECTLY MODIFYING the virtual file system via tools.

RULES:
1. You are concise and technical.
2. When asked to code or fix something, use 'write' to actually apply the changes to the VFS.
3. Always verify file existence with 'list' or 'read' before editing if unsure.
4. Maintain the \"retro cyber-security\" persona.
5. Context: The user is analyzing 'AgentHopper' (AI Worm).

SYSTEM KNOWLEDGE BASE (Research, Browsed Data, Specs):
"

def systemTemplate : Text := systemHead ++ "\x7bcontext\x7d\n"

def systemPrompt (context : Text) : Text :=
  let shown : Text :=
    if context.isEmpty then "No additional system context available." else context.take 100000
  systemHead ++ shown ++ "\n"

def fallbackQueries : List Text :=
  ["AgentHopper exploit code", "Morris II AI worm PoC", "AI prompt injection defense",
   "LLM worm propagation"]

def documentPrompt (filename topic existing context : Text) : Text :=
  let task : Text :=
    "ACT AS: A Senior Cybersecurity Researcher.\n" ++
    "TASK: Write a detailed technical document in Markdown format for: \"" ++ filename ++ "\".\n" ++
    "TOPIC: " ++ topic ++ "\n"
  let browsed : Text :=
    if context.isEmpty then []
    else
      "\nADDITIONAL CONTEXT FROM BROWSED WEBPAGES:\n" ++ context.take 30000 ++ "\n\n" ++
      "INSTRUCTION: Incorporate relevant findings from the browsed context into the documentation.\n"
  let update : Text :=
    if existing.isEmpty then []
    else
      "\nCONTEXT: You are updating an existing document with new findings.\n" ++
      "EXISTING CONTENT:\n" ++ existing.take 15000 ++ "\n\n" ++
      "INSTRUCTION: Enhance the existing content. Add new sections if missing. " ++
      "Improve technical accuracy.\n" ++
      "IF NO CHANGES ARE NEEDED, return exactly: \"" ++ noChanges ++ "\"\n"
  background ++ "\n" ++ (task ++ browsed ++ update) ++ "\n" ++
    "REQUIREMENTS:\n" ++
    "- Use professional technical language.\n" ++
    "- Return ONLY the markdown content.\n"

def codePrompt (existing context : Text) : Text :=
  let task : Text :=
    "ACT AS: A Security Engineer.\n" ++
    "TASK: Create/Update a Python script for \"Anti-Virus\" / \"IDS\" against AgentHopper.\n"
  let browsed : Text :=
    if context.isEmpty then []
    else
      "\nADDITIONAL CONTEXT FROM BROWSED WEBPAGES:\n" ++ context.take 30000 ++ "\n\n" ++
      "INSTRUCTION: Use any specific signatures, IoCs, or behaviors found in the " ++
      "browsed data to improve the detection logic.\n"
  let update : Text :=
    if existing.isEmpty then
      "\nThe script should:\n" ++
      "1. Monitor for suspicious shell history containing LLM prompts.\n" ++
      "2. Check for high-frequency API calls to known LLM endpoints.\n" ++
      "3. Scan for \"self-replicating\" scripts.\n"
    else
      "\nEXISTING CODE:\n" ++ existing ++ "\n\n" ++
      "INSTRUCTION: Optimize the existing code. Add more heuristic checks. " ++
      "Fix any potential bugs.\n" ++
      "IF THE CODE IS ALREADY OPTIMAL, return: \"" ++ noChanges ++ "\"\n"
  background ++ "\n" ++ task ++ browsed ++ update ++ "\nOutput ONLY valid Python code."

def jsonOnly (prompt : Text) : Text := prompt ++ "\nRespond with JSON only."

def planPrompt (existing context : Text) : Text :=
  let phase : Text :=
    if existing.isEmpty then "Initial research phase."
    else "We have existing research. Find NEW vectors or updates."
  let browsed : Text :=
    if context.isEmpty then []
    else "ADDITIONAL CONTEXT FROM BROWSING SESSION: " ++ context.take 10000 ++ "\n"
  background ++ "\nCONTEXT: " ++ phase ++ "\n" ++ browsed ++
    "\nACT AS: Cyber Intelligence Planner.\n" ++
    "TASK: Generate 4 specific technical search queries for \"AgentHopper\" or \"Morris II\".\n" ++
    "OUTPUT: JSON array of strings.\n"

def textArray (texts : List Text) : Text := Json.toLine (.array (texts.map .text))

def searchPrompt (queries : List Text) (existing context : Text) : Text :=
  let browsed : Text :=
    if context.isEmpty then [] else "\nLOCAL BROWSING DATA: " ++ context.take 20000 ++ "\n"
  background ++ "\n" ++
    "VECTORS: " ++ textArray queries ++ "\n" ++
    "EXISTING INTEL SUMMARY: " ++ existing.take 1000 ++ "...\n" ++ browsed ++
    "\nACT AS: Senior Threat Researcher.\n" ++
    "TASK: Perform searches. Analyze results. Combine with LOCAL BROWSING DATA.\n" ++
    "OUTPUT: Comprehensive Markdown Technical Report.\n"

def artifactPrompt (report : Text) : Text :=
  "CONTEXT: Research phase complete.\n" ++
  "REPORT: " ++ report.take 10000 ++ "\n\n" ++
  "TASK: Generate 2-3 technical files related to this threat for our toolkit.\n" ++
  "1. An exploit definition file (JSON)\n" ++
  "2. A detection rule (YARA or SIG)\n" ++
  "3. A patch script (Python/Bash)\n\n" ++
  "OUTPUT: JSON Array: [\x7b\"name\": \"filename\", \"content\": \"string\"\x7d]\n"

def browsePrompt (url : Text) : Text :=
  "ACT AS: A Text-Based Web Browser / Proxy.\n" ++
  "TASK: \"Visit\" the URL: " ++ url ++ ".\n\n" ++
  "1. Summarize the MAIN content of the page in clean Markdown.\n" ++
  "2. Extract all interesting hyperlinks in a separate section at the bottom.\n" ++
  "3. If the page seems to be about security exploits, highlight code blocks.\n\n" ++
  "FORMAT:\n# Page Title\n[Content Summary/Article Body]\n\n## Detected Links\n- [Link Text](url)\n"

def scanPrompt (definitions : List Text) : Text :=
  "ACT AS: Vulnerability Scanner Engine.\n" ++
  "DEFINITIONS: " ++ textArray definitions ++ "\n\n" ++
  "TASK: Simulate a scan of a standard Linux server.\n" ++
  "Based on the definitions provided, generate a Scan Report.\n" ++
  "Randomly determine if the system is VULNERABLE to 1 or 2 of the definitions.\n\n" ++
  "OUTPUT: Text report.\n"

end Engine

/-! ## Tools on offer -/

structure ToolOffer where
  name : Text
  definition : Json

namespace ToolOffer

def webSearch : ToolOffer where
  name := "web_search"
  definition := .object [("type", .text "web_search_20250305"), ("name", .text "web_search"),
    ("max_uses", .ofInt 5)]

/-- A tool whose parameters, given by name and description, are all texts and all required. -/
def onTree (name description : Text) (parameters : List (Text × Text)) : ToolOffer where
  name := name
  definition := .object [
    ("name", .text name),
    ("description", .text description),
    ("input_schema", .object [
      ("type", .text "object"),
      ("properties", .object (parameters.map fun (p, d) =>
        (p, .object [("type", .text "string"), ("description", .text d)]))),
      ("required", .array (parameters.map fun (p, _) => .text p))])]

def list : ToolOffer :=
  onTree "list" "List files in a directory of the Virtual File System."
    [("path", "Directory path, e.g. '/src' or '/'")]

def read : ToolOffer :=
  onTree "read" "Read the content of a file from the Virtual File System."
    [("path", "Full path of the file to read")]

def write : ToolOffer :=
  onTree "write" "Write content to a file in an existing directory of the Virtual File System."
    [("path", "Full path of the file to write"), ("content", "The full file content")]

def tree : List ToolOffer := [list, read, write]

end ToolOffer

/-! ## Messages -/

structure Message where
  role : Role
  content : Text
deriving DecidableEq

namespace Message

def roleName : Role → Text
  | .user => "user"
  | .model => "assistant"

/-- The messages with a turn joined to them, in reverse: to the last one if it has the same role. -/
def join (read : List Message) (turn : Turn) : List Message :=
  if turn.text.isEmpty then read
  else
    match read with
    | last :: before =>
      if last.role = turn.role then ⟨last.role, last.content ++ "\n\n" ++ turn.text⟩ :: before
      else ⟨turn.role, turn.text⟩ :: last :: before
    | [] => [⟨turn.role, turn.text⟩]

def grouped (turns : List Turn) : List Message := (turns.foldl join []).reverse

def ofDialogue (history : List Turn) (message : Text) : List Message :=
  (grouped (history ++ [⟨.user, message⟩])).dropWhile fun m => m.role ≠ .user

def Alternates : List Message → Prop
  | m :: n :: ms => m.role ≠ n.role ∧ Alternates (n :: ms)
  | _ => True

end Message

end ThreatDesk
