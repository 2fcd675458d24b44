import ThreatDesk.Engine.Request
import ThreatDesk.Text.Blank

/-!
# Replies of the service

A reply is a list of blocks with named attributes. Text, sources and tool calls are picked out of it;
blocks of other types are passed over.
-/

namespace ThreatDesk

structure Block where
  attributes : Json.Fields

structure ApiReply where
  content : Option (List Block)
  model : Json

namespace Block

def get? (b : Block) (name : Text) : Option Json := Json.Fields.get? name b.attributes

def hasType (b : Block) (type : Text) : Bool :=
  match b.get? "type" with
  | some (.text t) => t = type
  | _ => false

def require (b : Block) (name : Text) : Except Fault Json :=
  match b.get? name with
  | some v => .ok v
  | none => .error (.noAttribute name)

end Block

namespace ApiReply

def blocks (r : ApiReply) : List Block := r.content.getD []

def ofType (r : ApiReply) (type : Text) : List Block := r.blocks.filter fun b => b.hasType type

def text (r : ApiReply) : Except Fault Text := do
  let values ← (r.ofType "text").mapM fun b => b.require "text"
  let texts ← Fault.textsFrom 0 values
  return Text.trim texts.flatten

/-! ## Sources -/

structure Source where
  title : Text
  url : Json.Atom
deriving DecidableEq

def titleOf (v : Json) : Text := if v.isPresent then v.shown else []

def source? : Json → Except Fault (Option Source)
  | .object fields =>
    let url := (Json.Fields.get? "url" fields).getD .null
    if !url.isPresent then .ok none
    else
      match url.atom? with
      | none => .error (.notAtom url)
      | some a => .ok (some ⟨titleOf ((Json.Fields.get? "title" fields).getD .null), a⟩)
  | _ => .ok none

def results (b : Block) : List Json :=
  match b.get? "content" with
  | some (.array items) => items
  | _ => []

/-- The sources without those whose address came before. -/
def firstOccurrences : List Source → List Source
  | [] => []
  | s :: ss => s :: (firstOccurrences ss).filter fun t => !t.url.same s.url

def sources (r : ApiReply) : Except Fault (List Source) := do
  let found ← ((r.ofType "web_search_tool_result").flatMap results).mapM source?
  return firstOccurrences (found.filterMap id)

/-! ## Tool calls -/

def toolCall (b : Block) : Except Fault ToolCall := do
  let name ← b.require "name"
  let input ← b.require "input"
  let input ← (Arguments.ofJson input).mapError .arguments
  return ⟨name, input, (b.get? "id").getD (.text [])⟩

def toolCalls (r : ApiReply) : Except Fault (List ToolCall) := (r.ofType "tool_use").mapM toolCall

end ApiReply

end ThreatDesk
