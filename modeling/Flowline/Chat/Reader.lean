import Flowline.Chat.Basic
import Flowline.Document.Printer
import Flowline.Json.Record

/-! Messages and tool calls as they are written. -/

namespace Flowline

open Json

def Role.word : Role → String
  | .system => "system"
  | .user => "user"
  | .assistant => "assistant"

def Role.ofWord? : String → Option Role
  | "system" => some .system
  | "user" => some .user
  | "assistant" => some .assistant
  | _ => none

theorem Role.ofWord?_word (r : Role) : ofWord? r.word = some r := by cases r <;> rfl

/-- Both parts of a message have to be there. -/
def Message.read? : Reader Message := fun d t => do
  let r ← Record.read? ["role", "content"] d t
  return ⟨← r.required "role" (.word Role.ofWord?), ← r.required "content" .text⟩

def Message.toJson (m : Message) : Json :=
  .object [("role", .string m.role.word), ("content", .string m.content)]

/-- All parts of a call have to be there; the parameters may be null. -/
def ToolCall.read? : Reader ToolCall := fun d t => do
  let r ← Record.read? ["toolId", "operationId", "parameters"] d t
  return ⟨← r.required "toolId" .text, ← r.required "operationId" .text,
    ← r.required "parameters" .value⟩

def ToolCall.toJson (c : ToolCall) : Json :=
  .object [("toolId", .string c.tool), ("operationId", .string c.operation),
    ("parameters", c.parameters)]

end Flowline
