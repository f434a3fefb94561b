import Flowline.Graph.Basic
import Flowline.Run.Job
import Flowline.Store

/-! What a node does when its turn comes. The decision is a function of the node and the variables
alone: an action is either a set of outputs at hand, a question to the chat model, or a call of the
voice tool, and nothing has been reported or asked when a node turns out to lack a parameter. -/

namespace Flowline

/-- What holds where a node does not say. -/
structure Defaults where
  domain : String
  speed : Int
deriving Inhabited

/-- A question to the chat model. -/
structure Prompt where
  text : String
  domain : String
  temperature : Double
  maxTokens : Nat
  output : String
deriving Inhabited

structure Speech where
  text : String
  voice : String
  speed : Int
  operation : String
deriving Inhabited

inductive Action where
  | publish (outputs : Table Json)
  | prompt (p : Prompt)
  | speak (s : Speech)
deriving Inhabited

/-! ## The chat model -/

namespace Prompt

/-- The request is one message of the user; nothing of earlier nodes goes with it. -/
def request (p : Prompt) : ChatRequest :=
  ⟨p.domain, p.temperature, p.maxTokens, [⟨.user, p.text⟩]⟩

def defaultTemperature : Double := .ofDecimal false 5 (-1)
def defaultMaxTokens : Nat := 2048
def defaultOutput : String := "llm_output"

def outputs (p : Prompt) (reply : String) : Table Json := Table.ofList [(p.output, .string reply)]

def template? (s : Settings) : Option String := (s.text? "prompt").or (s.text? "template")

/-- The token limit under either of its names; one that does not fit 32 bits does not count. -/
def maxTokens? (s : Settings) : Option Nat :=
  (((s.int? "maxTokens").or (s.int? "max_tokens")).filter fun n => 0 ≤ n && n < 0x100000000).map
    Int.toNat

def ofNode (d : Defaults) (store : Store) (n : Node) : Except Failure Prompt :=
  match template? n.settings with
  | none => .error (.missingParameter n.id "prompt")
  | some t => .ok {
      text := store.resolve t
      domain := ((n.settings.text? "domain").or (n.settings.text? "model")).getD d.domain
      temperature := (n.settings.double? "temperature").getD defaultTemperature
      maxTokens := (maxTokens? n.settings).getD defaultMaxTokens
      output := (n.settings.outputs.head?.map Output.name).getD defaultOutput }

end Prompt

/-! ## The voice tool -/

namespace Speech

def tool : String := "tool@8b2262bef821000"

def urlName : String := "voice_url"

def call (s : Speech) : ToolCall :=
  ⟨tool, s.operation, Json.ofMembers
    [("text", .string s.text), ("vcn", .string s.voice), ("speed", .int s.speed)]⟩

/-- Where a response puts the address of the recording: among its data, else beside them. -/
def url? (response : Json) : Option String :=
  let inside := (response.member? "data").bind (·.member? urlName)
  (inside.or (response.member? urlName)).bind fun
    | .string u => some u
    | _ => none

def outputs (response : Json) : Except Failure (Table Json) :=
  match url? response with
  | some u => .ok (Table.ofList [(urlName, .string u)])
  | none => .error (.plugin tool ("response has no voice_url: " ++ response.text))

def input? (inputs : Table Json) (name : String) : Option String :=
  ((inputs.get? name).filter fun v => !v.isNull).map Json.shown

/-- The text that a node has spoken; the first thing that it lacks is its failure. -/
def ofNode (d : Defaults) (inputs : Table Json) (n : Node) : Except Failure Speech := do
  let some plugin := n.settings.text? "pluginId" | throw (.missingParameter n.id "pluginId")
  if plugin ≠ tool then throw (.unsupportedPlugin plugin)
  let some text := (input? inputs "text").or (input? inputs "input")
    | throw (.missingParameter n.id "text")
  let some voice := (input? inputs "vcn").or (n.settings.text? "vcn")
    | throw (.missingParameter n.id "vcn")
  return {
    text := text
    voice := voice
    speed := ((inputs.get? "speed").bind Json.int?).getD d.speed
    operation := (n.settings.text? "operationId").getD "" }

end Speech

/-! ## The final node -/

namespace Node

def finalOutput : String := "final_output"

def listing (inputs : Table Json) : String :=
  String.join (inputs.entries.map fun e => e.1 ++ ": " ++ e.2.shown ++ "\n")

/-- What a final node says: its template filled in, or a listing of its inputs if it has none or
is not to use it. -/
def finalText (store : Store) (inputs : Table Json) (n : Node) : String :=
  let template := (n.settings.text? "template").getD ""
  if (n.settings.int? "outputMode").getD 1 = 1 ∧ template ≠ "" then store.resolve template
  else listing inputs

end Node

/-! ## All kinds -/

namespace Action

/-- The action of a node of some kind. A start node publishes what the run was given, with its own
inputs over it. -/
def ofNode (d : Defaults) (initial : Table Json) (store : Store) (k : Kind) (n : Node) :
    Except Failure Action :=
  let inputs := store.inputs n
  match k with
  | .start => .ok (.publish (initial.insertAll inputs.entries))
  | .llm => (Prompt.ofNode d store n).map .prompt
  | .plugin => (Speech.ofNode d inputs n).map .speak
  | .final => .ok (.publish (Table.ofList [(Node.finalOutput, .string (n.finalText store inputs))]))

/-- Carries out an action: at most one report and one question. -/
def perform (node : String) : Action → Job (Except Failure (Table Json))
  | publish outputs => pure (.ok outputs)
  | prompt p => do
    Job.report (.thinking node p.text)
    let reply ← Job.query (.chat p.request)
    return reply.map p.outputs
  | speak s => do
    Job.report (.voiceStart node s.voice s.text.length)
    let response ← Job.query (.call s.call)
    return response.bind Speech.outputs

end Action

end Flowline
