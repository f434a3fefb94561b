import Flowline.Failure
import Flowline.Json.Printer

/-! What a run reports while it goes on, and how a report is written: as an object with a name and
data, or as a frame of a server-sent event stream. -/

namespace Flowline

/-- A report of a run. All but the last two are about one node. -/
inductive Event where
  | nodeStart (node type : String)
  | nodeOutput (node name : String) (value : Json)
  | nodeEnd (node type : String)
  | nodeError (node message : String)
  | thinking (node prompt : String)
  | voiceStart (node voice : String) (textLength : Nat)
  | complete (status : String)
  /-- The run failed as a whole, whether or not a node did. -/
  | runFailed (kind message : String)
deriving Repr, Inhabited

namespace Event

/-- The name of an event. A failed node and a failed run share one and differ in their data. -/
def name : Event → String
  | nodeStart .. => "node_start"
  | nodeOutput .. => "node_output"
  | nodeEnd .. => "node_end"
  | nodeError .. | runFailed .. => "error"
  | thinking .. => "llm_thinking"
  | voiceStart .. => "voice_synthesis_start"
  | complete _ => "workflow_complete"

def fields : Event → List (String × Json)
  | nodeStart n t =>
    [("nodeId", .string n), ("nodeType", .string t), ("status", .string "started")]
  | nodeOutput n o v => [("nodeId", .string n), ("outputName", .string o), ("outputValue", v)]
  | nodeEnd n t =>
    [("nodeId", .string n), ("nodeType", .string t), ("status", .string "completed")]
  | nodeError n m => [("nodeId", .string n), ("errorMessage", .string m)]
  | thinking n p => [("nodeId", .string n), ("prompt", .string p)]
  | voiceStart n v k => [("nodeId", .string n), ("vcn", .string v), ("textLength", .int k)]
  | complete s => [("status", .string s)]
  | runFailed k m => [("error", .string k), ("message", .string m)]

/-- The event with its name, fields in declaration order. -/
def toJson (e : Event) : Json :=
  .object [("event", .string e.name), ("data", .object e.fields)]

def data (e : Event) : Json := Json.sorted (.object e.fields)

/-- One frame of an event stream: two lines and a blank one. -/
def frame (e : Event) : String :=
  "event: " ++ e.name ++ "\ndata: " ++ e.data.text ++ "\n\n"

def ofFailure (f : Failure) : Event := .runFailed f.kind f.message

def isTerminal : Event → Bool
  | complete _ | runFailed .. => true
  | _ => false

end Event

end Flowline
