import Flowline.Document.Basic

/-! Sample documents: the usual chain of four nodes, a chain without declared inputs, a cycle, and
a start node with two ways to go. -/

namespace Flowline.Samples

def startId : String := "node-start::001"
def llmId : String := "node-llm::002"
def pluginId : String := "node-plugin::003"
def endId : String := "node-end::004"

def constant (name : String) (v : Json) : Input :=
  ⟨none, name, some ⟨some "string", some (.literal v)⟩⟩

def bound (name node output : String) : Input :=
  ⟨none, name, some ⟨some "string", some (.reference ⟨node, output⟩)⟩⟩

def output (name : String) : Output := ⟨none, name, none, false⟩

def label (type title : String) : Option Label := some ⟨some type, some title⟩

def node (id : String) (params : List (String × Json)) (outputs : List Output) : Node :=
  ⟨id, ⟨[], none, .ofList params, outputs⟩⟩

def edge (source target : String) : Edge := ⟨source, target, none⟩

/-- Writes the opening of a podcast about what the run is given, and has it spoken. -/
def podcast : Document where
  nodes := [
    ⟨startId, ⟨[], label "node-start" "Start", ∅, [output "user_input"]⟩⟩,
    ⟨llmId, ⟨[bound "input" startId "user_input"], label "node-llm" "Script writer", .ofList [
        ("domain", .string "generalv3.5"), ("temperature", .float (.ofDecimal false 7 (-1))),
        ("maxTokens", .int 1024), ("prompt", .string
          ("Write a podcast intro about " ++ Reference.placeholder ⟨startId, "user_input"⟩))],
      [output "output"]⟩⟩,
    ⟨pluginId, ⟨[bound "text" llmId "output", constant "vcn" (.string "x5_lingfeiyi_flow"),
        constant "speed" (.int 50)], label "node-plugin" "Voice", .ofList [
        ("pluginId", .string "tool@8b2262bef821000"), ("operationId", .string "synth-46EXFdLW")],
      [output "voice_url"]⟩⟩,
    ⟨endId, ⟨[bound "script" llmId "output", bound "audio" pluginId "voice_url"],
      label "node-end" "End", .ofList [("outputMode", .int 1), ("template", .string
        ("Script: " ++ Reference.placeholder ⟨llmId, "output"⟩
          ++ "\nAudio: " ++ Reference.placeholder ⟨pluginId, "voice_url"⟩))], []⟩⟩]
  edges := [edge startId llmId, edge llmId pluginId, edge pluginId endId]

/-- Greets whoever the run is given. -/
def literalChain : Document where
  nodes := [
    node startId [] [],
    node llmId [("prompt", .string ("Say hi to " ++ Reference.placeholder ⟨startId, "name"⟩))]
      [output "output"],
    node endId [("template", .string ("<" ++ Reference.placeholder ⟨llmId, "output"⟩ ++ ">"))] []]
  edges := [edge startId llmId, edge llmId endId]

def cyclic : Document where
  nodes := [node startId [] [], node "node-llm::a" [("prompt", .string "a")] [],
    node "node-llm::b" [("prompt", .string "b")] []]
  edges := [edge startId "node-llm::a", edge "node-llm::a" "node-llm::b",
    edge "node-llm::b" "node-llm::a"]

/-- Two ways to go, of which the first is taken. -/
def branching : Document where
  nodes := [node startId [] [], node llmId [("prompt", .string "never runs")] [],
    node endId [("outputMode", .int 0)] []]
  edges := [edge startId endId, edge startId llmId]

def named? : String → Option Document
  | "podcast" => some podcast
  | "literal_chain" => some literalChain
  | "cyclic" => some cyclic
  | "branching" => some branching
  | _ => none

end Flowline.Samples
