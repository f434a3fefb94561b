import Flowline.Run.Service

/-! Peers that follow a script, and note what they are asked. -/

namespace Flowline

/-- The script. Chat replies are used up in order, while tools and flows answer by what they are
asked. -/
structure Script where
  replies : List (Except Failure String)
  /-- How long each reply takes, in milliseconds. -/
  delay : Nat
  tool : ToolCall → Except Failure Json
  flow : String → Except Failure Document
  asked : List Query

namespace Script

/-- The reply of a model that has run out of its script. -/
def echo (r : ChatRequest) : String := "echo: " ++ (r.messages.getLast?.map Message.content).getD ""

/-- One reply of the model; no tool is known and no flow. -/
def replying (text : String) : Script where
  replies := [.ok text]
  delay := 0
  tool c := .error (.unsupportedPlugin c.tool)
  flow id := .error (.flowNotFound id)
  asked := []

/-- One response for every call of a tool; there is no model and no flow. -/
def responding (response : Json) : Script :=
  { replying "" with replies := [], tool := fun _ => .ok response }

/-- Answers from the script and notes the question first. -/
def peers : Peers Script
  | q@(.flow id), s => (⟨s.flow id, 0⟩, { s with asked := s.asked ++ [q] })
  | q@(.call c), s => (⟨s.tool c, 0⟩, { s with asked := s.asked ++ [q] })
  | q@(.chat r), s =>
    (⟨s.replies.head?.getD (.ok (echo r)), s.delay⟩,
      { s with replies := s.replies.tail, asked := s.asked ++ [q] })

def flowOf (documents : Table Document) (id : String) : Except Failure Document :=
  match documents.get? id with
  | some d => .ok d
  | none => .error (.flowNotFound id)

def requests (s : Script) : List ChatRequest := s.asked.filterMap fun
  | .chat r => some r
  | _ => none

def calls (s : Script) : List ToolCall := s.asked.filterMap fun
  | .call c => some c
  | _ => none

end Script

end Flowline
