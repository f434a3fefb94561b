import Flowline.Document.Basic

/-! What is asked of the two collaborators of a run: a chat model, which answers a request with a
text, and a tool service, which answers a call with a value. -/

namespace Flowline

inductive Role where
  | system
  | user
  | assistant
deriving DecidableEq, Repr, Inhabited

structure Message where
  role : Role
  content : String
deriving DecidableEq, Repr, Inhabited

/-- A conversation that the model is to go on with, and how freely and how long it may. -/
structure ChatRequest where
  domain : String
  temperature : Double
  maxTokens : Nat
  messages : List Message
deriving DecidableEq, Repr, Inhabited

/-- An operation of a tool, with the value that it is applied to. -/
structure ToolCall where
  tool : String
  operation : String
  parameters : Json
deriving Repr, Inhabited

end Flowline
