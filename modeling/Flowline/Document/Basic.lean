import Flowline.Json.View

/-! Workflow documents: nodes with their inputs, parameters and outputs, and the edges between
them, as an editor stores them. Nothing here is checked; a document becomes a graph for that. -/

namespace Flowline

/-- Points at the output `name` of the node `node`. -/
structure Reference where
  node : String
  name : String
deriving DecidableEq, Repr, Inhabited

/-- What an input is bound to: a constant of the document or another node's output. -/
inductive Binding where
  | literal (value : Json)
  | reference (r : Reference)
deriving Repr, Inhabited

structure InputSchema where
  type? : Option String
  value? : Option Binding
deriving Repr, Inhabited

/-- An input of a node under its name; without a schema it is bound to nothing. -/
structure Input where
  id? : Option String
  name : String
  schema? : Option InputSchema
deriving Repr, Inhabited

/-- An output that a node declares. What a node puts out does not depend on it, except that a reply
takes the name of the first. -/
structure Output where
  id? : Option String
  name : String
  schema? : Option (Table Json)
  required : Bool
deriving Inhabited

structure Label where
  type? : Option String
  alias? : Option String
deriving DecidableEq, Repr, Inhabited

/-- All that the editor stores about a node besides its id. -/
structure Settings where
  inputs : List Input
  label? : Option Label
  /-- Open parameters; what they mean is up to the node's kind. -/
  params : Table Json
  outputs : List Output
deriving Inhabited

/-- A node under an id that starts with the name of its type. -/
structure Node where
  id : String
  settings : Settings
deriving Inhabited

/-- An edge from a node to one that may follow it. -/
structure Edge where
  source : String
  target : String
  /-- The output that the edge starts from, if the editor noted it. -/
  handle? : Option String
deriving DecidableEq, Repr, Inhabited

structure Document where
  nodes : List Node
  edges : List Edge
deriving Inhabited

/-! ## References -/

def Reference.placeholder (r : Reference) : String :=
  "\x7b\x7b" ++ r.node ++ "." ++ r.name ++ "\x7d\x7d"

def Input.binding? (i : Input) : Option Binding := i.schema?.bind (·.value?)

/-! ## Settings -/

namespace Settings

def empty : Settings := ⟨[], none, ∅, []⟩

/-- A parameter that is there and not null. -/
def param? (s : Settings) (key : String) : Option Json :=
  (s.params.get? key).filter fun v => !v.isNull

def text? (s : Settings) (key : String) : Option String := (s.param? key).map Json.shown
def double? (s : Settings) (key : String) : Option Double := (s.param? key).bind Json.double?
def int? (s : Settings) (key : String) : Option Int := (s.param? key).bind Json.int?

end Settings

/-! ## Nodes -/

namespace Node

/-- The text before the first double colon; the whole text if there is none. -/
def beforeSeparator : List Char → List Char
  | ':' :: ':' :: _ => []
  | c :: r => c :: beforeSeparator r
  | [] => []

def typeName (n : Node) : String := String.ofList (beforeSeparator n.id.toList)

def labelType? (n : Node) : Option String := n.settings.label?.bind (·.type?)

/-- The name to show; the id if the editor noted none. -/
def displayName (n : Node) : String := (n.settings.label?.bind (·.alias?)).getD n.id

end Node

/-! ## Documents -/

namespace Document

def node? (d : Document) (id : String) : Option Node := d.nodes.find? (·.id = id)

def outgoing (d : Document) (id : String) : List Edge := d.edges.filter (·.source = id)

end Document

end Flowline
