import Flowline.Document.Reader
import Flowline.Failure

/-! Graphs: documents whose nodes have distinct ids and a kind each, as far as one can be told. A
node of unknown type is no fault by itself; a run fails when it reaches it. -/

namespace Flowline

inductive Kind where
  | start
  | llm
  | plugin
  | final
deriving DecidableEq, Repr, Inhabited

namespace Kind

def name : Kind → String
  | start => "node-start"
  | llm => "node-llm"
  | plugin => "node-plugin"
  | final => "node-end"

/-- The kind that a type name stands for; each has a canonical and an older name. -/
def ofTypeName? : String → Option Kind
  | "node-start" | "start" => some .start
  | "node-llm" | "spark-llm" => some .llm
  | "node-plugin" | "plugin" => some .plugin
  | "node-end" | "end" => some .final
  | _ => none

theorem ofTypeName?_name (k : Kind) : ofTypeName? k.name = some k := by cases k <;> rfl

end Kind

structure Vertex where
  node : Node
  kind? : Option Kind
deriving Inhabited

namespace Vertex

def id (v : Vertex) : String := v.node.id

/-- The canonical name of the kind; the bare type name of a node without one. -/
def typeLabel (v : Vertex) : String := (v.kind?.map Kind.name).getD v.node.typeName

end Vertex

def Node.idKind? (n : Node) : Option Kind := Kind.ofTypeName? n.typeName

def Node.labelKind? (n : Node) : Option Kind := n.labelType?.bind Kind.ofTypeName?

/-- The kind of a node: by its id, else by its label. Two that disagree are refused. -/
def Node.kind (n : Node) : Except Failure (Option Kind) :=
  match n.idKind?, n.labelKind? with
  | some a, some b =>
    if a = b then .ok (some a)
    else .error (.kindMismatch n.id n.typeName (n.labelType?.getD ""))
  | some a, none => .ok (some a)
  | none, b => .ok b

/-- A document that has been checked. The index says where each id stands among the vertices. -/
structure Graph where
  vertices : List Vertex
  index : Table Nat
  edges : List Edge
deriving Inhabited

namespace Graph

def addNode (acc : List Vertex × Table Nat) (n : Node) :
    Except Failure (List Vertex × Table Nat) := do
  let kind ← n.kind
  if (acc.2.get? n.id).isSome then throw (.duplicateNode n.id)
  return (acc.1 ++ [⟨n, kind⟩], acc.2.insert n.id acc.1.length)

/-- Checks the nodes in order, so the first fault is the one that is told. Edges are not checked. -/
def ofDocument (d : Document) : Except Failure Graph := do
  let (vertices, index) ← d.nodes.foldlM addNode ([], ∅)
  return ⟨vertices, index, d.edges⟩

def parse (text : String) : Except Failure Graph :=
  match Document.parse? text with
  | some d => ofDocument d
  | none => .error (.document Failure.unreadableJson)

/-- The node with an id, by way of the index. -/
def vertex? (g : Graph) (id : String) : Option Vertex :=
  (g.index.get? id).bind (g.vertices[·]?)

def outgoing (g : Graph) (id : String) : List Edge := g.edges.filter (·.source = id)

def start? (g : Graph) : Option Vertex := g.vertices.find? (·.kind? = some .start)

theorem mem_of_vertex? {g : Graph} {id : String} {v : Vertex} (h : g.vertex? id = some v) :
    v ∈ g.vertices := by
  obtain ⟨i, _, hi⟩ := Option.bind_eq_some_iff.1 h
  exact List.mem_of_getElem? hi

theorem mem_of_start? {g : Graph} {v : Vertex} (h : g.start? = some v) : v ∈ g.vertices :=
  List.mem_of_find?_eq_some h

end Graph

end Flowline
