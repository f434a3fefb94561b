import Flowline.Graph.Walk
import Flowline.Run.Action

/-! Runs of graphs: the nodes of the path in turn, each reported from its start to its end, its
outputs written to the store in between. A node that fails writes nothing and ends the run. -/

namespace Flowline

/-- The kinds of nodes that can be run, and what holds where they do not say. -/
structure Engine where
  kinds : List Kind
  defaults : Defaults
deriving Inhabited

structure Report where
  order : List String
  final? : Option String
  values : Table Json
deriving Inhabited

/-- Where a run stands between two nodes. -/
structure Progress where
  store : Store
  final? : Option String
  failure? : Option Failure
deriving Inhabited

/-! ## Nodes -/

def Store.setAll (s : Store) (node : String) (outputs : Table Json) : Store :=
  outputs.entries.foldl (fun s e => s.set node e.1 e.2) s

/-- The reports of a node's outputs, in ascending order of their names. -/
def Node.outputEvents (n : Node) (outputs : Table Json) : List Event :=
  outputs.entries.map fun e => .nodeOutput n.id e.1 e.2

/-- Runs a node as one of some kind; the result is its outputs. -/
def Node.run (d : Defaults) (initial : Table Json) (store : Store) (k : Kind) (n : Node) :
    Job (Except Failure (Table Json)) := do
  Job.report (.nodeStart n.id n.typeName)
  let outputs ← match Action.ofNode d initial store k n with
    | .ok a => a.perform n.id
    | .error f => pure (.error f)
  match outputs with
  | .ok outputs =>
    Job.reportAll (n.outputEvents outputs)
    Job.report (.nodeEnd n.id n.typeName)
  | .error f => Job.report (.nodeError n.id f.message)
  return outputs

namespace Engine

def standard (d : Defaults) : Engine := ⟨[.start, .llm, .plugin, .final], d⟩

def require (e : Engine) (k : Kind) : Except Failure Kind :=
  if k ∈ e.kinds then .ok k else .error (.noExecutor k.name)

def kind (e : Engine) (v : Vertex) : Except Failure Kind :=
  match v.kind? with
  | none => .error (.noExecutor v.typeLabel)
  | some k => e.require k

def visit (e : Engine) (initial : Table Json) (store : Store) (v : Vertex) :
    Job (Except Failure (Table Json)) :=
  match e.kind v with
  | .ok k => v.node.run e.defaults initial store k
  | .error f => do
    Job.report (.nodeError v.id f.message)
    return .error f

/-! ## Paths -/

/-- The store of a run that has not begun: what it was given, as outputs of its first node. -/
def seed (initial : Table Json) : List Vertex → Store
  | [] => .empty
  | v :: _ => Store.empty.setAll v.id initial

def advance (p : Progress) (v : Vertex) : Except Failure (Table Json) → Progress
  | .error f => { p with failure? := some f }
  | .ok outputs => {
      store := p.store.setAll v.id outputs
      final? := if v.kind? = some .final then (outputs.get? Node.finalOutput).map Json.shown
        else p.final?
      failure? := none }

/-- Runs nodes in turn up to the first that fails. -/
def walk (e : Engine) (initial : Table Json) : Progress → List Vertex → Job Progress
  | p, [] => pure p
  | p, v :: r => do
    let p := advance p v (← e.visit initial p.store v)
    if p.failure?.isSome then return p else walk e initial p r

def conclude (path : List Vertex) (p : Progress) : Except Failure Report :=
  match p.failure? with
  | some f => .error f
  | none => .ok ⟨path.map Vertex.id, p.final?, p.store.values⟩

def execute (e : Engine) (g : Graph) (initial : Table Json) : Job (Except Failure Report) :=
  match g.path with
  | .error f => pure (.error f)
  | .ok path => do
    let p ← e.walk initial ⟨seed initial path, none, none⟩ path
    return conclude path p

def executeFlow (e : Engine) (id : String) (initial : Table Json) :
    Job (Except Failure Report) := do
  match ← Job.query (.flow id) with
  | .error f => return .error f
  | .ok d =>
    match Graph.ofDocument d with
    | .error f => return .error f
    | .ok g => e.execute g initial

end Engine

end Flowline
