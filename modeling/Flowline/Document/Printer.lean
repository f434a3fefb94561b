import Flowline.Document.Basic

/-! Writing documents: every field of every record, in declaration order, null where it is
absent. -/

namespace Flowline

open Json

def Table.toJson (t : Table Json) : Json := .object t.entries

def Json.ofOption {α : Type} (f : α → Json) : Option α → Json
  | some a => f a
  | none => .null

def Reference.toJson (r : Reference) : Json :=
  .object [("nodeId", .string r.node), ("name", .string r.name)]

/-- The tag comes first, so that the content is read back under it. -/
def Binding.toJson : Binding → Json
  | .literal v => .object [("type", .string "literal"), ("content", v)]
  | .reference r => .object [("type", .string "ref"), ("content", r.toJson)]

def InputSchema.toJson (s : InputSchema) : Json :=
  .object [("type", ofText? s.type?), ("value", ofOption Binding.toJson s.value?)]

def Input.toJson (i : Input) : Json :=
  .object [("id", ofText? i.id?), ("name", .string i.name),
    ("schema", ofOption InputSchema.toJson i.schema?)]

def Output.toJson (o : Output) : Json :=
  .object [("id", ofText? o.id?), ("name", .string o.name),
    ("schema", ofOption Table.toJson o.schema?), ("required", .bool o.required)]

def Label.toJson (l : Label) : Json :=
  .object [("nodeType", ofText? l.type?), ("aliasName", ofText? l.alias?)]

def Settings.toJson (s : Settings) : Json :=
  .object [("inputs", .array (s.inputs.map Input.toJson)),
    ("nodeMeta", ofOption Label.toJson s.label?), ("nodeParam", s.params.toJson),
    ("outputs", .array (s.outputs.map Output.toJson))]

def Node.toJson (n : Node) : Json :=
  .object [("id", .string n.id), ("data", n.settings.toJson)]

def Edge.toJson (e : Edge) : Json :=
  .object [("sourceNodeId", .string e.source), ("targetNodeId", .string e.target),
    ("sourceHandle", ofText? e.handle?)]

def Document.toJson (d : Document) : Json :=
  .object [("nodes", .array (d.nodes.map Node.toJson)), ("edges", .array (d.edges.map Edge.toJson))]

def Document.text (d : Document) : String := d.toJson.text

end Flowline
