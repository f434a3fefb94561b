import Flowline.Document.Basic
import Flowline.Json.Record

/-! Reading documents. -/

namespace Flowline

open Json

def Reference.read? : Reader Reference := fun d t => do
  let r ← Record.read? ["nodeId", "name"] d t
  return ⟨← r.required "nodeId" .text, ← r.required "name" .text⟩

/-! A binding is a tag with a content, in either order; both have to be there. The content decides
nothing by itself, so one that comes before its tag is read as an open value first. -/

inductive Binding.Tag where
  | literal
  | reference
deriving DecidableEq, Repr

def Binding.Tag.ofWord? : String → Option Tag
  | "literal" => some .literal
  | "ref" => some .reference
  | _ => none

/-- The content under a tag. -/
def Binding.content? (tag : Tag) : Reader Binding := fun d t =>
  match tag with
  | .literal => (Reader.value d t).map .literal
  | .reference => (Reference.read? d t).map .reference

def Binding.precedes (a b : String) (fields : List (String × Tree)) : Bool :=
  match fields.find? fun f => f.1 = a || f.1 = b with
  | some f => f.1 = a
  | none => false

/-- A content in front of its tag has to be a value in itself, and then one that the tag admits. -/
def Binding.read? : Reader Binding := fun d t => do
  let r ← Record.read? ["type", "content"] d t
  let tag ← r.required "type" (.word Tag.ofWord?)
  if precedes "content" "type" r.fields then
    discard (r.required "content" .value)
  r.required "content" (content? tag)

def InputSchema.read? : Reader InputSchema := fun d t => do
  let r ← Record.read? ["type", "value"] d t
  return ⟨← r.optional "type" .text, ← r.optional "value" Binding.read?⟩

def Input.read? : Reader Input := fun d t => do
  let r ← Record.read? ["id", "name", "schema"] d t
  return ⟨← r.optional "id" .text, ← r.required "name" .text,
    ← r.optional "schema" InputSchema.read?⟩

def Output.read? : Reader Output := fun d t => do
  let r ← Record.read? ["id", "name", "schema", "required"] d t
  return ⟨← r.optional "id" .text, ← r.required "name" .text, ← r.optional "schema" .table,
    ← r.defaulted "required" .bool false⟩

def Label.read? : Reader Label := fun d t => do
  let r ← Record.read? ["nodeType", "aliasName"] d t
  return ⟨← r.optional "nodeType" .text, ← r.optional "aliasName" .text⟩

/-- Every part of the settings may be missing, and the label may be null. -/
def Settings.read? : Reader Settings := fun d t => do
  let r ← Record.read? ["inputs", "nodeMeta", "nodeParam", "outputs"] d t
  return ⟨← r.defaulted "inputs" (.list Input.read?) [], ← r.optional "nodeMeta" Label.read?,
    ← r.defaulted "nodeParam" .table ∅, ← r.defaulted "outputs" (.list Output.read?) []⟩

def Node.read? : Reader Node := fun d t => do
  let r ← Record.read? ["id", "data"] d t
  return ⟨← r.required "id" .text, ← r.defaulted "data" Settings.read? .empty⟩

def Edge.read? : Reader Edge := fun d t => do
  let r ← Record.read? ["sourceNodeId", "targetNodeId", "sourceHandle"] d t
  return ⟨← r.required "sourceNodeId" .text, ← r.required "targetNodeId" .text,
    ← r.optional "sourceHandle" .text⟩

def Document.read? : Reader Document := fun d t => do
  let r ← Record.read? ["nodes", "edges"] d t
  return ⟨← r.defaulted "nodes" (.list Node.read?) [], ← r.defaulted "edges" (.list Edge.read?) []⟩

def Document.parse? (text : String) : Option Document := decode? Document.read? text

end Flowline
