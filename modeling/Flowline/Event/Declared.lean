import Flowline.Event.Basic

/-! The declaration behind the written form of an event. Every kind of event is declared with a name
and with fields, all of them made of English words; what is written is derived from these words by
one rule for names and another for fields. An event read through its declaration is the event as it
is written elsewhere, name and fields alike. -/

namespace Flowline

/-! ## Words -/

namespace Words

/-- `NodeStart` as `node_start`: a capital inside starts a word. -/
def snake : List Char → List Char
  | [] => []
  | c :: cs => c.toLower :: cs.flatMap fun c => if c.isUpper then ['_', c.toLower] else [c]

/-- The words of `node_id` run together, each with a capital if `raised`, the later ones anyway. -/
def runTogether (raised : Bool) : List Char → List Char
  | [] => []
  | c :: cs =>
    if c = '_' then runTogether true cs
    else (if raised then c.toUpper else c) :: runTogether false cs

def camel (cs : List Char) : List Char :=
  match runTogether true cs with
  | [] => []
  | c :: cs => c.toLower :: cs

end Words

/-! ## Declarations -/

/-- A kind of event as it is declared, with the values of its fields. -/
structure Declared where
  kind : String
  renamed? : Option String
  fields : List (String × Json)

namespace Declared

/-- A value of an enumeration without fields, by the name of its constructor. -/
def status (constructor : String) : Json :=
  .string (String.ofList (constructor.toList.map Char.toLower))

def tag (d : Declared) : String :=
  d.renamed?.getD (String.ofList (Words.snake d.kind.toList))

def members (d : Declared) : List (String × Json) :=
  d.fields.map fun f => (String.ofList (Words.camel f.1.toList), f.2)

def toJson (d : Declared) : Json :=
  .object [("event", .string d.tag), ("data", .object d.members)]

end Declared

namespace Event

/-- The declaration of an event. A failed run takes its name from a failed node. -/
def declared : Event → Declared
  | nodeStart n t => ⟨"NodeStart", none,
      [("node_id", .string n), ("node_type", .string t), ("status", Declared.status "Started")]⟩
  | nodeOutput n o v => ⟨"NodeOutput", none,
      [("node_id", .string n), ("output_name", .string o), ("output_value", v)]⟩
  | nodeEnd n t => ⟨"NodeEnd", none,
      [("node_id", .string n), ("node_type", .string t), ("status", Declared.status "Completed")]⟩
  | nodeError n m => ⟨"Error", none, [("node_id", .string n), ("error_message", .string m)]⟩
  | thinking n p => ⟨"LlmThinking", none, [("node_id", .string n), ("prompt", .string p)]⟩
  | voiceStart n v k => ⟨"VoiceSynthesisStart", none,
      [("node_id", .string n), ("vcn", .string v), ("text_length", .int k)]⟩
  | complete s => ⟨"WorkflowComplete", none, [("status", .string s)]⟩
  | runFailed k m => ⟨"RunFailed", some "error", [("error", .string k), ("message", .string m)]⟩

theorem tag_declared (e : Event) : e.declared.tag = e.name := by
  cases e <;> simp only [declared, Declared.tag, name, Option.getD_none, Option.getD_some]
  all_goals decide

theorem members_declared (e : Event) : e.declared.members = e.fields := by
  cases e <;> simp only [declared, Declared.members, Declared.status, fields, List.map_cons,
    List.map_nil, List.cons.injEq, Prod.mk.injEq, and_true, Json.string.injEq]
  all_goals decide

theorem toJson_declared (e : Event) : e.declared.toJson = e.toJson := by
  rw [Declared.toJson, tag_declared, members_declared, toJson]

end Event

end Flowline
