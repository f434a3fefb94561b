import Flowline.Document.Basic
import Flowline.Template

/-! The variables of one run: the outputs of its nodes, each under its node's id and its own name
joined by a point. -/

namespace Flowline

structure Store where
  values : Table Json
deriving Inhabited

namespace Store

def key (node name : String) : String := node ++ "." ++ name

def empty : Store := ⟨∅⟩

/-- Sets an output. Two outputs whose joined keys agree are one variable. -/
def set (s : Store) (node name : String) (v : Json) : Store :=
  ⟨s.values.insert (key node name) v⟩

def get? (s : Store) (node name : String) : Option Json := s.values.get? (key node name)

def size (s : Store) : Nat := s.values.size

/-- What a placeholder stands for: the shown value, nothing where there is none. -/
def shown (s : Store) (key : List Char) : List Char :=
  ((s.values.get? (String.ofList key)).elim "" Json.shown).toList

def resolve (s : Store) (template : String) : String :=
  String.ofList (Template.fill s.shown (Template.parse template.toList))

/-- The value of a binding; a reference to an output that is not there has the value null. -/
def value (s : Store) : Binding → Json
  | .literal v => v
  | .reference r => (s.get? r.node r.name).getD .null

/-- The values of the inputs that are bound, by name; of two with one name the later one counts. -/
def inputs (s : Store) (n : Node) : Table Json :=
  Table.ofList (n.settings.inputs.filterMap fun i => i.binding?.map fun b => (i.name, s.value b))

@[simp] theorem get?_set (s : Store) (n o m p : String) (v : Json) :
    (s.set n o v).get? m p = if key m p = key n o then some v else s.get? m p :=
  Table.get?_insert ..

end Store

end Flowline
