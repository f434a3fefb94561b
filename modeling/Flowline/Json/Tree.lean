import Flowline.Json.Token

/-! The tree of a JSON text, members in the order of the text and repeated keys kept. Tokens are
put together from left to right on a stack of open containers, so a text may nest as deeply as it
likes; a bound on the depth is up to whoever reads a part of the tree as a value. -/

namespace Flowline.Json

/-- A tree whose numbers and strings may be spelt right and still have no value. -/
inductive Tree where
  | null
  | bool (b : Bool)
  | number (n : Option Number)
  | string (s : Option String)
  | array (items : List Tree)
  | object (members : List (Option String × Tree))
deriving Inhabited

namespace Tree

/-! ## From tokens -/

/-- An open container: what is complete in it, last first, and in an object the key whose value
comes next. -/
inductive Frame where
  | items (done : List Tree)
  | members (done : List (Option String × Tree)) (key : Option String)

/-- What may come next, inside the open containers, innermost first. A fresh container may also
close. -/
inductive State where
  | value (opened : List Frame) (fresh : Bool)
  | key (opened : List Frame) (done : List (Option String × Tree)) (fresh : Bool)
  | colon (opened : List Frame) (done : List (Option String × Tree)) (key : Option String)
  | complete (opened : List Frame) (tree : Tree)

def scalar? : Token → Option Tree
  | .null => some .null
  | .bool b => some (.bool b)
  | .number n => some (.number n)
  | .string s => some (.string s)
  | _ => none

/-- Takes a token. A container that has just been opened may be closed at once, and not after a
comma. -/
def State.next? : State → Token → Option State
  | .value o _, .openArray => some (.value (.items [] :: o) true)
  | .value o _, .openObject => some (.key o [] true)
  | .value (.items [] :: o) true, .closeArray => some (.complete o (.array []))
  | .value o _, t => (scalar? t).map (.complete o)
  | .key o d _, .string k => some (.colon o d k)
  | .key o _ true, .closeObject => some (.complete o (.object []))
  | .colon o d k, .colon => some (.value (.members d k :: o) false)
  | .complete (.items d :: o) v, .comma => some (.value (.items (v :: d) :: o) false)
  | .complete (.items d :: o) v, .closeArray => some (.complete o (.array (v :: d).reverse))
  | .complete (.members d k :: o) v, .comma => some (.key o ((k, v) :: d) false)
  | .complete (.members d k :: o) v, .closeObject =>
    some (.complete o (.object ((k, v) :: d).reverse))
  | _, _ => none

/-- The tree, once it is complete and nothing is open. -/
def State.tree? : State → Option Tree
  | .complete [] v => some v
  | _ => none

def ofTokens? (ts : List Token) : Option Tree :=
  (ts.foldlM State.next? (.value [] false)).bind State.tree?

def parse? (text : String) : Option Tree := (Token.scan text.toList).bind ofTokens?

/-! ## To values -/

mutual
/-- The value of a tree in which containers nest at most `depth` deep. -/
def value? (depth : Nat) : Tree → Option Json
  | .null => some .null
  | .bool b => some (.bool b)
  | .number n => n.map .number
  | .string s => s.map .string
  | .array items =>
    match depth with
    | 0 => none
    | d + 1 => (values? d items).map .array
  | .object members =>
    match depth with
    | 0 => none
    | d + 1 => (members? d members).map ofMembers

def values? (depth : Nat) : List Tree → Option (List Json)
  | [] => some []
  | t :: r => do return (← value? depth t) :: (← values? depth r)

def members? (depth : Nat) : List (Option String × Tree) → Option (List (String × Json))
  | [] => some []
  | (k, t) :: r => do return ((← k), (← value? depth t)) :: (← members? depth r)
end

end Tree

def depthLimit : Nat := 127

def parse? (text : String) : Option Json := (Tree.parse? text).bind (Tree.value? depthLimit)

end Flowline.Json
