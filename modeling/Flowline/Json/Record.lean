import Flowline.Json.Tree

/-! Reading typed values off a tree. A record is written as an object with named fields or as an
array of its fields in declaration order. Fields that the record does not have are passed over
unread, so anything that is spelt right may stand in them. -/

namespace Flowline.Json

/-- Reads a value off a tree in which containers may nest so deep. -/
abbrev Reader (α : Type) := Nat → Tree → Option α

namespace Reader

def text : Reader String
  | _, .string s => s
  | _, _ => none

def bool : Reader Bool
  | _, .bool b => some b
  | _, _ => none

/-- An integer within bounds; a floating-point value is none, even a whole one. -/
def intWithin (least greatest : Int) : Reader Int
  | _, .number (some (.integer n)) => if least ≤ n ∧ n ≤ greatest then some n else none
  | _, _ => none

/-- An integer of 64 bits with a sign. -/
def int : Reader Int := intWithin (-0x8000000000000000) 0x7fffffffffffffff

def value : Reader Json := Tree.value?

def table : Reader (Table Json)
  | d + 1, .object ms => (Tree.members? d ms).map Table.ofList
  | _, _ => none

/-- A list, every item of which has to be readable. -/
def list {α : Type} (read : Reader α) : Reader (List α)
  | d + 1, .array items => items.mapM (read d)
  | _, _ => none

def nullable {α : Type} (read : Reader α) : Reader (Option α)
  | _, .null => some none
  | d, t => (read d t).map some

theorem nullable_of_ne {α : Type} {read : Reader α} {t : Tree} (h : t ≠ .null) (d : Nat) :
    nullable read d t = (read d t).map some := by
  cases t <;> first | rfl | exact absurd rfl h

/-- One of several words, alone or as the one key of an object whose value is null. -/
def word {α : Type} (named : String → Option α) : Reader α
  | _, .string (some s) => named s
  | _ + 1, .object [(some s, .null)] => named s
  | _, _ => none

end Reader

/-! ## Records -/

/-- The fields that are present, by name, and how deep containers may nest in them. -/
structure Record where
  depth : Nat
  fields : List (String × Tree)

namespace Record

def keys? : List (Option String × Tree) → Option (List (String × Tree))
  | [] => some []
  | (k, t) :: r => do return ((← k), t) :: (← keys? r)

/-- The fields of a record with the given names. Every key has to be a text, a field may be written
once, and an array may end early but not run over. -/
def read? (names : List String) : Reader Record
  | d + 1, .array items =>
    if items.length ≤ names.length then some ⟨d, names.zip items⟩ else none
  | d + 1, .object ms => do
    let fields := (← keys? ms).filter (names.contains ·.1)
    if (fields.map (·.1)).Nodup then some ⟨d, fields⟩ else none
  | _, _ => none

variable {α : Type}

/-- A field that has to be there; null is a value like any other. -/
def required (r : Record) (name : String) (read : Reader α) : Option α :=
  (r.fields.lookup name).bind (read r.depth)

def defaulted (r : Record) (name : String) (read : Reader α) (missing : α) : Option α :=
  match r.fields.lookup name with
  | some t => read r.depth t
  | none => some missing

def optional (r : Record) (name : String) (read : Reader α) : Option (Option α) :=
  r.defaulted name (Reader.nullable read) none

end Record

def decode? {α : Type} (read : Reader α) (text : String) : Option α :=
  (Tree.parse? text).bind (read depthLimit)

end Flowline.Json
