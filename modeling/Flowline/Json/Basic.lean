import Flowline.Decimal.Double
import Flowline.Table

/-! JSON values. A number is an integer where its text fits one and a floating-point value
otherwise, so `1` and `1.0` differ. The members of an object stand in the order in which they are
written: declaration order for a record, ascending keys for an open object. -/

namespace Flowline

/-- A number as it is written, with a fraction or an exponent or without both. -/
inductive Number where
  | integer (n : Int)
  | float (x : Double)
deriving DecidableEq, Repr, Inhabited

def Number.toDouble : Number → Double
  | .integer n => .ofInt n
  | .float x => x

/-- A value. Members keep their order, so two objects can differ in it. -/
inductive Json where
  | null
  | bool (b : Bool)
  | number (n : Number)
  | string (s : String)
  | array (items : List Json)
  | object (members : List (String × Json))
deriving Repr, Inhabited

namespace Json

/-- An object with open keys: sorted, the last of several members with one key. -/
def ofMembers (l : List (String × Json)) : Json := .object (Entries.ofList l)

def int (n : Int) : Json := .number (.integer n)

/-- A value of which only a finite one can be written. -/
def float (x : Double) : Json := .number (.float x)

def ofText? : Option String → Json
  | some s => .string s
  | none => .null

def isNull : Json → Bool
  | .null => true
  | _ => false

/-- The member of an object; nothing for any other value. -/
def member? (k : String) : Json → Option Json
  | .object ms => Entries.find? k ms
  | _ => none

/-! ## Open form -/

mutual
/-- The value with the members of all its objects sorted. -/
def sorted : Json → Json
  | .array items => .array (sortedItems items)
  | .object ms => ofMembers (sortedMembers ms)
  | v => v

def sortedItems : List Json → List Json
  | [] => []
  | v :: r => sorted v :: sortedItems r

def sortedMembers : List (String × Json) → List (String × Json)
  | [] => []
  | (k, v) :: r => (k, sorted v) :: sortedMembers r
end

end Json

end Flowline
