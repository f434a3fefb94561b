import Flowline.Decimal.Notation
import Flowline.Json.Basic

/-! The compact text of a value: no blanks, members in their order, an escape only where a string
could not hold the character itself. A floating-point value that is not finite is written `null`. -/

namespace Flowline.Json

/-! ## Strings -/

/-- The letter that stands for a character after a backslash. -/
def escapeLetter? : Char → Option Char
  | '"' => some '"'
  | '\\' => some '\\'
  | '\n' => some 'n'
  | '\r' => some 'r'
  | '\t' => some 't'
  | '\x08' => some 'b'
  | '\x0c' => some 'f'
  | _ => none

def hexDigit (n : Nat) : Char := Nat.digitChar n

def escaped (c : Char) : List Char :=
  match escapeLetter? c with
  | some l => ['\\', l]
  | none =>
    if c.toNat < 0x20 then ['\\', 'u', '0', '0', hexDigit (c.toNat / 16), hexDigit (c.toNat % 16)]
    else [c]

def quoted (s : String) : List Char := '"' :: s.toList.flatMap escaped ++ ['"']

/-! ## Values -/

def numberChars : Number → List Char
  | .integer n => if n < 0 then '-' :: Nat.toDigits 10 n.natAbs else Nat.toDigits 10 n.natAbs
  | .float (.finite s m q) => (Double.finite s m q).chars
  | .float _ => ['n', 'u', 'l', 'l']

mutual
def chars : Json → List Char
  | .null => ['n', 'u', 'l', 'l']
  | .bool true => ['t', 'r', 'u', 'e']
  | .bool false => ['f', 'a', 'l', 's', 'e']
  | .number n => numberChars n
  | .string s => quoted s
  | .array [] => ['[', ']']
  | .array (v :: r) => '[' :: chars v ++ itemsChars r
  | .object [] => ['\x7b', '\x7d']
  | .object ((k, v) :: r) => '\x7b' :: quoted k ++ ':' :: chars v ++ membersChars r

/-- The items after the first one, with the closing bracket. -/
def itemsChars : List Json → List Char
  | [] => [']']
  | v :: r => ',' :: chars v ++ itemsChars r

/-- The members after the first one, with the closing brace. -/
def membersChars : List (String × Json) → List Char
  | [] => ['\x7d']
  | (k, v) :: r => ',' :: quoted k ++ ':' :: chars v ++ membersChars r
end

def text (v : Json) : String := String.ofList v.chars

end Flowline.Json
