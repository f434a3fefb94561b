import Flowline.Text.Hex

/-! Identifiers of runs: 128 bits, of which the version and the variant are fixed. They are written
in five groups of lower-case hexadecimal digits; reading also takes the digits without hyphens, in
braces, or as a name. -/

namespace Flowline

/-- The 32 hexadecimal digits, each below 16. -/
structure RunId where
  digits : List Nat
deriving DecidableEq, Repr, Inhabited

namespace RunId

/-- Where hyphens stand between the digits. -/
def groups : List Nat := [8, 4, 4, 4, 12]

/-- Cuts a list into pieces of the given lengths. -/
def cut {α : Type} : List Nat → List α → List (List α)
  | [], _ => []
  | n :: ns, l => l.take n :: cut ns (l.drop n)

def chars (r : RunId) : List Char :=
  ['-'].intercalate ((cut groups r.digits).map (·.map Nat.digitChar))

def text (r : RunId) : String := String.ofList r.chars

def ofDigits? (cs : List Char) : Option RunId :=
  if cs.length = 32 then (cs.mapM Text.hexDigit?).map RunId.mk else none

def ofGroups? (cs : List Char) : Option RunId :=
  let parts := cs.splitOn '-'
  if parts.map List.length = groups then ofDigits? parts.flatten else none

/-- Reads an identifier in any spelling. Only the bare digits can do without hyphens. -/
def parse? (cs : List Char) : Option RunId :=
  match cs with
  | '\x7b' :: r => if r.getLast? = some '\x7d' then ofGroups? r.dropLast else none
  | 'u' :: 'r' :: 'n' :: ':' :: 'u' :: 'u' :: 'i' :: 'd' :: ':' :: r => ofGroups? r
  | cs => (ofDigits? cs).or (ofGroups? cs)

/-- An identifier from 32 random digits: the thirteenth tells the version, and the seventeenth
starts with the two bits of the variant. -/
def ofRandom (ds : List Nat) : RunId :=
  ⟨(ds.set 12 4).set 16 (8 + (ds.getD 16 0) % 4)⟩

end RunId

end Flowline
