import Flowline.Json.Tree
import Flowline.Toml.Scalar

/-! Reading TOML documents. Loops over lines, items and parts of keys each take a character at
least, so the length of the text bounds them; containers nest to a fixed depth. -/

namespace Flowline.Toml

/-- Reads something from the start of a text and leaves the rest. -/
abbrev Parser (α : Type) : Type := List Char → Option (α × List Char)

def expect? (c : Char) : List Char → Option (List Char)
  | d :: r => if c = d then some r else none
  | [] => none

def skipSpace (cs : List Char) : List Char := cs.dropWhile isSpace

/-! ## Lines -/

/-- The rest behind a line break or at the end. -/
def lineBreak? : List Char → Option (List Char)
  | [] => some []
  | '\n' :: r | '\r' :: '\n' :: r => some r
  | _ => none

/-- The rest behind blanks, a comment and the end of the line. -/
def lineEnd? (cs : List Char) : Option (List Char) :=
  match skipSpace cs with
  | '#' :: r => lineBreak? (r.dropWhile isTextChar)
  | r => lineBreak? r

/-- The rest behind blanks, line breaks and comments; nothing where a comment holds what it may
not. -/
def skipLines? : Bool → List Char → Option (List Char)
  | _, '\r' :: '\n' :: r => skipLines? false r
  | true, c :: r => if c = '\n' then skipLines? false r else if isTextChar c then skipLines? true r
    else none
  | false, c :: r =>
    if isSpace c ∨ c = '\n' then skipLines? false r
    else if c = '#' then skipLines? true r
    else some (c :: r)
  | _, [] => some []

/-! ## Keys -/

def isKeyChar (c : Char) : Bool := c.isAlphanum || c = '_' || c = '-'

/-- A part of a key: a text on one line or a bare word. -/
def keyPart? : Parser String
  | '"' :: r => (basicText? r).map fun p => (String.ofList p.1, p.2)
  | '\'' :: r => (literalText? r).map fun p => (String.ofList p.1, p.2)
  | cs =>
    let word := cs.takeWhile isKeyChar
    if word.isEmpty then none else some (String.ofList word, cs.drop word.length)

/-- Parts with points between them, at most so many. -/
def keyParts? : Nat → Parser (List String)
  | 0, _ => none
  | n + 1, cs => do
    let (part, r) ← keyPart? (skipSpace cs)
    match skipSpace r with
    | '.' :: r =>
      let (parts, r) ← keyParts? n r
      return (part :: parts, r)
    | r => return ([part], r)

/-- How many parts a key may have, and how deep containers may nest. -/
def depthLimit : Nat := 79

def key? : Parser (List String × String) := fun cs => do
  let (parts, r) ← keyParts? depthLimit cs
  return ((parts.dropLast, ← parts.getLast?), r)

/-! ## Values -/

/-- The items of an array up to its closing bracket; a last comma may stand in front of it. -/
def items? (value : Parser Toml) : Nat → Parser (List Toml)
  | 0, _ => none
  | n + 1, cs => do
    match ← skipLines? false cs with
    | ']' :: r => return ([], r)
    | cs =>
      let (v, r) ← value cs
      match ← skipLines? false r with
      | ',' :: r =>
        let (vs, r) ← items? value n r
        return (v :: vs, r)
      | ']' :: r => return ([v], r)
      | _ => none

/-- The assignments of a table in braces, at least one. -/
def pairs? (value : Parser Toml) : Nat → Parser (List (List String × String × Toml))
  | 0, _ => none
  | n + 1, cs => do
    let ((path, key), r) ← key? cs
    let (v, r) ← value (skipSpace (← expect? '=' r))
    match skipSpace r with
    | ',' :: r =>
      let (ps, r) ← pairs? value n r
      return ((path, key, v) :: ps, r)
    | '}' :: r => return ([(path, key, v)], r)
    | _ => none

/-- A value in which containers nest at most so deep. -/
def value? (depth : Nat) : Parser Toml := fun cs =>
  match cs with
  | '"' :: _ | '\'' :: _ => (text? cs).map fun p => (.text (String.ofList p.1), p.2)
  | '[' :: r =>
    match depth with
    | 0 => none
    | d + 1 => (items? (value? d) cs.length r).map fun p => (.array p.1, p.2)
  | '\x7b' :: r =>
    match depth with
    | 0 => none
    | d + 1 =>
      match skipSpace r with
      | '\x7d' :: r => some (.table .inline [], r)
      | r => do
        let (pairs, r) ← pairs? (value? d) cs.length r
        return (← ofPairs? pairs, r)
  | _ => word? cs

/-! ## Documents -/

/-- A header in single or double brackets, alone on its line. -/
def header? : Parser Line
  | '[' :: '[' :: r => do
    let ((path, key), r) ← key? r
    return (.nextHeader path key, ← lineEnd? (← expect? ']' (← expect? ']' r)))
  | '[' :: r => do
    let ((path, key), r) ← key? r
    return (.header path key, ← lineEnd? (← expect? ']' r))
  | _ => none

/-- A key, a sign of equality and a value, alone on their line. -/
def assignment? : Parser Line := fun cs => do
  let ((path, key), r) ← key? cs
  let (v, r) ← value? depthLimit (skipSpace (← expect? '=' r))
  return (.assignment path key v, ← lineEnd? r)

def lines? : Nat → List Char → Option (List Line)
  | _, [] => some []
  | 0, _ => none
  | n + 1, cs =>
    match skipSpace cs with
    | [] => some []
    | '[' :: r => do
      let (line, r) ← header? ('[' :: r)
      return line :: (← lines? n r)
    | '#' :: r => (lineEnd? ('#' :: r)).bind (lines? n)
    | r =>
      match lineBreak? r with
      | some r => lines? n r
      | none => do
        let (line, r) ← assignment? r
        return line :: (← lines? n r)

/-- The document of a text; a byte order mark in front of it does not count. -/
def parse? (text : String) : Option Fields :=
  let cs := match text.toList with
    | '\ufeff' :: r => r
    | cs => cs
  (lines? cs.length cs).bind ofLines?

/-! ## As a tree -/

mutual
/-- The value as a tree to read settings off. A moment is an object of which nothing can be read. -/
def tree : Toml → Json.Tree
  | text s => .string (some s)
  | integer n => .number (some (.integer n))
  | real => .number none
  | bool b => .bool b
  | moment => .object []
  | array items => .array (trees items)
  | table _ fields => .object (members fields)
  | tables items => .array (objects items)

def trees : List Toml → List Json.Tree
  | [] => []
  | v :: r => tree v :: trees r

def members : List (String × Toml) → List (Option String × Json.Tree)
  | [] => []
  | (k, v) :: r => (some k, tree v) :: members r

def objects : List (List (String × Toml)) → List Json.Tree
  | [] => []
  | f :: r => .object (members f) :: objects r
end

end Flowline.Toml
