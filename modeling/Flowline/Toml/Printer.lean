/-! Strings of a TOML document. The quotes are chosen by what they hold: plain basic quotes if
nothing needs an escape in them, else the first kind that shows the text as it is, and escapes only
where no kind does. -/

namespace Flowline.Toml

/-! ## The choice of quotes -/

inductive Quotes where
  | basic
  | literal
  | basicLines
  | literalLines
deriving DecidableEq, Repr, Inhabited

namespace Quotes

def delimiter : Quotes → List Char
  | basic => ['"']
  | literal => ['\'']
  | basicLines => ['"', '"', '"']
  | literalLines => ['\'', '\'', '\'']

/-- How many double quotes in a row may stand without an escape. -/
def bareQuotes : Quotes → Nat
  | basicLines => 2
  | _ => 0

/-- How often a character stands in a row at most, and how often at the end. -/
def runs (c : Char) (cs : List Char) : Nat × Nat :=
  cs.foldl (fun r d => if d = c then (max r.1 (r.2 + 1), r.2 + 1) else (r.1, 0)) (0, 0)

def longestRun (c : Char) (cs : List Char) : Nat := (runs c cs).1

/-- Characters that only an escape can show. -/
def isControl (c : Char) : Bool := (c.toNat < 0x20 && c ≠ '\t' && c ≠ '\n') || c.toNat == 0x7F

def choose (cs : List Char) : Quotes :=
  let lines := cs.contains '\n'
  let escapes := cs.contains '\\'
  if cs.any isControl then (if lines then basicLines else basic)
  else if !escapes && !lines && longestRun '"' cs == 0 then basic
  else if !lines && longestRun '\'' cs == 0 then literal
  else if !escapes && longestRun '"' cs ≤ 2 then basicLines
  else if longestRun '\'' cs ≤ 2 then literalLines
  else if lines then basicLines else basic

end Quotes

/-! ## Texts in quotes -/

def hexDigits (n : Nat) : List Char :=
  [n / 4096, n / 256 % 16, n / 16 % 16, n % 16].map fun d => (Nat.digitChar d).toUpper

/-- A character other than a double quote between basic quotes. -/
def escaped (q : Quotes) (c : Char) : List Char :=
  match c with
  | '\\' => ['\\', '\\']
  | '\t' => ['\\', 't']
  | '\r' => ['\\', 'r']
  | '\x08' => ['\\', 'b']
  | '\x0c' => ['\\', 'f']
  | '\n' => if q = .basicLines then ['\n'] else ['\\', 'n']
  | c => if Quotes.isControl c then '\\' :: 'u' :: hexDigits c.toNat else [c]

/-- A text between basic quotes, after so many double quotes without an escape. -/
def escapedText (q : Quotes) : Nat → List Char → List Char
  | _, [] => []
  | seen, '"' :: r =>
    if seen < q.bareQuotes then '"' :: escapedText q (seen + 1) r
    else '\\' :: '"' :: escapedText q 0 r
  | _, c :: r => escaped q c ++ escapedText q 0 r

/-- A text in its quotes. A line break after the opening quotes is not part of it. -/
def quoted (s : String) : List Char :=
  let cs := s.toList
  let q := Quotes.choose cs
  let body := match q with
    | .literal | .literalLines => cs
    | _ => escapedText q 0 cs
  q.delimiter ++ (if cs.contains '\n' ∧ q.delimiter.length = 3 then ['\n'] else []) ++ body
    ++ q.delimiter

example : quoted "a\tb" = "\"a\\tb\"".toList := by decide +kernel
example : quoted "say \"a\"" = "'say \"a\"'".toList := by decide +kernel
example : quoted "a\nb" = "\"\"\"\na\nb\"\"\"".toList := by decide +kernel

/-! ## Assignments and tables -/

inductive Scalar where
  | text (s : String)
  | integer (n : Int)
deriving DecidableEq, Repr, Inhabited

def Scalar.chars : Scalar → List Char
  | text s => quoted s
  | integer n => (toString n).toList

def assignment (name : String) (v : Scalar) : List Char :=
  name.toList ++ [' ', '=', ' '] ++ v.chars ++ ['\n']

def tableChars (name : String) (fields : List (String × Scalar)) : List Char :=
  '[' :: name.toList ++ [']', '\n'] ++ fields.flatMap fun f => assignment f.1 f.2

end Flowline.Toml
