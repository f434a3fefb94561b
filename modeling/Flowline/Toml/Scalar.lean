import Flowline.Decimal.Reader
import Flowline.Text.Hex
import Flowline.Toml.Basic

/-! The simple values of a TOML document: quoted texts in four styles, numbers, truth values and
moments. A word without quotes is read as a whole, so what may follow it is settled elsewhere. -/

namespace Flowline.Toml

/-- A character that may stand in a comment or a text; a line break may not. -/
def isTextChar (c : Char) : Bool := c = '\t' || (0x20 ≤ c.toNat && c.toNat != 0x7F)

def isSpace (c : Char) : Bool := c = ' ' || c = '\t'

/-! ## Texts -/

def charOf? (digits : List Char) : Option Char := do
  let n ← digits.foldlM (fun n c => (Text.hexDigit? c).map (16 * n + ·)) 0
  if n.isValidChar then some (Char.ofNat n) else none

def unescape? : Char → Option Char
  | 'b' => some '\x08'
  | 't' => some '\t'
  | 'n' => some '\n'
  | 'f' => some '\x0c'
  | 'r' => some '\r'
  | '"' => some '"'
  | '\\' => some '\\'
  | _ => none

/-- Puts a character in front of what has been read. -/
def prepend (c : Char) (p : List Char × List Char) : List Char × List Char := (c :: p.1, p.2)

def basicText? : List Char → Option (List Char × List Char)
  | [] => none
  | '"' :: r => some ([], r)
  | '\\' :: 'u' :: a :: b :: c :: d :: r => do
    return prepend (← charOf? [a, b, c, d]) (← basicText? r)
  | '\\' :: 'U' :: a :: b :: c :: d :: e :: f :: g :: h :: r => do
    return prepend (← charOf? [a, b, c, d, e, f, g, h]) (← basicText? r)
  | '\\' :: c :: r => do return prepend (← unescape? c) (← basicText? r)
  | c :: r => if isTextChar c then (basicText? r).map (prepend c) else none

/-- A text on one line in which a backslash is nothing special. -/
def literalText? : List Char → Option (List Char × List Char)
  | [] => none
  | '\'' :: r => some ([], r)
  | c :: r => if isTextChar c then (literalText? r).map (prepend c) else none

def startsLine : List Char → Bool
  | '\n' :: _ | '\r' :: '\n' :: _ => true
  | _ => false

/-- A text over several lines, up to three quotes; two more may stand in front of them. A backslash
at the end of a line takes all blanks and line breaks after it away, as long as `trim` is set. -/
def basicLines? : Bool → List Char → Option (List Char × List Char)
  | _, [] => none
  | _, '"' :: '"' :: '"' :: '"' :: '"' :: r => some (['"', '"'], r)
  | _, '"' :: '"' :: '"' :: '"' :: r => some (['"'], r)
  | _, '"' :: '"' :: '"' :: r => some ([], r)
  | _, '\\' :: 'u' :: a :: b :: c :: d :: r => do
    return prepend (← charOf? [a, b, c, d]) (← basicLines? false r)
  | _, '\\' :: 'U' :: a :: b :: c :: d :: e :: f :: g :: h :: r => do
    return prepend (← charOf? [a, b, c, d, e, f, g, h]) (← basicLines? false r)
  | _, '\\' :: c :: r =>
    if startsLine ((c :: r).dropWhile isSpace) then basicLines? true r
    else do return prepend (← unescape? c) (← basicLines? false r)
  | trim, '\r' :: '\n' :: r =>
    if trim then basicLines? true r else (basicLines? false r).map (prepend '\n')
  | trim, c :: r =>
    if trim ∧ (isSpace c ∨ c = '\n') then basicLines? true r
    else if isTextChar c ∨ c = '\n' then (basicLines? false r).map (prepend c)
    else none

/-- A text over several lines in which a backslash is nothing special, up to three quotes; two more
may stand in front of them. -/
def literalLines? : List Char → Option (List Char × List Char)
  | [] => none
  | '\'' :: '\'' :: '\'' :: '\'' :: '\'' :: r => some (['\'', '\''], r)
  | '\'' :: '\'' :: '\'' :: '\'' :: r => some (['\''], r)
  | '\'' :: '\'' :: '\'' :: r => some ([], r)
  | '\r' :: '\n' :: r => (literalLines? r).map (prepend '\n')
  | c :: r => if isTextChar c ∨ c = '\n' then (literalLines? r).map (prepend c) else none

/-- The line break right behind an opening of three quotes does not count. -/
def dropFirstBreak : List Char → List Char
  | '\n' :: r | '\r' :: '\n' :: r => r
  | r => r

def text? : List Char → Option (List Char × List Char)
  | '"' :: '"' :: '"' :: r => basicLines? false (dropFirstBreak r)
  | '\'' :: '\'' :: '\'' :: r => literalLines? (dropFirstBreak r)
  | '"' :: r => basicText? r
  | '\'' :: r => literalText? r
  | _ => none

/-! ## Numbers -/

/-- Digits with single underscores between them, without the underscores. -/
def grouped? (isDigit : Char → Bool) (cs : List Char) : Option (List Char) :=
  let parts := cs.splitOn '_'
  if parts.all fun p => !p.isEmpty && p.all isDigit then some parts.flatten else none

def splitSign : List Char → List Char × List Char
  | '+' :: r => (['+'], r)
  | '-' :: r => (['-'], r)
  | cs => ([], cs)

/-- The digits of a whole number, which start with a zero only if that is all. -/
def wholeDigits? (cs : List Char) : Option (List Char) :=
  (grouped? Char.isDigit cs).filter fun ds => ds.head? ≠ some '0' || ds.length = 1

def greatest : Int := 0x7fffffffffffffff
def least : Int := -0x8000000000000000

/-- A whole number in a base, which a letter behind a zero names. -/
def basedInteger? (base : Nat) (cs : List Char) : Option Int := do
  let isDigit (c : Char) : Bool := (Text.hexDigit? c).any (· < base)
  let ds ← grouped? isDigit cs
  return ds.foldl (fun n c => base * n + (Text.hexDigit? c).getD 0) 0

def integer? (cs : List Char) : Option Int :=
  let n := match cs with
    | '0' :: 'x' :: r => basedInteger? 16 r
    | '0' :: 'o' :: r => basedInteger? 8 r
    | '0' :: 'b' :: r => basedInteger? 2 r
    | cs =>
      let (sign, r) := splitSign cs
      (wholeDigits? r).bind fun ds => Decimal.integer? (sign ++ ds)
  n.filter fun n => least ≤ n && n ≤ greatest

/-- The exponent behind its letter, with its sign. -/
def exponent? (cs : List Char) : Option (List Char) :=
  match cs with
  | [] => some []
  | _ :: r =>
    let (sign, ds) := splitSign r
    (grouped? Char.isDigit ds).map fun ds => 'e' :: sign ++ ds

/-- Whether a word is a number with a fraction or an exponent, or one of the words for no number. -/
def isReal (cs : List Char) : Bool :=
  let (sign, r) := splitSign cs
  let isE (c : Char) : Bool := c = 'e' || c = 'E'
  let front := r.takeWhile (!isE ·)
  let text := match front.splitOn '.', exponent? (r.drop front.length) with
    | [whole], some (c :: e) => (wholeDigits? whole).map (· ++ c :: e)
    | [whole, fraction], some e => do
      return (← wholeDigits? whole) ++ '.' :: (← grouped? Char.isDigit fraction) ++ e
    | _, _ => none
  r = "inf".toList || r = "nan".toList ||
    (text.bind fun t => Decimal.double? (sign ++ t)).any (· ≠ .infinite false)

/-! ## Moments -/

def digits? (count : Nat) (cs : List Char) : Option Nat :=
  if cs.length = count ∧ cs.all Char.isDigit then some (Decimal.ofDigits 0 cs) else none

def isLeapYear (y : Nat) : Bool := y % 4 = 0 && (y % 100 ≠ 0 || y % 400 = 0)

def daysOf (year month : Nat) : Nat :=
  if month = 2 then (if isLeapYear year then 29 else 28)
  else if month ∈ [4, 6, 9, 11] then 30
  else 31

def isDate (cs : List Char) : Bool :=
  match cs.splitOn '-' with
  | [y, m, d] =>
    match digits? 4 y, digits? 2 m, digits? 2 d with
    | some y, some m, some d => 1 ≤ m && m ≤ 12 && 1 ≤ d && d ≤ daysOf y m
    | _, _, _ => false
  | _ => false

def isTime (cs : List Char) : Bool :=
  let clock := cs.takeWhile (· ≠ '.')
  let fraction := match cs.drop clock.length with
    | [] => true
    | _ :: ds => !ds.isEmpty && ds.all Char.isDigit
  match (clock.splitOn ':').map (digits? 2) with
  | [some h, some m, some s] => h ≤ 23 && m ≤ 59 && s ≤ 60 && fraction
  | _ => false

def isOffset : List Char → Bool
  | ['Z'] | ['z'] => true
  | '+' :: r | '-' :: r =>
    match (r.splitOn ':').map (digits? 2) with
    | [some h, some m] => h ≤ 23 && m ≤ 59
    | _ => false
  | _ => false

def isZonedTime (cs : List Char) : Bool :=
  let time := cs.takeWhile fun c => c.isDigit || c = ':' || c = '.'
  isTime time && (time.length = cs.length || isOffset (cs.drop time.length))

/-- A date, a time, or both with or without an offset. -/
def isMoment (cs : List Char) : Bool :=
  let date := cs.take 10
  match cs.drop 10 with
  | [] => isDate date || isTime cs
  | c :: r => (isDate date && (c = 'T' || c = 't') && isZonedTime r) || isTime cs

/-! ## Words -/

/-- A character that can stand in a word without quotes. -/
def isWordChar (c : Char) : Bool := c.isAlphanum || ['+', '-', '_', '.', ':'].contains c

def ofWord? (cs : List Char) : Option Toml :=
  if cs = "true".toList then some (.bool true)
  else if cs = "false".toList then some (.bool false)
  else
    match integer? cs with
    | some n => some (.integer n)
    | none => if isReal cs then some .real else if isMoment cs then some .moment else none

/-- A value without quotes or brackets. A date and a time may stand apart by a blank. -/
def word? (cs : List Char) : Option (Toml × List Char) :=
  let word := cs.takeWhile isWordChar
  let rest := cs.drop word.length
  match rest with
  | ' ' :: r =>
    let time := r.takeWhile isWordChar
    if isDate word ∧ isZonedTime time then some (.moment, r.drop time.length)
    else (ofWord? word).map (·, rest)
  | _ => (ofWord? word).map (·, rest)

end Flowline.Toml
