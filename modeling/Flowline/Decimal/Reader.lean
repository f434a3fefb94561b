import Flowline.Decimal.Double

/-! Numbers written as text, as a caller writes them into a form: an optional sign, digits, an
optional point with digits on at least one side of it, an optional exponent. Reading is exact and
rounds once; a number beyond the largest finite value reads as an infinity. -/

namespace Flowline.Decimal

/-- The number that decimal digits stand for, after a number already read. -/
def ofDigits (start : Nat) (ds : List Char) : Nat :=
  ds.foldl (fun n c => 10 * n + (c.toNat - '0'.toNat)) start

def splitSign : List Char → Bool × List Char
  | '-' :: r => (true, r)
  | '+' :: r => (false, r)
  | cs => (false, cs)

/-- An optional sign and at least one digit, and nothing else. -/
def integer? (cs : List Char) : Option Int :=
  let (negative, ds) := splitSign cs
  if ds.isEmpty || !ds.all Char.isDigit then none
  else
    let n : Int := ofDigits 0 ds
    some (if negative then -n else n)

/-- The exponent after its mark; no text at all means zero. -/
def exponent? : List Char → Option Int
  | [] => some 0
  | c :: r => if c = 'e' ∨ c = 'E' then integer? r else none

/-- Digits, an optional point and an optional exponent. -/
def unsigned? (negative : Bool) (cs : List Char) : Option Double :=
  let whole := cs.takeWhile Char.isDigit
  let rest := cs.dropWhile Char.isDigit
  let (fraction, rest) := match rest with
    | '.' :: r => (r.takeWhile Char.isDigit, r.dropWhile Char.isDigit)
    | r => ([], r)
  if whole.isEmpty && fraction.isEmpty then none
  else (exponent? rest).map fun e =>
    .ofDecimal negative (ofDigits (ofDigits 0 whole) fraction) (e - fraction.length)

/-- A number, one of the words for infinity, or the word for no number, in any case. -/
def double? (cs : List Char) : Option Double :=
  let (negative, r) := splitSign cs
  let word := r.map Char.toLower
  if word = "inf".toList ∨ word = "infinity".toList then some (.infinite negative)
  else if word = "nan".toList then some .nan
  else unsigned? negative r

example : integer? "+007".toList = some 7 := by decide +kernel
example : (double? "5.".toList) = some (.ofNat 5) := by decide +kernel
example : double? ".".toList = none := by decide +kernel

end Flowline.Decimal
