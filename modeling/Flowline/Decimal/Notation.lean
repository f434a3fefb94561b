import Flowline.Decimal.Shortest

/-! How a finite floating-point value is written: the fewest digits that read back, plainly while
the exponent of the first digit lies between -5 and 15 and then always with a fraction, otherwise
with one digit before the point and a signed exponent. -/

namespace Flowline.Decimal

/-- The exponents of a leading digit that are written plainly. -/
def plainFrom : Int := -5
def plainTo : Int := 15

def zeros (n : Nat) : List Char := List.replicate n '0'

def signed (n : Int) : List Char :=
  (if n < 0 then '-' else '+') :: Nat.toDigits 10 n.natAbs

/-- Digits `ds` whose first one has the exponent `e`. -/
def layout (ds : List Char) (e : Int) : List Char :=
  if plainFrom ≤ e ∧ e ≤ plainTo then
    if e < 0 then '0' :: '.' :: zeros (-e - 1).toNat ++ ds
    else
      let whole := e.toNat + 1
      if ds.length ≤ whole then ds ++ zeros (whole - ds.length) ++ ['.', '0']
      else ds.take whole ++ '.' :: ds.drop whole
  else
    match ds with
    | [d] => d :: 'e' :: signed e
    | d :: r => d :: '.' :: r ++ 'e' :: signed e
    | [] => []

def written (m : Nat) (q : Int) : List Char :=
  if m = 0 then ['0', '.', '0']
  else
    let d := shortest m q
    let ds := Nat.toDigits 10 d.digits
    layout ds (d.exponent + ds.length - 1)

end Flowline.Decimal

namespace Flowline.Double

/-- The text of a value, the two infinities and the value that is no number included. -/
def chars : Double → List Char
  | .finite s m q => (if s then ['-'] else []) ++ Decimal.written m q
  | .infinite s => (if s then ['-'] else []) ++ ['i', 'n', 'f']
  | .nan => ['N', 'a', 'N']

def text (x : Double) : String := String.ofList x.chars

example : (ofDecimal false 1 (-1)).text = "0.1" := by decide +kernel
example : (ofDecimal false 1 16).text = "1e+16" := by decide +kernel
example : (ofDecimal true 15 (-7)).text = "-1.5e-6" := by decide +kernel
example : (ofNat 100).text = "100.0" := by decide +kernel

end Flowline.Double
