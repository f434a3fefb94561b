import Flowline.Decimal.Double

/-! The fewest decimal digits that identify a floating-point value. A decimal reads back to a value
when it lies in the interval of numbers that round to it; the search takes ever finer decimal grids
and stops at the first one with a point in that interval, the nearer of two such points, the even
one of two that are equally near. -/

namespace Flowline

structure Decimal where
  digits : Nat
  exponent : Int
deriving DecidableEq, Repr, Inhabited

namespace Decimal

/-- Compares `a · 10 ^ i` with `n · 2 ^ j`. -/
def compareScaled (a : Nat) (i : Int) (n : Nat) (j : Int) : Ordering :=
  compare ((a * Nat.pow 10 i.toNat) <<< (-j).toNat) ((n * Nat.pow 10 (-i).toNat) <<< j.toNat)

/-- Whether the decimal rounds to `m · 2 ^ q`: it lies between the two points halfway to the
neighbouring values, ends included when the mantissa is even. Below a power of two the neighbour is
half as far away, except at the least exponent. -/
def readsBack (m : Nat) (q : Int) (d : Decimal) : Bool :=
  let low := if m = 0x10000000000000 ∧ -1074 < q then 4 * m - 1 else 4 * m - 2
  let least := compareScaled d.digits d.exponent low (q - 2)
  let most := compareScaled d.digits d.exponent (4 * m + 2) (q - 2)
  let closed := m % 2 = 0
  (least == .gt || (closed && least == .eq)) && (most == .lt || (closed && most == .eq))

/-- The least `k` with `m · 2 ^ q < 10 ^ k`, for a positive mantissa. The binary logarithm gives a
lower bound that is at most three too small. -/
def scale (m : Nat) (q : Int) : Int :=
  let low := ((m.log2 : Int) + q) * 1233 / 4096
  let below k := compareScaled 1 k m q == .gt
  (([0, 1, 2].map fun i : Int => low + i).find? below).getD (low + 3)

/-- The point of the grid `10 ^ g` that stands for `m · 2 ^ q`, if one of the two neighbours of the
value on that grid reads back. -/
def onGrid? (m : Nat) (q g : Int) : Option Decimal :=
  let num := (m * Nat.pow 10 (-g).toNat) <<< q.toNat
  let den := Nat.pow 10 g.toNat <<< (-q).toNat
  let below : Decimal := ⟨num / den, g⟩
  let above : Decimal := ⟨num / den + 1, g⟩
  match readsBack m q below, readsBack m q above with
  | true, true => some ⟨Double.roundDiv num den, g⟩
  | true, false => some below
  | false, true => some above
  | false, false => none

def strip (d : Decimal) : Decimal :=
  if h : 0 < d.digits ∧ d.digits % 10 = 0 then strip ⟨d.digits / 10, d.exponent + 1⟩ else d
termination_by d.digits
decreasing_by exact Nat.div_lt_self h.1 (by decide)

def exact (m : Nat) (q : Int) : Decimal :=
  ⟨(m * Nat.pow 5 (-q).toNat) <<< q.toNat, min q 0⟩

/-- The fewest digits that read back to `m · 2 ^ q`. Seventeen digits always suffice; were it
otherwise the exact value would be given. -/
def shortest (m : Nat) (q : Int) : Decimal :=
  let k := scale m q
  let found := (List.range 17).findSome? fun n => onGrid? m q (k - (n + 1 : Nat))
  strip (found.getD (exact m q))

/-- A point of a grid that is chosen reads back. -/
theorem readsBack_of_onGrid? {m : Nat} {q g : Int} {d : Decimal} (h : onGrid? m q g = some d) :
    readsBack m q d = true := by
  simp only [onGrid?] at h
  split at h
  · rename_i hb ha
    cases h
    simp only [Double.roundDiv]
    split
    · exact hb
    · exact ha
    · split
      · exact hb
      · exact ha
  · cases h; assumption
  · cases h; assumption
  · contradiction

example : shortest 0x10000000000000 (-52) = ⟨1, 0⟩ := by decide +kernel
example : shortest 1 (-1074) = ⟨5, -324⟩ := by decide +kernel

end Decimal

end Flowline
