/-! Floating-point values of 64 bits as exact numbers. A finite value is a sign, a mantissa and a
power of two, so a sum or a quotient is computed exactly and rounded once, to the nearest value
and to the even mantissa on a tie. Every value has one form: two values are the same number with
the same sign exactly when they are equal. -/

namespace Flowline

/-- A finite value is `± mantissa · 2 ^ exponent`, with `mantissa < 2 ^ 53`, an exponent of at least
`-1074`, and `2 ^ 52 ≤ mantissa` unless the exponent is `-1074`. -/
inductive Double where
  | finite (negative : Bool) (mantissa : Nat) (exponent : Int)
  | infinite (negative : Bool)
  | nan
deriving DecidableEq, Repr, Inhabited

namespace Double

/-! ## Rounding -/

/-- The integer nearest to `num / den`, the even one of two that are equally near. -/
def roundDiv (num den : Nat) : Nat :=
  let q := num / den
  match compare (2 * (num % den)) den with
  | .lt => q
  | .gt => q + 1
  | .eq => if q % 2 = 0 then q else q + 1

/-- A rounded quotient is within half a unit of the exact one. -/
theorem roundDiv_near (num : Nat) {den : Nat} (h : 0 < den) :
    2 * (roundDiv num den * den) ≤ 2 * num + den ∧
      2 * num ≤ 2 * (roundDiv num den * den) + den := by
  have e : den * (num / den) + num % den = num := Nat.div_add_mod num den
  have l : num % den < den := Nat.mod_lt _ h
  simp only [roundDiv]
  generalize num / den = q at *
  generalize num % den = r at *
  have hs : (q + 1) * den = den * q + den := by rw [Nat.add_mul, Nat.mul_comm]; simp
  have hq : q * den = den * q := Nat.mul_comm ..
  generalize den * q = p at *
  split
  · rename_i hc; rw [Nat.compare_eq_lt] at hc; omega
  · rename_i hc; rw [Nat.compare_eq_gt] at hc; omega
  · rename_i hc; rw [Nat.compare_eq_eq] at hc; split <;> omega

/-- The least exponent at which `num / den` still fits a mantissa, or `-1074` if that is higher. -/
def lastPlace (num den : Nat) : Int :=
  let top : Int := (num.log2 : Int) - den.log2
  -- The quotient lies strictly between 2 ^ (top - 1) and 2 ^ (top + 1).
  let top := if num <<< (-top).toNat < den <<< top.toNat then top - 1 else top
  max (top - 52) (-1074)

/-- The value nearest to `± num / den`; beyond the largest finite value an infinity. -/
def ofRatio (negative : Bool) (num den : Nat) : Double :=
  if num = 0 then .finite negative 0 (-1074)
  else
    let q := lastPlace num den
    let m := roundDiv (num <<< (-q).toNat) (den <<< q.toNat)
    let (m, q) := if m = 0x20000000000000 then (0x10000000000000, q + 1) else (m, q)
    if 971 < q then .infinite negative else .finite negative m q

def ofNat (n : Nat) : Double := ofRatio false n 1

def ofInt (n : Int) : Double := ofRatio (n < 0) n.natAbs 1

/-- The value nearest to `± digits · 10 ^ exponent`. The first two bounds only spare the large
powers: a number they decide is beyond the largest or below half of the least positive value. -/
def ofDecimal (negative : Bool) (digits : Nat) (exponent : Int) : Double :=
  if digits = 0 then .finite negative 0 (-1074)
  else if 400 < exponent then .infinite negative
  else if (digits.log2 : Int) + 1200 < -3 * exponent then .finite negative 0 (-1074)
  else ofRatio negative (digits * Nat.pow 10 exponent.toNat) (Nat.pow 10 (-exponent).toNat)

/-! ## Sign, product, quotient -/

def neg : Double → Double
  | .finite s m q => .finite (!s) m q
  | .infinite s => .infinite (!s)
  | .nan => .nan

def isZero : Double → Bool
  | .finite _ m _ => m = 0
  | _ => false

/-- The product of two finite values, rounded once; not a number unless both are finite. -/
def mul : Double → Double → Double
  | .finite s m q, .finite t n r =>
    ofRatio (s != t) ((m * n) <<< (q + r).toNat) (1 <<< (-(q + r)).toNat)
  | _, _ => .nan

/-- The quotient of two finite values, rounded once; not a number unless both are finite and the
divisor is not zero. -/
def div : Double → Double → Double
  | .finite s m q, .finite t n r =>
    if n = 0 then .nan
    else ofRatio (s != t) (m <<< (q - r).toNat) (n <<< (r - q).toNat)
  | _, _ => .nan

def powTen (k : Nat) : Double := ofNat (Nat.pow 10 k)

/-! ## Integers -/

def toInt? : Double → Option Int
  | .finite s m q =>
    let den := 1 <<< (-q).toNat
    if m % den = 0 then
      let n : Int := ((m <<< q.toNat) / den : Nat)
      some (if s then -n else n)
    else none
  | _ => none

example : ofInt 3 = .finite false (3 * 2 ^ 51) (-51) := by decide +kernel
example : ofDecimal false 1 (-324) = .finite false 0 (-1074) := by decide +kernel
example : (ofDecimal false 25 (-1)).toInt? = none := by decide +kernel

end Double

end Flowline
