import Flowline.Decimal.Double
import Mathlib.Algebra.Group.Nat.Defs

/-! # Large integers as floating-point values

From `2 ^ 52` on a floating-point value has no fraction, so a large integer is rounded to an
integer. It need not stay the same, but it stays between the two powers of two that it lies
between: both are values themselves, and rounding to a grid does not lead out of an interval whose
ends are on the grid. -/

namespace Flowline.Double

/-! ## Places -/

/-- A rounded quotient stays between the integers that the exact one lies between. -/
theorem roundDiv_bounds {num den low high : Nat} (hden : 0 < den) (hlow : low * den ≤ num)
    (hhigh : num ≤ high * den) : low ≤ roundDiv num den ∧ roundDiv num den ≤ high := by
  obtain ⟨habove, hbelow⟩ := roundDiv_near num hden
  constructor
  · refine Nat.le_of_not_lt fun hlt => ?_
    have hstep : (roundDiv num den + 1) * den ≤ low * den := Nat.mul_le_mul_right den hlt
    rw [Nat.add_mul] at hstep
    omega
  · refine Nat.le_of_not_lt fun hlt => ?_
    have hstep : (high + 1) * den ≤ roundDiv num den * den := Nat.mul_le_mul_right den hlt
    rw [Nat.add_mul] at hstep
    omega

/-- The last place of an integer is told by its binary logarithm. -/
theorem lastPlace_one {n : Nat} (hn : n ≠ 0) : lastPlace n 1 = (n.log2 : Int) - 52 := by
  have hlow : ¬n < 2 ^ n.log2 := Nat.not_lt.2 (Nat.log2_self_le hn)
  have hone : Nat.log2 1 = 0 := rfl
  simp only [lastPlace, hone, Nat.shiftLeft_eq]
  simp [hlow]
  omega

/-! ## Integers -/

theorem toInt?_finite (m q : Nat) :
    (finite false m q).toInt? = some ((m * 2 ^ q : Nat) : Int) := by
  simp [toInt?, Nat.shiftLeft_eq, Nat.mod_one]

/-- An integer with all 53 places of a mantissa and `q` more is rounded to its first 53 places. A
mantissa that becomes too long is halved. -/
theorem ofNat_eq {n q : Nat} (hq : q ≤ 970) (hlow : 2 ^ 52 * 2 ^ q ≤ n)
    (hhigh : n < 2 ^ 53 * 2 ^ q) :
    ofNat n = if roundDiv n (2 ^ q) = 0x20000000000000
      then finite false 0x10000000000000 (q + 1 : Nat)
      else finite false (roundDiv n (2 ^ q)) q := by
  have hn : n ≠ 0 := by
    have := Nat.two_pow_pos q
    omega
  have hlog : n.log2 = 52 + q := by
    rw [Nat.log2_eq_iff hn, Nat.pow_succ, Nat.pow_add]
    omega
  have hlast : lastPlace n 1 = q := by
    rw [lastPlace_one hn, hlog]
    omega
  have hshift : roundDiv (n <<< (-(q : Int)).toNat) (1 <<< (q : Int).toNat) =
      roundDiv n (2 ^ q) := by
    simp [Nat.shiftLeft_eq]
  simp only [ofNat, ofRatio, hn, if_false, hlast, hshift]
  by_cases hcarry : roundDiv n (2 ^ q) = 0x20000000000000
  · have hfits : ¬971 < (q : Int) + 1 := by omega
    simp only [hcarry, if_true, hfits, if_false, Int.natCast_add, Int.natCast_one]
  · have hfits : ¬971 < (q : Int) := by omega
    simp only [hcarry, hfits, if_false]

/-- A large integer is rounded to an integer between the same powers of two. -/
theorem toInt?_ofNat {n q : Nat} (hq : q ≤ 970) (hlow : 2 ^ 52 * 2 ^ q ≤ n)
    (hhigh : n < 2 ^ 53 * 2 ^ q) :
    ∃ m : Nat, (ofNat n).toInt? = some (m : Int) ∧ 2 ^ 52 * 2 ^ q ≤ m ∧ m ≤ 2 ^ 53 * 2 ^ q := by
  obtain ⟨hleast, hmost⟩ := roundDiv_bounds (Nat.two_pow_pos q) hlow (Nat.le_of_lt hhigh)
  rw [ofNat_eq hq hlow hhigh]
  split
  · -- after a carry the value is the upper of the two powers
    refine ⟨_, toInt?_finite .., ?_, ?_⟩
    · rw [Nat.pow_succ]
      omega
    · rw [Nat.pow_succ]
      omega
  · exact ⟨_, toInt?_finite .., Nat.mul_le_mul_right _ hleast, Nat.mul_le_mul_right _ hmost⟩

end Flowline.Double
