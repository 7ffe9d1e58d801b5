import Mathlib.Data.Rat.Floor
import ShapeGrammar.Proofs.Exact
import ShapeGrammar.Proofs.Sample

/-!
# The rationals are exact

The scalar over which samples are calculated is exact arithmetic on the rationals,
with the functions that it gives. So what holds of exact arithmetic is true of
every sample.
-/

set_option autoImplicit false

namespace ShapeGrammar.Rational

open Exact

instance functions : Functions ℚ where
  sqrt := scalar.sqrt
  exp := scalar.exp
  log := scalar.log
  pow := scalar.pow
  pi := scalar.pi
  sin := scalar.sin
  cos := scalar.cos
  tan := scalar.tan
  atan := scalar.atan
  atan2 := scalar.atan2
  text := scalar.text
  textOnePlace := scalar.textOnePlace
  sqrt_one := by
    change ((1 : ℚ) + 1) / 2 = 1
    norm_num
  atan2_zero_one := by
    change (0 : ℚ) / 1 = 0
    norm_num

/-- The quotient of a fraction's parts is the fraction rounded toward zero. -/
theorem tdiv_eq_truncated (x : ℚ) : x.num.tdiv x.den = truncated x := by
  unfold truncated
  split
  case isTrue negative =>
    have opposite : 0 ≤ -x.num := by
      have below := Rat.num_neg.mpr negative
      omega
    rw [Rat.ceil_def', ← Int.tdiv_eq_ediv_of_nonneg opposite, Int.neg_tdiv, neg_neg]
  case isFalse nonneg =>
    rw [Rat.floor_def', Int.tdiv_eq_ediv_of_nonneg (Rat.num_nonneg.mpr (not_lt.mp nonneg))]

theorem ceil_eq (x : ℚ) : x.ceil = ⌈x⌉ := by
  apply le_antisymm
  · exact Rat.ceil_le_iff.mpr (Int.le_ceil x)
  · exact Int.ceil_le.mpr Rat.le_ceil

theorem scalar_eq_exact : scalar = (Exact.scalar : Scalar ℚ) := by
  have abs : scalar.abs = Exact.scalar.abs := by
    funext x
    change (if x < 0 then -x else x) = |x|
    split
    case isTrue negative => exact (abs_of_neg negative).symm
    case isFalse nonneg => exact (abs_of_nonneg (not_lt.mp nonneg)).symm
  have ceil : scalar.ceil = Exact.scalar.ceil := by
    funext x
    exact congrArg Int.cast (ceil_eq x)
  have truncMod : scalar.truncMod = Exact.scalar.truncMod := by
    funext x y
    exact congrArg (fun n : ℤ => x - y * n) (tdiv_eq_truncated (x / y))
  -- the other operations are the same on both sides
  unfold scalar Exact.scalar at *
  congr

end ShapeGrammar.Rational
