import Mathlib.Algebra.Field.Rat
import Mathlib.Algebra.Order.Floor.Defs
import Mathlib.Algebra.Order.Group.Unbundled.Abs
import Mathlib.Tactic.Ring
import ShapeGrammar.Affine

/-!
# Exact arithmetic

An ordered field computes without rounding. What a scalar has beyond the operations
of the field, the functions that lead out of it and the texts of its numbers, is
given from outside: what is proved here holds whatever they are.
-/

set_option autoImplicit false

namespace ShapeGrammar.Exact

/-- The functions that lead out of a field, of which one value of the root and one of
the angle are known. -/
class Functions (K : Type) [Field K] where
  sqrt : K → K
  exp : K → K
  log : K → K
  pow : K → K → K
  pi : K
  sin : K → K
  cos : K → K
  tan : K → K
  atan : K → K
  atan2 : K → K → K
  text : K → String
  textOnePlace : K → String
  sqrt_one : sqrt 1 = 1
  atan2_zero_one : atan2 0 1 = 0

variable {K : Type} [Field K] [LinearOrder K] [FloorRing K]

def truncated (x : K) : ℤ := if x < 0 then ⌈x⌉ else ⌊x⌋

/-- Counts are 64 bits wide here too. -/
scoped instance scalar [Functions K] : Scalar K where
  beq x y := decide (x = y)
  decLt := inferInstance
  decLe := inferInstance
  isFinite _ := true
  abs x := |x|
  sqrt := Functions.sqrt
  floor x := ⌊x⌋
  ceil x := ⌈x⌉
  exp := Functions.exp
  log := Functions.log
  pow := Functions.pow
  pi := Functions.pi
  sin := Functions.sin
  cos := Functions.cos
  tan := Functions.tan
  atan := Functions.atan
  atan2 := Functions.atan2
  truncMod x y := x - y * truncated (x / y)
  floorNat x := min ⌊x⌋.toNat (2 ^ 64 - 1)
  floorInt x := max (-2 ^ 63) (min ⌊x⌋ (2 ^ 63 - 1))
  text := Functions.text
  textOnePlace := Functions.textOnePlace

variable [Functions K]

theorem point_beq_iff (p q : Point K) : (p == q) = true ↔ p = q := by
  have scalars : ∀ x y : K, (x == y) = true ↔ x = y := fun x y => decide_eq_true_iff
  cases p with
  | mk x y =>
    cases q with
    | mk x' y' =>
      change (x == x' && y == y') = true ↔ _
      rw [Bool.and_eq_true, scalars, scalars, Point.mk.injEq]

@[simp] theorem apply_identity (p : Point K) : Affine.identity.apply p = p := by
  simp [Affine.apply, Affine.identity]

@[simp] theorem applyVector_identity (v : Point K) : Affine.identity.applyVector v = v := by
  simp [Affine.applyVector, Affine.identity]

/-- An affine map takes an offset by its linear part. -/
theorem apply_offset (m : Affine K) (p v : Point K) :
    m.apply (p.offset v) = (m.apply p).offset (m.applyVector v) := by
  simp only [Affine.apply, Affine.applyVector, Point.offset, Point.mk.injEq]
  constructor <;> ring

end ShapeGrammar.Exact
