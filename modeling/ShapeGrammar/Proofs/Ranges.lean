import Mathlib.Algebra.Order.Floor.Ring
import Mathlib.Tactic.Linarith
import ShapeGrammar.Proofs.Rationals

/-!
# The values of a loop

A loop counts its passes ahead, by one division. With exact arithmetic these are the
passes whose values lie no further than a billionth of a step beyond the end, as long
as the range does not end before it starts. A range that does has no passes at all,
however little is missing, so the tolerance is granted to every value but the first.
-/

set_option autoImplicit false

namespace ShapeGrammar.LoopRange

open Exact

variable {K : Type} [Field K] [LinearOrder K] [FloorRing K] [Functions K]
  {v : Value K} {r : LoopRange K}

/-- Only steps forward are accepted. -/
theorem check_eq_ok_iff {range : LoopRange K} : range.check = .ok r ↔ range = r ∧ 0 < r.step := by
  change (if range.step ≤ 0 then _ else _) = _ ↔ _
  split
  case isTrue backward =>
    simp only [reduceCtorEq, false_iff, not_and, not_lt]
    rintro rfl
    exact backward
  case isFalse forward =>
    simp only [Except.ok.injEq, iff_self_and]
    rintro rfl
    exact not_le.mp forward

theorem step_pos (accepted : ofValue v = .ok r) : 0 < r.step := by
  unfold ofValue at accepted
  split at accepted
  case h_1 => cases accepted
  case h_2 xs _ =>
    cases formed : ofNumbers xs with
    | error p =>
      rw [formed] at accepted
      cases accepted
    | ok range =>
      rw [formed] at accepted
      exact (check_eq_ok_iff.mp accepted).2

theorem value_zero (r : LoopRange K) : r.value 0 = r.start := by
  simp [value]

variable [IsStrictOrderedRing K]

theorem value_strictMono (forward : 0 < r.step) : StrictMono r.value := by
  intro i j less
  have steps : (i : K) < j := Nat.cast_lt.mpr less
  exact add_lt_add_right (mul_lt_mul_of_pos_right steps forward) r.start

theorem start_le_value (forward : 0 < r.step) (i : Nat) : r.start ≤ r.value i :=
  r.value_zero ▸ (value_strictMono forward).monotone (Nat.zero_le i)

/-- In counts of steps, a value is reached as long as it lies within the tolerance. -/
theorem le_quotient_iff (forward : 0 < r.step) (i : Nat) :
    (i : K) ≤ (r.stop - r.start) / r.step + 1e-9 ↔ r.value i ≤ r.stop + 1e-9 * r.step := by
  rw [← mul_le_mul_iff_of_pos_right forward, add_mul, div_mul_cancel₀ _ forward.ne', value]
  constructor <;> intro h <;> linarith

/-- A range that ends no earlier than it starts takes the floor of its quotient, and
one pass more. -/
theorem lt_iterations_iff (forward : 0 < r.step) (few : r.iterations < 2 ^ 64)
    (ordered : r.start ≤ r.stop) (i : Nat) :
    i < r.iterations ↔ r.value i ≤ r.stop + 1e-9 * r.step := by
  have counted : r.iterations =
      min ⌊(r.stop - r.start) / r.step + 1e-9⌋.toNat (2 ^ 64 - 1) + 1 :=
    if_neg (not_lt.mpr ordered)
  have whole : r.iterations = ⌊(r.stop - r.start) / r.step + 1e-9⌋.toNat + 1 := by omega
  have nonneg : 0 ≤ ⌊(r.stop - r.start) / r.step + 1e-9⌋ := by
    apply Int.floor_nonneg.mpr
    exact add_nonneg (div_nonneg (sub_nonneg.mpr ordered) forward.le) (by norm_num)
  rw [whole, Nat.lt_succ_iff, Int.le_toNat nonneg, Int.le_floor, Int.cast_natCast,
    le_quotient_iff forward]

omit [IsStrictOrderedRing K] in
theorem iterations_eq_zero (short : r.stop < r.start) : r.iterations = 0 := if_pos short

/-- The passes of an accepted range, whose values rise from its start, are those that
lie within the tolerance of its end, unless it ends before it starts. So the tolerance
is granted to all values alike, but for the ranges whose end misses the start by no
more than the tolerance. -/
theorem iterations_tolerated (accepted : ofValue v = .ok r) (few : r.iterations < 2 ^ 64) :
    r.value 0 = r.start ∧ StrictMono r.value ∧
    (∀ i, i < r.iterations ↔ r.start ≤ r.stop ∧ r.value i ≤ r.stop + 1e-9 * r.step) ∧
    ((∀ i, i < r.iterations ↔ r.value i ≤ r.stop + 1e-9 * r.step) ↔
      ¬(r.stop < r.start ∧ r.start ≤ r.stop + 1e-9 * r.step)) := by
  have forward := step_pos accepted
  have passes : ∀ i, i < r.iterations ↔
      r.start ≤ r.stop ∧ r.value i ≤ r.stop + 1e-9 * r.step := by
    intro i
    rcases le_or_gt r.start r.stop with ordered | short
    · rw [lt_iterations_iff forward few ordered, and_iff_right ordered]
    · simp [iterations_eq_zero short, short.not_ge]
  refine ⟨r.value_zero, value_strictMono forward, passes, ?_⟩
  constructor
  · rintro uniform ⟨short, within⟩
    have first : 0 < r.iterations := (uniform 0).mpr (r.value_zero.symm ▸ within)
    exact short.not_ge ((passes 0).mp first).1
  · intro granted i
    rw [passes]
    constructor
    · exact And.right
    · intro within
      refine ⟨not_lt.mp fun short => granted ⟨short, ?_⟩, within⟩
      exact (start_le_value forward i).trans within

/-- From nought to one by tenths there are eleven values. -/
theorem iterations_tolerated_tenths :
    ofValue (.tuple [0, 1, 1 / 10] : Value ℚ) = .ok ⟨0, 1, 1 / 10⟩ ∧
    (⟨0, 1, 1 / 10⟩ : LoopRange ℚ).iterations = 11 ∧
    ∀ i, i < (⟨0, 1, 1 / 10⟩ : LoopRange ℚ).iterations ↔
      (⟨0, 1, 1 / 10⟩ : LoopRange ℚ).value i ≤ 1 + 1e-9 * (1 / 10) := by
  have accepted : ofValue (.tuple [0, 1, 1 / 10] : Value ℚ) = .ok ⟨0, 1, 1 / 10⟩ := by
    rw [Rational.scalar_eq_exact]
    exact check_eq_ok_iff.mpr ⟨rfl, by norm_num⟩
  have eleven : (⟨0, 1, 1 / 10⟩ : LoopRange ℚ).iterations = 11 := by decide +kernel
  have few : (⟨0, 1, 1 / 10⟩ : LoopRange ℚ).iterations < 2 ^ 64 := by
    rw [eleven]
    norm_num
  refine ⟨accepted, eleven, ?_⟩
  rw [Rational.scalar_eq_exact] at accepted few ⊢
  obtain ⟨-, -, -, uniform⟩ := iterations_tolerated accepted few
  exact uniform.mpr (by norm_num)

/-- The end misses the start by a tenth of the tolerance, and the loop does not run. -/
theorem iterations_short :
    ofValue (.tuple [0, -1e-10] : Value ℚ) = .ok ⟨0, -1e-10, 1⟩ ∧
    (⟨0, -1e-10, 1⟩ : LoopRange ℚ).iterations = 0 ∧
    (⟨0, -1e-10, 1⟩ : LoopRange ℚ).value 0 ≤ -1e-10 + 1e-9 * 1 := by
  refine ⟨by rfl, ?_, ?_⟩ <;> decide +kernel

end ShapeGrammar.LoopRange
