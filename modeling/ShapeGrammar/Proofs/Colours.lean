import Mathlib.Algebra.Order.Floor.Ring
import Mathlib.Tactic.Linarith
import ShapeGrammar.Proofs.Rationals

/-!
# Colours stay in range

With exact arithmetic the hue of an adjusted colour is the sum of the hues less whole
turns, and each other component covers the part of the way that its delta asks for,
toward one end or the other and never beyond. Both are told of one adjustment, and a
chain of adjustments keeps what one adjustment keeps.
-/

set_option autoImplicit false

namespace ShapeGrammar

open Exact

variable {K : Type} [Field K] [LinearOrder K] [FloorRing K] [Functions K]

namespace Colour

structure InRange (c : Colour K) : Prop where
  hue : 0 ≤ c.hue ∧ c.hue < 360
  saturation : 0 ≤ c.saturation ∧ c.saturation ≤ 1
  brightness : 0 ≤ c.brightness ∧ c.brightness ≤ 1
  alpha : 0 ≤ c.alpha ∧ c.alpha ≤ 1

/-- A component goes the way of its delta, and stays only where it has arrived. -/
structure Heads (delta before after : K) : Prop where
  up : 0 < delta → before ≤ after ∧ (before < 1 → before < after)
  down : delta < 0 → after ≤ before ∧ (0 < before → after < before)
  still : delta = 0 → after = before

structure Adjusts (m : Adjustment K) (before after : Colour K) : Prop where
  hue : ∃ turns : ℤ, after.hue = before.hue + m.hue - 360 * turns
  saturation : Heads m.saturation before.saturation after.saturation
  brightness : Heads m.brightness before.brightness after.brightness
  alpha : Heads m.alpha before.alpha after.alpha

theorem clamp_eq {lo hi : K} (ordered : lo ≤ hi) (x : K) :
    Scalar.clamp lo hi x = max lo (min x hi) := by
  unfold Scalar.clamp
  split
  case isTrue below => rw [max_eq_left ((min_le_left x hi).trans below.le)]
  case isFalse within =>
    split
    case isTrue above => rw [min_eq_right above.le, max_eq_right ordered]
    case isFalse under => rw [min_eq_left (not_lt.mp under), max_eq_right (not_lt.mp within)]

variable [IsStrictOrderedRing K]

/-- Of the way that is left to one, a positive delta leaves what it lacks of one. -/
theorem shift_pos {delta : K} (positive : 0 < delta) (base : K) :
    1 - shift base delta = (1 - base) * (1 - min delta 1) := by
  have cut : Scalar.clamp (-1) 1 delta = min delta 1 := by
    rw [clamp_eq (by norm_num), max_eq_right]
    exact le_min (by linarith) (by norm_num)
  have forward : 0 < min delta 1 := lt_min positive one_pos
  change 1 - (if 0 < Scalar.clamp (-1) 1 delta then _ else _) = _
  rw [cut, if_pos forward]
  ring

/-- Of the way that is left to nought, so does a negative one. -/
theorem shift_nonpos {delta : K} (negative : delta ≤ 0) (base : K) :
    shift base delta = base * (1 + max (-1) delta) := by
  have cut : Scalar.clamp (-1) 1 delta = max (-1) delta := by
    rw [clamp_eq (by norm_num), min_eq_left (negative.trans zero_le_one)]
  have backward : ¬0 < max (-1) delta := not_lt.mpr (max_le (by norm_num) negative)
  change (if 0 < Scalar.clamp (-1) 1 delta then _ else _) = _
  rw [cut, if_neg backward]
  ring

theorem shift_inRange {base : K} (within : 0 ≤ base ∧ base ≤ 1) (delta : K) :
    0 ≤ shift base delta ∧ shift base delta ≤ 1 := by
  rcases lt_or_ge 0 delta with positive | negative
  · have kept := shift_pos positive base
    have part : 0 ≤ 1 - min delta 1 := sub_nonneg.mpr (min_le_right delta 1)
    have whole : 1 - min delta 1 ≤ 1 := sub_le_self 1 (le_min positive.le zero_le_one)
    have rest : 0 ≤ 1 - base := sub_nonneg.mpr within.2
    have some : 0 ≤ (1 - base) * (1 - min delta 1) := mul_nonneg rest part
    have less := mul_le_of_le_one_right rest whole
    constructor <;> linarith
  · rw [shift_nonpos negative]
    have part : 0 ≤ 1 + max (-1) delta := by linarith [le_max_left (-1) delta]
    have whole : 1 + max (-1) delta ≤ 1 := by
      have backward : max (-1) delta ≤ 0 := max_le (by norm_num) negative
      linarith
    exact ⟨mul_nonneg within.1 part, (mul_le_of_le_one_right within.1 whole).trans within.2⟩

theorem shift_heads {base : K} (within : 0 ≤ base ∧ base ≤ 1) (delta : K) :
    Heads delta base (shift base delta) := by
  constructor
  case up =>
    intro positive
    have kept := shift_pos positive base
    have part : 0 < min delta 1 := lt_min positive one_pos
    have way : 0 ≤ (1 - base) * min delta 1 := mul_nonneg (sub_nonneg.mpr within.2) part.le
    refine ⟨by linarith, fun short => ?_⟩
    have ahead : 0 < (1 - base) * min delta 1 := mul_pos (sub_pos.mpr short) part
    linarith
  case down =>
    intro negative
    have kept := shift_nonpos negative.le base
    have part : max (-1) delta < 0 := max_lt (by norm_num) negative
    have way : base * max (-1) delta ≤ 0 := mul_nonpos_of_nonneg_of_nonpos within.1 part.le
    refine ⟨by linarith, fun left => ?_⟩
    have behind : base * max (-1) delta < 0 := mul_neg_of_pos_of_neg left part
    linarith
  case still =>
    rintro rfl
    rw [shift_nonpos le_rfl, max_eq_right (by norm_num), add_zero, mul_one]

/-- Rounding toward zero and mending a negative remainder is rounding down. -/
theorem remainder_eq_floor {b : K} (positive : 0 < b) (x : K) :
    Scalar.remainder x b = x - b * ⌊x / b⌋ := by
  have cancel : b * (x / b) = x := mul_div_cancel₀ x positive.ne'
  change (if x - b * truncated (x / b) < 0 then x - b * truncated (x / b) + |b|
    else x - b * truncated (x / b)) = _
  rw [abs_of_pos positive]
  unfold truncated
  split
  case isTrue under =>
    rcases (Int.le_ceil (x / b)).eq_or_lt with whole | part
    · have exactly : x - b * ⌈x / b⌉ = 0 := by rw [← whole, cancel, sub_self]
      have same : ⌊x / b⌋ = ⌈x / b⌉ := by
        apply le_antisymm (Int.floor_le_ceil _)
        exact Int.le_floor.mpr whole.ge
      rw [same, exactly, if_neg (lt_irrefl 0)]
    · have short : x - b * ⌈x / b⌉ < 0 := by
        have scaled := mul_lt_mul_of_pos_left part positive
        linarith
      have next : ⌈x / b⌉ = ⌊x / b⌋ + 1 := by
        apply le_antisymm (Int.ceil_le_floor_add_one _)
        exact Int.add_one_le_iff.mpr (Int.floor_lt.mpr part)
      rw [if_pos short, next, Int.cast_add, Int.cast_one]
      ring
  case isFalse nonneg =>
    have rest : ¬x - b * ⌊x / b⌋ < 0 := by
      have scaled := mul_le_mul_of_nonneg_left (Int.floor_le (x / b)) positive.le
      linarith
    rw [if_neg rest]

theorem remainder_inRange {b : K} (positive : 0 < b) (x : K) :
    0 ≤ Scalar.remainder x b ∧ Scalar.remainder x b < b := by
  have cancel : b * (x / b) = x := mul_div_cancel₀ x positive.ne'
  have below := mul_le_mul_of_nonneg_left (Int.floor_le (x / b)) positive.le
  have above := mul_lt_mul_of_pos_left (Int.lt_floor_add_one (x / b)) positive
  rw [remainder_eq_floor positive]
  constructor <;> linarith

theorem InRange.adjusted {c : Colour K} (range : c.InRange) (m : Adjustment K) :
    (c.adjusted m).InRange where
  hue := remainder_inRange (by norm_num) _
  saturation := shift_inRange range.saturation _
  brightness := shift_inRange range.brightness _
  alpha := shift_inRange range.alpha _

theorem InRange.adjusts {c : Colour K} (range : c.InRange) (m : Adjustment K) :
    Adjusts m c (c.adjusted m) where
  hue := ⟨_, remainder_eq_floor (by norm_num) _⟩
  saturation := shift_heads range.saturation _
  brightness := shift_heads range.brightness _
  alpha := shift_heads range.alpha _

end Colour

namespace Instance

variable [IsStrictOrderedRing K] {i : Instance K}

/-- What one adjustment keeps, a chain of them keeps. -/
theorem chain_inRange (range : i.colour.InRange) (ms : List (Adjustment K)) :
    (ms.foldl apply i).colour.InRange := by
  induction ms generalizing i with
  | nil => exact range
  | cons m rest ih => exact ih (range.adjusted m)

omit [IsStrictOrderedRing K] in
theorem colour_foldl_append (done : List (Adjustment K)) (m : Adjustment K) :
    ((done ++ [m]).foldl apply i).colour = (done.foldl apply i).colour.adjusted m := by
  rw [List.foldl_append]
  rfl

/-- After every part of a chain of adjustments the colour is in range, and each
adjustment of the chain moves every component the way of its delta. -/
theorem colours_stay_in_range (range : i.colour.InRange) (ms : List (Adjustment K)) :
    (∀ done, done <+: ms → (done.foldl apply i).colour.InRange) ∧
    ∀ done m, done ++ [m] <+: ms →
      Colour.Adjusts m (done.foldl apply i).colour ((done ++ [m]).foldl apply i).colour := by
  constructor
  · intro done _
    exact chain_inRange range done
  · intro done m _
    rw [colour_foldl_append]
    exact (chain_inRange range done).adjusts m

theorem root_inRange (shape : Nat) : (root shape : Instance K).colour.InRange := by
  constructor <;> constructor <;> norm_num [root, Colour.black]

def swing : List (Adjustment ℚ) :=
  [⟨.identity, 0, -1000, 5 / 2, 1 / 2, -1 / 4⟩, ⟨.identity, 0, 2000, -1 / 3, -7, 1 / 2⟩]

theorem colours_stay_in_range_swing :
    (root 0 : Instance ℚ).colour.InRange ∧
    ((swing.foldl apply (root 0)).colour.hue = 280 ∧
      (swing.foldl apply (root 0)).colour.saturation = 2 / 3 ∧
      (swing.foldl apply (root 0)).colour.brightness = 0 ∧
      (swing.foldl apply (root 0)).colour.alpha = 7 / 8) ∧
    (swing.foldl apply (root 0)).colour.InRange := by
  have range := root_inRange (K := ℚ) 0
  refine ⟨range, by decide +kernel, ?_⟩
  rw [Rational.scalar_eq_exact]
  exact (colours_stay_in_range range swing).1 swing List.prefix_rfl

end Instance

end ShapeGrammar
