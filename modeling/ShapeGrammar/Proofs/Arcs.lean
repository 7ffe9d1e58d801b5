import Mathlib.Algebra.Group.ModEq
import Mathlib.Analysis.SpecialFunctions.Complex.Arg
import Mathlib.Analysis.SpecialFunctions.Pow.Real
import Mathlib.Analysis.SpecialFunctions.Trigonometric.Arctan
import ShapeGrammar.Path.Storage
import ShapeGrammar.Proofs.Exact

/-!
# Arcs under similarities

A similarity takes an arc of an ellipse to an arc of an ellipse. It scales both
radii alike. One that mirrors the plane turns the sense of the arc round, and takes
an axis at an angle to the axis at the opposite angle from its own direction. The
angle of an arc is not turned round with its sense: under a mirroring similarity it
is right for axes along the coordinates and for no others.
-/

set_option autoImplicit false

namespace ShapeGrammar

open Exact

variable {K : Type} [Field K] [LinearOrder K] [FloorRing K] [Functions K]

namespace Affine

def Turns (m : Affine K) : Prop := m.c = -m.b ∧ m.d = m.a

def Mirrors (m : Affine K) : Prop := m.c = m.b ∧ m.d = -m.a

theorem sum_squares_pos [IsStrictOrderedRing K] {m : Affine K}
    (nonzero : ¬(m.a = 0 ∧ m.b = 0)) : 0 < m.a * m.a + m.b * m.b := by
  have nonneg := add_nonneg (mul_self_nonneg m.a) (mul_self_nonneg m.b)
  exact nonneg.lt_of_ne' (mul_self_add_mul_self_eq_zero.not.mpr nonzero)

theorem det_pos_of_turns [IsStrictOrderedRing K] {m : Affine K} (turns : m.Turns)
    (nonzero : ¬(m.a = 0 ∧ m.b = 0)) : 0 < m.det := by
  have squares : m.det = m.a * m.a + m.b * m.b := by
    rw [det, turns.1, turns.2]
    ring
  rw [squares]
  exact sum_squares_pos nonzero

theorem det_neg_of_mirrors [IsStrictOrderedRing K] {m : Affine K} (mirrors : m.Mirrors)
    (nonzero : ¬(m.a = 0 ∧ m.b = 0)) : m.det < 0 := by
  have squares : m.det = -(m.a * m.a + m.b * m.b) := by
    rw [det, mirrors.1, mirrors.2]
    ring
  rw [squares]
  exact neg_neg_of_pos (sum_squares_pos nonzero)

theorem det_identity : (identity : Affine K).det = 1 := by
  simp [det, identity]

theorem scaleFactor_identity [IsStrictOrderedRing K] : (identity : Affine K).scaleFactor = 1 := by
  rw [scaleFactor, det_identity]
  change Functions.sqrt |(1 : K)| = 1
  rw [abs_one, Functions.sqrt_one]

theorem rotation_identity : (identity : Affine K).rotation = 0 := by
  change Functions.atan2 (0 : K) 1 * _ = 0
  rw [Functions.atan2_zero_one]
  exact zero_mul _

end Affine

namespace Path

/-- An arc is added after whatever opens a sub-path for it. -/
theorem Storage.segments_append_arc {α : Type} [Scalar α] (s : Storage α) {op : Operator}
    (arc : op = .arcTo ∨ op = .arcRel) (flags : Flags) (isCubic : Bool) (args : Args α)
    (m : Affine α) :
    (s.append op flags isCubic args m).segments = s.opened.segments.push
      (.arc (s.place op m args.x args.y) ⟨args.rx * m.scaleFactor, args.ry * m.scaleFactor⟩
        (args.angle + m.rotation) (flags.has .large)
        (!(flags.has .clockwise != decide (m.det < 0)))) := by
  rcases arc with rfl | rfl <;> rfl

variable [IsStrictOrderedRing K]

/-- Half a turn brings an axis back. A mirrored angle differs from the angle itself by
such turns only when the axis lies along a coordinate. -/
theorem mirrored_angle_iff (turn angle : K) :
    angle + turn ≡ turn - angle [PMOD 180] ↔ ∃ k : ℤ, angle = k * 90 := by
  rw [AddCommGroup.modEq_iff_zsmul]
  constructor
  · intro ⟨k, h⟩
    refine ⟨-k, ?_⟩
    rw [zsmul_eq_mul] at h
    push_cast
    linarith
  · intro ⟨k, h⟩
    refine ⟨-k, ?_⟩
    rw [zsmul_eq_mul, h]
    push_cast
    ring

/-- An arc under a similarity against the same arc without it: where it ends, its
radii, its sense and, for a similarity that turns, the angle of its axis are those of
the image. For one that mirrors, the angle is right just when the axis lies along a
coordinate. -/
theorem Storage.append_arc_similar (s : Storage K) {op : Operator}
    (arc : op = .arcTo ∨ op = .arcRel) (flags : Flags) (isCubic : Bool) (args : Args K)
    {m : Affine K} (nonzero : ¬(m.a = 0 ∧ m.b = 0)) :
    ∃ (target image : Point K) (large sweep sweep' : Bool) (angle : K),
      (s.append op flags isCubic args .identity).segments =
        s.opened.segments.push (.arc target ⟨args.rx, args.ry⟩ args.angle large sweep) ∧
      (s.append op flags isCubic args m).segments =
        s.opened.segments.push (.arc image ⟨args.rx * m.scaleFactor, args.ry * m.scaleFactor⟩
          angle large sweep') ∧
      (op = .arcTo → image = m.apply target) ∧
      (op = .arcRel → ∃ v, target = s.pen.offset v ∧ image = s.pen.offset (m.applyVector v)) ∧
      (m.Turns → sweep' = sweep ∧ angle ≡ m.rotation + args.angle [PMOD 180]) ∧
      (m.Mirrors → sweep' = !sweep ∧
        (angle ≡ m.rotation - args.angle [PMOD 180] ↔ ∃ k : ℤ, args.angle = k * 90)) := by
  refine ⟨s.place op .identity args.x args.y, s.place op m args.x args.y, flags.has .large,
    !flags.has .clockwise, !(flags.has .clockwise != decide (m.det < 0)), args.angle + m.rotation,
    ?_, s.segments_append_arc arc flags isCubic args m, ?_, ?_, ?_, ?_⟩
  · have upright : ¬(1 : K) < 0 := not_lt_of_ge zero_le_one
    rw [s.segments_append_arc arc, Affine.scaleFactor_identity, Affine.rotation_identity,
      Affine.det_identity, mul_one, mul_one, add_zero, decide_eq_false upright, Bool.bne_false]
  · rintro rfl
    simp [place, Operator.isRelative]
  · rintro rfl
    refine ⟨⟨args.x, args.y⟩, ?_, ?_⟩ <;> simp [place, Operator.isRelative]
  · intro turns
    have kept : ¬m.det < 0 := not_lt_of_gt (Affine.det_pos_of_turns turns nonzero)
    rw [add_comm args.angle]
    simp [kept]
  · intro mirrors
    have turned : m.det < 0 := Affine.det_neg_of_mirrors mirrors nonzero
    exact ⟨by simp [turned], mirrored_angle_iff m.rotation args.angle⟩

end Path

/-! ### Over the reals -/

/-- The functions of the reals. Of a number only the whole part is written out. -/
noncomputable instance Exact.reals : Functions ℝ where
  sqrt := Real.sqrt
  exp := Real.exp
  log := Real.log
  pow x y := x ^ y
  pi := Real.pi
  sin := Real.sin
  cos := Real.cos
  tan := Real.tan
  atan := Real.arctan
  atan2 y x := Complex.arg ⟨x, y⟩
  text x := toString ⌊x⌋
  textOnePlace x := toString ⌊x⌋
  sqrt_one := Real.sqrt_one
  atan2_zero_one := Complex.arg_one

namespace Sample

/-- An arc of an ellipse to the point `(1, 1)`, its axis at the given angle. -/
noncomputable def bow (angle : ℝ) : Path.Args ℝ :=
  { Path.Args.zero with x := 1, y := 1, rx := 2, ry := 1, angle := angle }

/-- Mirrors across the diagonal and doubles. -/
noncomputable def diagonal : Affine ℝ := ⟨0, 2, 2, 0, 0, 0⟩

/-- Mirrors across the x axis. -/
noncomputable def mirror : Affine ℝ := ⟨1, 0, 0, -1, 0, 0⟩

theorem diagonal_mirrors : diagonal.Mirrors := ⟨rfl, by simp [diagonal]⟩

theorem mirror_mirrors : mirror.Mirrors := ⟨rfl, rfl⟩

end Sample

namespace Path

open Sample

theorem Storage.append_arc_similar_diagonal :
    ¬(diagonal.a = 0 ∧ diagonal.b = 0) ∧ diagonal.Mirrors ∧
    ∃ (target image : Point ℝ) (large sweep sweep' : Bool) (angle : ℝ),
      ((empty : Storage ℝ).append .arcTo .arc false (bow 90) .identity).segments =
        (empty : Storage ℝ).opened.segments.push (.arc target ⟨2, 1⟩ 90 large sweep) ∧
      ((empty : Storage ℝ).append .arcTo .arc false (bow 90) diagonal).segments =
        (empty : Storage ℝ).opened.segments.push
          (.arc image ⟨2 * diagonal.scaleFactor, 1 * diagonal.scaleFactor⟩ angle large sweep') ∧
      image = diagonal.apply target ∧ sweep' = (!sweep) ∧
      angle ≡ diagonal.rotation - 90 [PMOD 180] := by
  have nonzero : ¬(diagonal.a = 0 ∧ diagonal.b = 0) := by simp [diagonal]
  obtain ⟨target, image, large, sweep, sweep', angle, plain, mapped, ends, _, _, mirrored⟩ :=
    (empty : Storage ℝ).append_arc_similar (.inl rfl) .arc false (bow 90) nonzero
  obtain ⟨turned, congruent⟩ := mirrored diagonal_mirrors
  have along : ∃ k : ℤ, (bow 90).angle = k * 90 := ⟨1, by simp [bow]⟩
  exact ⟨nonzero, diagonal_mirrors, target, image, large, sweep, sweep', angle, plain, mapped,
    ends rfl, turned, congruent.mpr along⟩

/-- The axis of an arc that is mirrored across the x axis keeps its angle of thirty
degrees, where its image has the opposite angle. -/
theorem Storage.append_arc_mirrored_astray :
    ¬(mirror.a = 0 ∧ mirror.b = 0) ∧ mirror.Mirrors ∧
    ∃ (target radii : Point ℝ) (angle : ℝ) (large sweep : Bool),
      ((empty : Storage ℝ).append .arcTo .empty false (bow 30) mirror).segments.back? =
        some (.arc target radii angle large sweep) ∧
      ¬angle ≡ mirror.rotation - (bow 30).angle [PMOD 180] := by
  have nonzero : ¬(mirror.a = 0 ∧ mirror.b = 0) := by simp [mirror]
  have stored := (empty : Storage ℝ).segments_append_arc (.inl rfl) .empty false (bow 30) mirror
  have last := (congrArg Array.back? stored).trans Array.back?_push
  have astray : ¬(bow 30).angle + mirror.rotation ≡ mirror.rotation - (bow 30).angle [PMOD 180] := by
    rw [mirrored_angle_iff]
    intro ⟨k, h⟩
    have value : (30 : ℝ) = k * 90 := h
    have whole : (30 : ℤ) = k * 90 := by exact_mod_cast value
    omega
  exact ⟨nonzero, mirror_mirrors, _, _, _, _, _, last, astray⟩

end Path

end ShapeGrammar
