import ShapeGrammar.Fault

/-!
# Loop ranges

A loop counts from a start to an end by a positive step. The end is included,
with a tolerance of a billionth of a step for ranges such as `0, 1, 0.1`.
-/

set_option autoImplicit false

namespace ShapeGrammar

structure LoopRange (α : Type) where
  start : α
  stop : α
  step : α

namespace LoopRange

variable {α : Type} [Scalar α]

/-- One number counts from zero, two are the ends, and a third is the step. -/
def ofNumbers : List α → Except Problem (LoopRange α)
  | [n] => .ok ⟨0, n - 1, 1⟩
  | [a, b] => .ok ⟨a, b, 1⟩
  | [a, b, s] => .ok ⟨a, b, s⟩
  | xs => .error (.rangeWidth xs.length)

def check (r : LoopRange α) : Except Problem (LoopRange α) :=
  if !(Scalar.isFinite r.start && Scalar.isFinite r.stop && Scalar.isFinite r.step) then
    .error .rangeNotFinite
  else if r.step ≤ 0 then .error (.rangeStep (Scalar.text r.step))
  else .ok r

def ofValue (v : Value α) : Except Problem (LoopRange α) :=
  match v.numbers? with
  | none => .error (.rangeNotNumeric v.found)
  | some xs => (ofNumbers xs).bind check

-- The floor stays below `2^64`. One more than the greatest floor is counted here, and
-- that it overflows in a machine word is left out.
def iterations (r : LoopRange α) : Nat :=
  if r.stop < r.start then 0
  else Scalar.floorNat ((r.stop - r.start) / r.step + 1e-9) + 1

def value (r : LoopRange α) (i : Nat) : α := r.start + (i : α) * r.step

end LoopRange

end ShapeGrammar
