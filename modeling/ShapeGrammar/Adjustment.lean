import ShapeGrammar.Affine

/-!
# Colours and adjustments

An adjustment moves, lifts and recolours whatever it is applied to. Deltas of
saturation, brightness and opacity are relative: a positive one covers part of
the way to one, a negative one part of the way to zero. Hue turns on a circle.
-/

set_option autoImplicit false

namespace ShapeGrammar

structure Colour (α : Type) where
  hue : α
  saturation : α
  brightness : α
  alpha : α
  deriving BEq

structure Adjustment (α : Type) where
  transform : Affine α
  z : α
  hue : α
  saturation : α
  brightness : α
  alpha : α
  deriving BEq

variable {α : Type} [Scalar α]

namespace Adjustment

def identity : Adjustment α := ⟨.identity, 0, 0, 0, 0, 0⟩

def ofTransform (m : Affine α) : Adjustment α := { identity with transform := m }

/-- `m.andThen next` takes place inside the frame that `m` leaves. -/
def andThen (m next : Adjustment α) : Adjustment α where
  transform := m.transform.compose next.transform
  z := m.z + next.z
  hue := m.hue + next.hue
  saturation := m.saturation + next.saturation
  brightness := m.brightness + next.brightness
  alpha := m.alpha + next.alpha

def isIdentity (m : Adjustment α) : Bool := m == identity

end Adjustment

namespace Colour

def black : Colour α := ⟨0, 0, 0, 1⟩

def shift (base delta : α) : α :=
  let d := Scalar.clamp (-1) 1 delta
  if 0 < d then base + (1 - base) * d else base + base * d

def adjusted (c : Colour α) (m : Adjustment α) : Colour α where
  hue := Scalar.remainder (c.hue + m.hue) ((360 : Nat) : α)
  saturation := shift c.saturation m.saturation
  brightness := shift c.brightness m.brightness
  alpha := shift c.alpha m.alpha

end Colour

end ShapeGrammar
