/-!
# Scalars

Geometry, colour, weights and loop counters compute with one number type.
`Scalar` lists the operations they use and states no law about them: at
double precision they are the rounded operations of the machine, and at an
exact type the rational ones. Everything built on top is written once, for
any scalar.
-/

set_option autoImplicit false

namespace ShapeGrammar

class Scalar (α : Type) extends Add α, Sub α, Mul α, Div α, Neg α, Zero α, One α,
    NatCast α, OfScientific α, BEq α, LT α, LE α where
  decLt : DecidableLT α
  decLe : DecidableLE α
  isFinite : α → Bool
  abs : α → α
  sqrt : α → α
  floor : α → α
  ceil : α → α
  exp : α → α
  log : α → α
  pow : α → α → α
  pi : α
  /-- Angles of the circular functions are in radians. -/
  sin : α → α
  cos : α → α
  tan : α → α
  atan : α → α
  atan2 : α → α → α
  /-- Remainder of the quotient rounded toward zero: it has the dividend's sign. -/
  truncMod : α → α → α
  /-- The floor as a 64-bit count; what does not fit goes to the nearer end. -/
  floorNat : α → Nat
  /-- The floor as a signed 64-bit integer; what does not fit goes to the nearer end. -/
  floorInt : α → Int
  /-- The fewest decimal digits that read back as the number, without an exponent. -/
  text : α → String
  /-- The number to one decimal place, a half going to the even neighbour. -/
  textOnePlace : α → String

namespace Scalar

variable {α : Type} [Scalar α]

instance : DecidableLT α := decLt

instance : DecidableLE α := decLe

def radians (degrees : α) : α := degrees * (pi / ((180 : Nat) : α))

def degrees (radians : α) : α := radians * (((180 : Nat) : α) / pi)

def remainder (a b : α) : α :=
  let r := truncMod a b
  if r < 0 then r + abs b else r

/-- The second operand is taken unless the first is strictly smaller. A number
that differs from itself stands for no value and is taken only if both do. -/
def smaller (a b : α) : α :=
  if a < b then a else if b == b then b else a

def larger (a b : α) : α :=
  if b < a then a else if b == b then b else a

def clamp (lo hi x : α) : α :=
  if x < lo then lo else if hi < x then hi else x

end Scalar

end ShapeGrammar
