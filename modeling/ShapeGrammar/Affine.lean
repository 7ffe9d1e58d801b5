import ShapeGrammar.Scalar

/-!
# Affine maps of the plane

A map is given by the six free coefficients of its matrix: `(x, y)` goes to
`(a x + c y + e, b x + d y + f)`. Angles are in degrees.
-/

set_option autoImplicit false

namespace ShapeGrammar

structure Point (α : Type) where
  x : α
  y : α
  deriving BEq

structure Affine (α : Type) where
  a : α
  b : α
  c : α
  d : α
  e : α
  f : α
  deriving BEq

variable {α : Type} [Scalar α]

namespace Point

def origin : Point α := ⟨0, 0⟩

def offset (p v : Point α) : Point α := ⟨p.x + v.x, p.y + v.y⟩

end Point

namespace Affine

def identity : Affine α := ⟨1, 0, 0, 1, 0, 0⟩

def translate (x y : α) : Affine α := ⟨1, 0, 0, 1, x, y⟩

def rotate (degrees : α) : Affine α :=
  let s := Scalar.sin (Scalar.radians degrees)
  let c := Scalar.cos (Scalar.radians degrees)
  ⟨c, s, -s, c, 0, 0⟩

def scale (x y : α) : Affine α := ⟨x, 0, 0, y, 0, 0⟩

def skew (ax ay : α) : Affine α :=
  ⟨1, Scalar.tan (Scalar.radians ay), Scalar.tan (Scalar.radians ax), 1, 0, 0⟩

def reflect (degrees : α) : Affine α :=
  let angle := Scalar.radians (((2 : Nat) : α) * degrees)
  let s := Scalar.sin angle
  let c := Scalar.cos angle
  ⟨c, s, s, -c, 0, 0⟩

/-- `m.compose inner` applies `inner` first. -/
def compose (m inner : Affine α) : Affine α where
  a := m.a * inner.a + m.c * inner.b
  b := m.b * inner.a + m.d * inner.b
  c := m.a * inner.c + m.c * inner.d
  d := m.b * inner.c + m.d * inner.d
  e := m.a * inner.e + m.c * inner.f + m.e
  f := m.b * inner.e + m.d * inner.f + m.f

def apply (m : Affine α) (p : Point α) : Point α :=
  ⟨m.a * p.x + m.c * p.y + m.e, m.b * p.x + m.d * p.y + m.f⟩

def applyVector (m : Affine α) (v : Point α) : Point α :=
  ⟨m.a * v.x + m.c * v.y, m.b * v.x + m.d * v.y⟩

def det (m : Affine α) : α := m.a * m.d - m.b * m.c

def scaleFactor (m : Affine α) : α := Scalar.sqrt (Scalar.abs m.det)

/-- The direction of the image of the x axis. -/
def rotation (m : Affine α) : α := Scalar.degrees (Scalar.atan2 m.b m.a)

def isIdentity (m : Affine α) : Bool := m == identity

def coefficients (m : Affine α) : List α := [m.a, m.b, m.c, m.d, m.e, m.f]

def approximates (m other : Affine α) (tolerance : α) : Bool :=
  (m.coefficients.zip other.coefficients).all fun (x, y) =>
    Scalar.abs (x - y) ≤ tolerance

end Affine

end ShapeGrammar
