import ShapeGrammar.Session

/-!
# Replicas

The generators of a transform multiply out to a list of adjustments, one for
each replica of its body: every choice of one factor from each generator, the
first generator outermost.
-/

set_option autoImplicit false

namespace ShapeGrammar

variable {σ α : Type} [Scalar α]

namespace Adjustment

/-- A group of order zero counts as order one. -/
def rotations (order : Nat) : List (Adjustment α) :=
  let n := max order 1
  (List.range n).map fun (k : Nat) =>
    ofTransform (.rotate ((k : α) * ((360 : Nat) : α) / (n : α)))

def reflections (order : Nat) : List (Adjustment α) :=
  let n := max order 1
  (List.range n).map fun (k : Nat) =>
    ofTransform (.reflect ((k : α) * ((180 : Nat) : α) / (n : α)))

end Adjustment

namespace Symmetry

def factors (env : Env Stop (Session σ α) α) : Symmetry α → Action σ α (List (Adjustment α))
  | .mods b => do return [← env.evalBundle b]
  | .cyclic n => return Adjustment.rotations n
  | .dihedral n => return Adjustment.rotations n ++ Adjustment.reflections n

def extend (product factors : List (Adjustment α)) : List (Adjustment α) :=
  product.flatMap fun m => factors.map fun f => m.andThen f

def productFrom (env : Env Stop (Session σ α) α) :
    List (Symmetry α) → List (Adjustment α) → Action σ α (List (Adjustment α))
  | [], product => return product
  | g :: rest, product => do
    let fs ← g.factors env
    productFrom env rest (extend product fs)

def product (env : Env Stop (Session σ α) α) (generators : List (Symmetry α)) :
    Action σ α (List (Adjustment α)) :=
  productFrom env generators [.identity]

end Symmetry

end ShapeGrammar
