import ShapeGrammar.Path.Compiled
import ShapeGrammar.Statement

/-!
# Instances and renderers

An instance is the drawing state handed down the expansion. A renderer is any
state with three ways to act on it: it is asked before every expansion and
every primitive, and is then told what to draw. The expansion never stops on
its own account, so a grammar that recurses for ever relies on the answers.
-/

set_option autoImplicit false

namespace ShapeGrammar

structure Instance (α : Type) where
  /-- The shape being expanded; none for a primitive. -/
  shape : Option Nat
  transform : Affine α
  z : α
  colour : Colour α
  /-- The values of the shape's parameters. -/
  params : List (Value α)

namespace Instance

variable {α : Type} [Scalar α]

def root (shape : Nat) : Instance α := ⟨some shape, .identity, 0, .black, []⟩

def apply (i : Instance α) (m : Adjustment α) : Instance α :=
  { i with
    transform := i.transform.compose m.transform
    z := i.z + m.z
    colour := i.colour.adjusted m }

def size (i : Instance α) : α := i.transform.scaleFactor

end Instance

inductive Verdict where
  | expand
  /-- Drop this instance and everything under it. -/
  | skip
  /-- Stop the whole render. -/
  | abort
  deriving DecidableEq, Repr

structure Renderer (σ α : Type) where
  /-- The depth is the nesting level the instance would take, one for the start. -/
  cutoff : Instance α → Nat → σ → Verdict × σ
  drawPrimitive : Instance α → Primitive → σ → σ
  /-- Called once for each command of a finished path; the command's adjustment
  is already applied to the instance. -/
  drawPath : Instance α → Nat → Path.Compiled α → Path.Command α → σ → σ

inductive Call (α : Type) where
  | cutoff (i : Instance α) (depth : Nat) (verdict : Verdict)
  | primitive (i : Instance α) (p : Primitive)
  | path (i : Instance α) (uid : Nat) (path : Path.Compiled α) (command : Path.Command α)

def Renderer.traced {σ α : Type} (r : Renderer σ α) : Renderer (σ × Array (Call α)) α where
  cutoff i depth s :=
    let (verdict, inner) := r.cutoff i depth s.1
    (verdict, (inner, s.2.push (.cutoff i depth verdict)))
  drawPrimitive i p s := (r.drawPrimitive i p s.1, s.2.push (.primitive i p))
  drawPath i uid path command s :=
    (r.drawPath i uid path command s.1, s.2.push (.path i uid path command))

end ShapeGrammar
