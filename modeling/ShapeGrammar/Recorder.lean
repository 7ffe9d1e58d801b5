import ShapeGrammar.Renderer

/-!
# The recorder

A renderer that keeps every draw, and the geometry of each path once. It drops
instances that are too small or too deep and aborts at a number of commands.
-/

set_option autoImplicit false

namespace ShapeGrammar

structure Limits (α : Type) where
  minSize : α
  maxDepth : Nat
  maxCommands : Nat

def Limits.standard {α : Type} [Scalar α] : Limits α := ⟨0.001, 64, 100000⟩

inductive Drawing (α : Type) where
  | primitive (p : Primitive)
  | path (uid : Nat) (command : Path.Command α)

structure Draw (α : Type) where
  drawing : Drawing α
  transform : Affine α
  z : α
  colour : Colour α

structure Recorder (α : Type) where
  draws : Array (Draw α)
  /-- The segments of each path drawn, in ascending order of identity. -/
  paths : List (Nat × Array (Path.Segment α))
  skipped : Nat

namespace Recorder

variable {α : Type}

def empty : Recorder α := ⟨#[], [], 0⟩

def keepPath (uid : Nat) (segments : Array (Path.Segment α)) :
    List (Nat × Array (Path.Segment α)) → List (Nat × Array (Path.Segment α))
  | [] => [(uid, segments)]
  | (other, kept) :: rest =>
    if uid < other then (uid, segments) :: (other, kept) :: rest
    else if uid = other then (other, kept) :: rest
    else (other, kept) :: keepPath uid segments rest

def path? (r : Recorder α) (uid : Nat) : Option (Array (Path.Segment α)) := r.paths.lookup uid

def record (r : Recorder α) (i : Instance α) (drawing : Drawing α) : Recorder α :=
  { r with draws := r.draws.push ⟨drawing, i.transform, i.z, i.colour⟩ }

variable [Scalar α]

/-- The number of commands is looked at first, then depth and size. -/
def cutoff (limits : Limits α) (i : Instance α) (depth : Nat) (r : Recorder α) :
    Verdict × Recorder α :=
  if limits.maxCommands ≤ r.draws.size then (.abort, r)
  else if limits.maxDepth < depth ∨ i.size < limits.minSize then
    (.skip, { r with skipped := r.skipped + 1 })
  else (.expand, r)

def renderer (limits : Limits α) : Renderer (Recorder α) α where
  cutoff := cutoff limits
  drawPrimitive i p r := r.record i (.primitive p)
  drawPath i uid path command r :=
    { r with paths := keepPath uid path.storage.segments r.paths }.record i (.path uid command)

end Recorder

end ShapeGrammar
