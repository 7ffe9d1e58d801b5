/-!
# Handles to stack positions

A handle names a session and a height of its stack, and owns nothing.
-/

set_option autoImplicit false

namespace ShapeGrammar

structure FrameRef where
  session : Nat
  height : Nat
  deriving DecidableEq, Repr

/-- Sessions are numbered from one, so this handle belongs to none. -/
def FrameRef.detached : FrameRef := ⟨0, 0⟩

end ShapeGrammar
