import ShapeGrammar.Grammar
import ShapeGrammar.Random
import ShapeGrammar.Renderer
import ShapeGrammar.Stack

/-!
# Sessions

The state of an expansion and the ways to step out of it again. Whatever an
action does inside a frame, under a view or one level deeper, the frame is
unwound, the view restored and the level left on every way out, failures
included.

What a grammar's renders leave behind for later ones is a store: the values of
constant defines, the paths of static rules, and the counters of identities.
-/

set_option autoImplicit false

namespace ShapeGrammar

-- The counters are unbounded here: that they wrap around after `2^64` paths or
-- sessions is left out.
structure Store (α : Type) where
  values : List (Address × Value α)
  paths : List (Address × Path.Compiled α)
  /-- The identity that the next finished path gets. -/
  nextUid : Nat
  /-- Sessions begun so far. -/
  sessions : Nat

def Store.empty {α : Type} : Store α := ⟨[], [], 1, 0⟩

structure Session (σ α : Type) where
  stack : Stack α
  view : View
  /-- Height of the global frame once it is complete. -/
  globalsEnd : Nat
  depth : Nat
  /-- The path under construction, while a path rule is being built. -/
  building : Option (Path.Compiled α)
  random : Random
  store : Store α
  renderer : σ

/-- Why an expansion ended early. Running out of fuel is no fault of the
grammar. -/
inductive Stop where
  | fault (f : Fault)
  | outOfFuel
  deriving DecidableEq, Repr

abbrev Action (σ α β : Type) := Attempt Stop (Session σ α) β

variable {σ α β : Type}

def Session.begin (seed : UInt64) (store : Store α) (renderer : σ) : Session σ α where
  stack := .empty (store.sessions + 1)
  view := .full
  globalsEnd := 0
  depth := 0
  building := none
  random := ⟨seed⟩
  store := { store with sessions := store.sessions + 1 }
  renderer := renderer

namespace Action

def broken (what : Broken) : Action σ α β := Attempt.fail (.fault (.broken what))

def problem (span : Span) (p : Problem) : Action σ α β :=
  Attempt.fail (.fault (.grammar ⟨span, p⟩))

def underView (view : View) (act : Action σ α β) : Action σ α β := ⟨fun s =>
  let saved := s.view
  match act.run { s with view := view } with
  | .ok b s' => .ok b { s' with view := saved }
  | .failed e s' => .failed e { s' with view := saved }⟩

def deeper (act : Action σ α β) : Action σ α β := ⟨fun s =>
  match act.run { s with depth := s.depth + 1 } with
  | .ok b s' => .ok b { s' with depth := s'.depth - 1 }
  | .failed e s' => .failed e { s' with depth := s'.depth - 1 }⟩

/-- Runs an action in a frame of its own and cuts the stack back to where it
was. A stack that cannot be cut back outranks any other outcome. -/
def inFrame (act : Action σ α β) : Action σ α β := ⟨fun s =>
  let m := s.stack.mark
  match act.run { s with stack := s.stack.pushFrame } with
  | .ok b s' =>
    match s'.stack.unwind m with
    | .ok stack => .ok b { s' with stack := stack }
    | .error what => .failed (.fault (.broken what)) s'
  | .failed e s' =>
    match s'.stack.unwind m with
    | .ok stack => .failed e { s' with stack := stack }
    | .error what => .failed (.fault (.broken what)) s'⟩

def bindName (name : String) (binding : Binding α) (span : Span) : Action σ α Unit := ⟨fun s =>
  match s.stack.push name binding with
  | .ok stack => .ok () { s with stack := stack }
  | .error p => .failed (.fault (.grammar ⟨span, p⟩)) s⟩

def bindParams : List Param → List (Value α) → Action σ α Unit
  | p :: params, v :: values => do
    bindName p.name (.value v) p.span
    bindParams params values
  | _, _ => pure ()

end Action

end ShapeGrammar
