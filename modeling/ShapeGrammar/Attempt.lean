/-!
# Attempts

A computation on a state that may fail. The state survives a failure, so that
whatever was drawn, recorded or counted on the way stays so.
-/

set_option autoImplicit false

namespace ShapeGrammar

inductive Outcome (ε ω β : Type) where
  | ok (value : β) (state : ω)
  | failed (error : ε) (state : ω)

namespace Outcome

variable {ε ω β γ : Type}

def state : Outcome ε ω β → ω
  | .ok _ s => s
  | .failed _ s => s

end Outcome

structure Attempt (ε ω β : Type) where
  run : ω → Outcome ε ω β

namespace Attempt

variable {ε ω β γ : Type}

@[ext] theorem ext {x y : Attempt ε ω β} (h : ∀ s, x.run s = y.run s) : x = y := by
  cases x
  cases y
  exact congrArg mk (funext h)

@[always_inline, inline]
instance : Monad (Attempt ε ω) where
  pure b := ⟨fun s => .ok b s⟩
  bind x f := ⟨fun s =>
    match x.run s with
    | .ok b s' => (f b).run s'
    | .failed e s' => .failed e s'⟩

@[inline]
def fail (e : ε) : Attempt ε ω β := ⟨fun s => .failed e s⟩

@[inline]
def state : Attempt ε ω ω := ⟨fun s => .ok s s⟩

@[inline]
def update (f : ω → ω) : Attempt ε ω Unit := ⟨fun s => .ok () (f s)⟩

@[simp] theorem run_pure (b : β) (s : ω) :
    (pure b : Attempt ε ω β).run s = .ok b s := rfl

@[simp] theorem run_bind (x : Attempt ε ω β) (f : β → Attempt ε ω γ) (s : ω) :
    (x >>= f).run s =
      match x.run s with
      | .ok b s' => (f b).run s'
      | .failed e s' => .failed e s' := rfl

@[simp] theorem run_fail (e : ε) (s : ω) : (fail e : Attempt ε ω β).run s = .failed e s := rfl

@[simp] theorem run_state (s : ω) : (state : Attempt ε ω ω).run s = .ok s s := rfl

@[simp] theorem run_update (f : ω → ω) (s : ω) :
    (update f : Attempt ε ω Unit).run s = .ok () (f s) := rfl

instance : LawfulMonad (Attempt ε ω) := LawfulMonad.mk' _
  (by
    intro β x
    ext s
    change (match x.run s with
      | .ok b s' => .ok b s'
      | .failed e s' => .failed e s') = x.run s
    cases x.run s <;> rfl)
  (by
    intros
    rfl)
  (by
    intro β γ δ x f g
    ext s
    simp only [run_bind]
    cases x.run s <;> rfl)

end Attempt

end ShapeGrammar
