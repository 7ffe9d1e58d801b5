import ShapeGrammar.Fault

/-!
# Switches

A switch maps integer keys to bodies and has a default for all others. The
bodies are of any type, so that a switch over statements and the switch over
what those statements do are the same thing.
-/

set_option autoImplicit false

namespace ShapeGrammar

structure Switch (β : Type) where
  /-- Each key with the index of its body. -/
  keys : List (Int × Nat)
  bodies : List β
  default : β

namespace Switch

variable {β : Type}

def empty (default : β) : Switch β := ⟨[], [], default⟩

def clash? (taken : List Int) : List Int → Option Int
  | [] => none
  | key :: rest => if taken.contains key then some key else clash? (key :: taken) rest

def addCase (s : Switch β) (keys : List Int) (body : β) : Except Problem (Switch β) :=
  match clash? (s.keys.map Prod.fst) keys with
  | some key => .error (.caseTaken key)
  | none =>
    .ok { s with
      keys := s.keys ++ keys.map fun key => (key, s.bodies.length)
      bodies := s.bodies ++ [body] }

def case (s : Switch β) (key : Int) : β :=
  match s.keys.lookup key with
  | some i => s.bodies[i]?.getD s.default
  | none => s.default

theorem case_eq_default_or_mem (s : Switch β) (key : Int) :
    s.case key = s.default ∨ s.case key ∈ s.bodies := by
  unfold case
  cases s.keys.lookup key with
  | none => exact Or.inl rfl
  | some i =>
    cases h : s.bodies[i]? with
    | none => exact Or.inl (by simp [h])
    | some body => exact Or.inr (by simpa [h] using List.mem_of_getElem? h)

def allBodies (s : Switch β) : List β := s.bodies ++ [s.default]

end Switch

end ShapeGrammar
