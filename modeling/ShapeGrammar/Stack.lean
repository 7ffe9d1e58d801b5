import ShapeGrammar.FrameRef
import ShapeGrammar.Statement

/-!
# The parameter stack

Slots hold named bindings and frames mark where each body's slots begin. A
lookup searches from the innermost slot outward, but only what its view lets
it see: the arguments of the function in progress, the slots of the rule being
expanded, and the globals. The slots of calling rules lie in none of these.
-/

set_option autoImplicit false

namespace ShapeGrammar

inductive Binding (α : Type) where
  | value (v : Value α)
  /-- A define that is evaluated anew at each reference. -/
  | deferred (d : Define α)
  | function (d : Define α)

structure Slot (α : Type) where
  name : String
  binding : Binding α

/-- A place on the stack: the index of a slot, or `none` past every slot. -/
abbrev Position := Option Nat

namespace Position

def lower : Position → Position → Position
  | none, q => q
  | p, none => p
  | some i, some j => some (min i j)

def next (p : Position) : Position := p.map (· + 1)

def within (p : Position) (height : Nat) : Nat :=
  match p with
  | none => height
  | some i => min i height

end Position

/-- Slots from `first` up to, and without, `stop`. -/
structure Window where
  first : Nat
  stop : Position
  deriving DecidableEq, Repr

namespace Window

def empty : Window := ⟨0, some 0⟩

def contains (w : Window) : Position → Bool
  | none => false
  | some slot => decide (w.first ≤ slot) && w.stop.all fun stop => slot < stop

end Window

inductive View where
  | full
  /-- Arguments first, then the rule's own slots, then the globals below an end. -/
  | lexical (args scope : Window) (globalsEnd : Position)
  deriving DecidableEq, Repr

namespace View

def rule (base : Nat) (globalsEnd : Position) : View := .lexical .empty ⟨base, none⟩ globalsEnd

def withArgs (v : View) (args : Window) : View :=
  match v with
  | .full => .lexical args .empty none
  | .lexical _ scope globalsEnd => .lexical args scope globalsEnd

/-- What was visible when `slot` was pushed, up to `stop`. -/
def cut (v : View) (slot stop : Position) : View :=
  match v with
  | .full => .lexical .empty .empty stop
  | .lexical args scope globalsEnd =>
    if args.contains slot then .lexical ⟨args.first, stop⟩ scope globalsEnd
    else if scope.contains slot then .lexical .empty ⟨scope.first, stop⟩ globalsEnd
    else .lexical .empty .empty (stop.lower globalsEnd)

def before (v : View) (slot : Position) : View := v.cut slot slot

/-- As `before`, with the binding itself still visible. -/
def through (v : View) (slot : Position) : View := v.cut slot slot.next

end View

structure Mark where
  slots : Nat
  frames : Nat
  deriving DecidableEq, Repr

structure Stack (α : Type) where
  slots : Array (Slot α)
  /-- The slot index at which each frame begins. -/
  frames : Array Nat
  session : Nat

namespace Stack

variable {α : Type}

def empty (session : Nat) : Stack α := ⟨#[], #[], session⟩

def height (s : Stack α) : Nat := s.slots.size

def depth (s : Stack α) : Nat := s.frames.size

def mark (s : Stack α) : Mark := ⟨s.height, s.depth⟩

def frameStart (s : Stack α) : Nat := s.frames.back?.getD 0

def frameSize (s : Stack α) : Nat := s.height - s.frameStart

def pushFrame (s : Stack α) : Stack α := { s with frames := s.frames.push s.height }

def findBelow (slots : Array (Slot α)) (name : String) (first : Nat) : Nat → Option Nat
  | 0 => none
  | i + 1 =>
    if i < first then none
    else if slots[i]?.any fun slot => slot.name == name then some i
    else findBelow slots name first i

def push (s : Stack α) (name : String) (binding : Binding α) : Except Problem (Stack α) :=
  if (findBelow s.slots name s.frameStart s.height).isSome then .error (.nameTaken name)
  else .ok { s with slots := s.slots.push ⟨name, binding⟩ }

/-- Cuts back to a mark. A stack that is already below it was corrupted. -/
def unwind (s : Stack α) (m : Mark) : Except Broken (Stack α) :=
  if s.height < m.slots ∨ s.depth < m.frames then
    .error (.stackBelowMark s.height s.depth m.slots m.frames)
  else
    .ok { s with slots := s.slots.shrink m.slots, frames := s.frames.shrink m.frames }

def findIn (s : Stack α) (name : String) (w : Window) : Option Nat :=
  findBelow s.slots name w.first (w.stop.within s.height)

def find (s : Stack α) (name : String) : View → Option Nat
  | .full => s.findIn name ⟨0, none⟩
  | .lexical args scope globalsEnd =>
    (s.findIn name args).or ((s.findIn name scope).or (s.findIn name ⟨0, globalsEnd⟩))

def lookup (s : Stack α) (name : String) (v : View) : Option (Nat × Binding α) := do
  let i ← s.find name v
  let slot ← s.slots[i]?
  return (i, slot.binding)

def frameRef (s : Stack α) : FrameRef := ⟨s.session, s.height⟩

def resolve (s : Stack α) (f : FrameRef) : Option (Array (Slot α)) :=
  if f.session = s.session ∧ f.height ≤ s.height then some (s.slots.shrink f.height) else none

end Stack

end ShapeGrammar
