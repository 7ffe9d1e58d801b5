import ShapeGrammar.Fault
import ShapeGrammar.FrameRef
import ShapeGrammar.Path.Storage

/-!
# Compiled paths

The geometry of a path rule together with the commands that draw it. Each
command covers the segments appended since the last command group; commands
that follow each other directly share a group. Finishing closes the path for
good, covers what no command covers by a fill, and gives it an identity.
-/

set_option autoImplicit false

namespace ShapeGrammar.Path

structure Command (α : Type) where
  kind : CommandKind
  flags : Flags
  width : α
  miter : α
  /-- The segments covered are those from `first` up to, and without, `stop`. -/
  first : Nat
  stop : Nat
  adjust : Adjustment α

structure Compiled (α : Type) where
  complete : Bool
  storage : Storage α
  commands : List (Command α)
  terminal : Option (Command α)
  frame : FrameRef
  uid : Option Nat
  groupStart : Nat
  inGroup : Bool

variable {α : Type} [Scalar α]

def defaultWidth : α := 0.1

def defaultMiter : α := ((4 : Nat) : α)

def Command.fill (first stop : Nat) : Command α :=
  { kind := .fill, flags := .empty, width := defaultWidth, miter := defaultMiter,
    first := first, stop := stop, adjust := .identity }

namespace Compiled

def empty (frame : FrameRef) : Compiled α :=
  { complete := false, storage := .empty, commands := [], terminal := none, frame := frame,
    uid := none, groupStart := 0, inGroup := false }

/-- Ready for segments: after a command, what follows begins a new group. -/
def ready (p : Compiled α) : Except Broken (Compiled α) :=
  if p.complete then .error .operatorAfterEnd
  else if p.inGroup then
    .ok { p with groupStart := p.storage.length, inGroup := false }
  else .ok p

def append (p : Compiled α) (op : Operator) (flags : Flags) (isCubic : Bool) (args : Args α)
    (m : Affine α) : Except Broken (Compiled α) :=
  p.ready.map fun p => { p with storage := p.storage.append op flags isCubic args m }

def addCommand (p : Compiled α) (c : Command α) : Except Broken (Compiled α) :=
  if p.complete then .error .commandAfterEnd
  else
    let covered := { c with first := p.groupStart, stop := p.storage.length }
    .ok { p with commands := p.commands ++ [covered], inGroup := true }

def uncovered (p : Compiled α) : Bool :=
  !p.inGroup && decide (p.groupStart < p.storage.length)

def sealed (p : Compiled α) : Compiled α :=
  if p.complete then p
  else if p.uncovered || p.commands.isEmpty then
    { p with complete := true, terminal := some (.fill p.groupStart p.storage.length) }
  else { p with complete := true }

def finish (p : Compiled α) (next : Nat) : Compiled α × Nat × Nat :=
  match p.uid with
  | some uid => (p.sealed, uid, next)
  | none => ({ p.sealed with uid := some next }, next, next + 1)

def identity (p : Compiled α) : Except Broken Nat :=
  match p.uid with
  | some uid => .ok uid
  | none => .error .noIdentity

def allCommands (p : Compiled α) : List (Command α) := p.commands ++ p.terminal.toList

end Compiled

end ShapeGrammar.Path
