import ShapeGrammar.Scalar

/-!
# Path operators

The operators that draw a path, the named arguments and the flags each of them
takes, and the arguments once they are numbers.
-/

set_option autoImplicit false

namespace ShapeGrammar.Path

inductive Operator where
  | moveTo | moveRel | lineTo | lineRel | arcTo | arcRel | curveTo | curveRel | closePoly
  deriving DecidableEq, Repr

inductive ArgName where
  | x | y | x1 | y1 | x2 | y2 | r | rx | ry | angle
  deriving DecidableEq, Repr

inductive Flag where
  | clockwise | large | align | evenOdd
  | miterJoin | roundJoin | bevelJoin
  | buttCap | roundCap | squareCap
  deriving DecidableEq, Repr

def Flag.bit : Flag → UInt32
  | .clockwise => 1
  | .large => 2
  | .align => 4
  | .evenOdd => 8
  | .miterJoin => 16
  | .roundJoin => 32
  | .bevelJoin => 64
  | .buttCap => 128
  | .roundCap => 256
  | .squareCap => 512

structure Flags where
  bits : UInt32
  deriving DecidableEq, Repr

namespace Flags

def empty : Flags := ⟨0⟩

def ofList (flags : List Flag) : Flags :=
  ⟨flags.foldl (fun bits flag => bits ||| flag.bit) 0⟩

def has (s : Flags) (flag : Flag) : Bool := s.bits &&& flag.bit != 0

def within (s allowed : Flags) : Bool := s.bits &&& allowed.bits == s.bits

def arc : Flags := ofList [.clockwise, .large]

def stroke : Flags :=
  ofList [.miterJoin, .roundJoin, .bevelJoin, .buttCap, .roundCap, .squareCap]

end Flags

def ArgName.name : ArgName → String
  | .x => "x"
  | .y => "y"
  | .x1 => "x1"
  | .y1 => "y1"
  | .x2 => "x2"
  | .y2 => "y2"
  | .r => "r"
  | .rx => "rx"
  | .ry => "ry"
  | .angle => "angle"

def ArgName.all : List ArgName := [.x, .y, .x1, .y1, .x2, .y2, .r, .rx, .ry, .angle]

namespace Operator

def name : Operator → String
  | .moveTo => "MOVETO"
  | .moveRel => "MOVEREL"
  | .lineTo => "LINETO"
  | .lineRel => "LINEREL"
  | .arcTo => "ARCTO"
  | .arcRel => "ARCREL"
  | .curveTo => "CURVETO"
  | .curveRel => "CURVEREL"
  | .closePoly => "CLOSEPOLY"

def all : List Operator :=
  [.moveTo, .moveRel, .lineTo, .lineRel, .arcTo, .arcRel, .curveTo, .curveRel, .closePoly]

def isRelative : Operator → Bool
  | .moveRel | .lineRel | .arcRel | .curveRel => true
  | _ => false

def accepted : Operator → List ArgName
  | .moveTo | .moveRel | .lineTo | .lineRel => [.x, .y]
  | .arcTo | .arcRel => [.x, .y, .r, .rx, .ry, .angle]
  | .curveTo | .curveRel => [.x, .y, .x1, .y1, .x2, .y2]
  | .closePoly => []

def accepts (op : Operator) (arg : ArgName) : Bool := op.accepted.contains arg

def acceptedFlags : Operator → Flags
  | .arcTo | .arcRel => .arc
  | .closePoly => .ofList [.align]
  | _ => .empty

end Operator

structure Args (α : Type) where
  x : α
  y : α
  x1 : α
  y1 : α
  x2 : α
  y2 : α
  rx : α
  ry : α
  angle : α

namespace Args

variable {α : Type}

def zero [Scalar α] : Args α := ⟨0, 0, 0, 0, 0, 0, 0, 0, 0⟩

/-- The radius of a circle sets both radii. -/
def set (args : Args α) (name : ArgName) (v : α) : Args α :=
  match name with
  | .x => { args with x := v }
  | .y => { args with y := v }
  | .x1 => { args with x1 := v }
  | .y1 => { args with y1 := v }
  | .x2 => { args with x2 := v }
  | .y2 => { args with y2 := v }
  | .r => { args with rx := v, ry := v }
  | .rx => { args with rx := v }
  | .ry => { args with ry := v }
  | .angle => { args with angle := v }

end Args

inductive CommandKind where
  | fill
  | stroke
  deriving DecidableEq, Repr

end ShapeGrammar.Path
