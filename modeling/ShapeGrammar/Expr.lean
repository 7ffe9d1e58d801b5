import ShapeGrammar.Scalar

/-!
# Expressions

Expressions as a front end hands them over, each node with its place in the
source. Three readings need no evaluation: the names an expression refers to,
whether its value can change between evaluations, and how many numbers it
yields when the syntax alone tells.
-/

set_option autoImplicit false

namespace ShapeGrammar

structure Span where
  line : Nat
  column : Nat
  deriving DecidableEq, Repr

def Span.none : Span := ⟨0, 0⟩

inductive Kind where
  | number
  | flag
  | adjustment
  deriving DecidableEq, Repr

def Kind.name : Kind → String
  | .number => "number"
  | .flag => "flag"
  | .adjustment => "adjustment"

structure Param where
  name : String
  kind : Kind
  /-- How many numbers it holds; one for flags and adjustments. -/
  width : Nat
  span : Span
  deriving DecidableEq, Repr

inductive UnaryOp where
  | neg
  | not
  deriving DecidableEq, Repr

def UnaryOp.name : UnaryOp → String
  | .neg => "Neg"
  | .not => "Not"

inductive BinaryOp where
  | add | sub | mul | div | mod | pow
  | eq | ne | lt | le | gt | ge
  | and | or
  deriving DecidableEq, Repr

def BinaryOp.symbol : BinaryOp → String
  | .add => "+"
  | .sub => "-"
  | .mul => "*"
  | .div => "/"
  | .mod => "%"
  | .pow => "^"
  | .eq => "=="
  | .ne => "!="
  | .lt => "<"
  | .le => "<="
  | .gt => ">"
  | .ge => ">="
  | .and => "and"
  | .or => "or"

inductive Builtin where
  | sin | cos | tan | atan | atan2 | sqrt | abs | floor | ceil | exp | log | min | max
  | rand | randint
  deriving DecidableEq, Repr

namespace Builtin

def ofName? : String → Option Builtin
  | "sin" => some .sin
  | "cos" => some .cos
  | "tan" => some .tan
  | "atan" => some .atan
  | "atan2" => some .atan2
  | "sqrt" => some .sqrt
  | "abs" => some .abs
  | "floor" => some .floor
  | "ceil" => some .ceil
  | "exp" => some .exp
  | "log" => some .log
  | "min" => some .min
  | "max" => some .max
  | "rand" => some .rand
  | "randint" => some .randint
  | _ => none

def isRandom : Builtin → Bool
  | .rand => true
  | .randint => true
  | _ => false

def namesPure (name : String) : Bool := (ofName? name).any fun f => !f.isRandom

def namesRandom (name : String) : Bool := (ofName? name).any isRandom

def namesAny (name : String) : Bool := (ofName? name).isSome

end Builtin

inductive Expr (α : Type) where
  | number (value : α) (span : Span)
  | flag (value : Bool) (span : Span)
  | var (name : String) (span : Span)
  /-- The numbers of all items in one row. -/
  | tuple (items : List (Expr α)) (span : Span)
  | unary (op : UnaryOp) (operand : Expr α) (span : Span)
  | binary (left : Expr α) (op : BinaryOp) (right : Expr α) (span : Span)
  | call (callee : String) (args : List (Expr α)) (span : Span)

namespace Expr

variable {α : Type}

def span : Expr α → Span
  | .number _ s => s
  | .flag _ s => s
  | .var _ s => s
  | .tuple _ s => s
  | .unary _ _ s => s
  | .binary _ _ _ s => s
  | .call _ _ s => s

mutual

/-- No random draw, no call of a user function, and no variable but those
that `known` vouches for. -/
def isConstantIn (known : String → Bool) : Expr α → Bool
  | .number _ _ => true
  | .flag _ _ => true
  | .var name _ => known name
  | .tuple items _ => allConstantIn known items
  | .unary _ operand _ => operand.isConstantIn known
  | .binary left _ right _ => left.isConstantIn known && right.isConstantIn known
  | .call callee args _ => Builtin.namesPure callee && allConstantIn known args

def allConstantIn (known : String → Bool) : List (Expr α) → Bool
  | [] => true
  | e :: rest => e.isConstantIn known && allConstantIn known rest

end

def isConstant (e : Expr α) : Bool := e.isConstantIn fun _ => false

abbrev Occurrence := String × Span

mutual

def names : Expr α → List Occurrence
  | .number _ _ => []
  | .flag _ _ => []
  | .var name s => [(name, s)]
  | .tuple items _ => allNames items
  | .unary _ operand _ => operand.names
  | .binary left _ right _ => left.names ++ right.names
  | .call callee args s =>
    (if Builtin.namesAny callee then [] else [(callee, s)]) ++ allNames args

def allNames : List (Expr α) → List Occurrence
  | [] => []
  | e :: rest => e.names ++ allNames rest

end

mutual

def staticWidth : Expr α → Option Nat
  | .number _ _ => some 1
  | .flag _ _ => some 1
  | .tuple items _ => totalWidth items
  | .unary _ operand _ => operand.staticWidth
  | _ => none

def totalWidth : List (Expr α) → Option Nat
  | [] => some 0
  | e :: rest => do return (← e.staticWidth) + (← totalWidth rest)

end

end Expr

end ShapeGrammar
