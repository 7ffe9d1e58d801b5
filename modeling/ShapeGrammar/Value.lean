import ShapeGrammar.Adjustment
import ShapeGrammar.Expr

/-!
# Values

What an expression evaluates to. A row of exactly one number is always the
number itself, so that equal values have one form.
-/

set_option autoImplicit false

namespace ShapeGrammar

inductive Value (α : Type) where
  | number (x : α)
  | flag (b : Bool)
  | tuple (xs : List α)
  | adjustment (m : Adjustment α)

inductive Found where
  | number
  | flag
  | tuple (width : Nat)
  | adjustment
  deriving DecidableEq, Repr

def Found.name : Found → String
  | .number => Kind.number.name
  | .flag => Kind.flag.name
  | .tuple width => s!"number[{width}]"
  | .adjustment => Kind.adjustment.name

namespace Value

variable {α : Type}

def kind : Value α → Kind
  | .number _ => .number
  | .tuple _ => .number
  | .flag _ => .flag
  | .adjustment _ => .adjustment

def width : Value α → Nat
  | .tuple xs => xs.length
  | _ => 1

def found : Value α → Found
  | .number _ => .number
  | .flag _ => .flag
  | .tuple xs => .tuple xs.length
  | .adjustment _ => .adjustment

def ofNumbers : List α → Value α
  | [x] => .number x
  | xs => .tuple xs

def numbers? : Value α → Option (List α)
  | .number x => some [x]
  | .tuple xs => some xs
  | _ => none

variable [Scalar α]

def same : Value α → Value α → Bool
  | .number x, .number y => x == y
  | .flag b, .flag c => b == c
  | .tuple xs, .tuple ys => xs == ys
  | .adjustment m, .adjustment n => m == n
  | _, _ => false

end Value

end ShapeGrammar
