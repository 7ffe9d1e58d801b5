import ShapeGrammar.Expr

/-!
# Adjustment bundles

A bundle lists adjustment terms that are still to be evaluated. An ordered
bundle applies them as written. Any other takes them rank by rank, so that
only the order within one rank is the writer's.
-/

set_option autoImplicit false

namespace ShapeGrammar

inductive TermKind where
  | translate | x | y | z | rotate | size | skew | flip
  | hue | sat | bright | alpha
  /-- Splices in an expression whose value is an adjustment. -/
  | transform
  deriving DecidableEq, Repr

namespace TermKind

def name : TermKind → String
  | .translate => "Translate"
  | .x => "X"
  | .y => "Y"
  | .z => "Z"
  | .rotate => "Rotate"
  | .size => "Size"
  | .skew => "Skew"
  | .flip => "Flip"
  | .hue => "Hue"
  | .sat => "Sat"
  | .bright => "Bright"
  | .alpha => "Alpha"
  | .transform => "Transform"

/-- Depth and colour commute with everything and come last. -/
def rank : TermKind → Nat
  | .translate | .x | .y => 0
  | .rotate => 1
  | .size => 2
  | .skew => 3
  | .flip => 4
  | .transform => 5
  | .z | .hue | .sat | .bright | .alpha => 6

def ranks : List Nat := [0, 1, 2, 3, 4, 5, 6]

theorem rank_mem_ranks (k : TermKind) : k.rank ∈ ranks := by
  cases k <;> decide

end TermKind

structure Term (α : Type) where
  kind : TermKind
  args : List (Expr α)
  span : Span

structure Bundle (α : Type) where
  terms : List (Term α)
  ordered : Bool

namespace Bundle

variable {α : Type}

def empty : Bundle α := ⟨[], false⟩

def isEmpty (b : Bundle α) : Bool := b.terms.isEmpty

def byRank (terms : List (Term α)) : List (Term α) :=
  TermKind.ranks.flatMap fun r => terms.filter fun t => t.kind.rank == r

def sequence (b : Bundle α) : List (Term α) := if b.ordered then b.terms else byRank b.terms

def isConstantIn (known : String → Bool) (b : Bundle α) : Bool :=
  b.terms.all fun t => t.args.all (Expr.isConstantIn known)

def names (b : Bundle α) : List Expr.Occurrence :=
  b.terms.flatMap fun t => t.args.flatMap Expr.names

end Bundle

end ShapeGrammar
