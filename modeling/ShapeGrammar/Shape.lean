import ShapeGrammar.Statement

/-!
# Shapes, rules and weights

A shape is a list of weighted alternatives. At load, a weight that is not a
positive finite number becomes one, and rules that give no percentage share
what the percentages leave. The draw that selects a rule is compared with the
running sums of the weights.
-/

set_option autoImplicit false

namespace ShapeGrammar

inductive Weight (α : Type) where
  | unstated
  | explicit (w : α)
  /-- Out of a hundred. -/
  | percent (p : α)

inductive WeightKind where
  | unstated
  | percent
  | explicit
  deriving DecidableEq, Repr

structure Rule (α : Type) where
  shape : Nat
  weight : α
  weightKind : WeightKind
  body : Body α
  span : Span
  /-- Where the compiled path is kept, for a path rule whose geometry cannot
  vary between expansions. -/
  cell : Option Address

structure Shape (α : Type) where
  name : String
  index : Nat
  isPath : Bool
  params : List Param
  rules : List (Rule α)
  /-- Running sums of the weights, in the order of the rules. -/
  cumulative : List α

variable {α : Type} [Scalar α]

namespace Rule

def isStatic (r : Rule α) : Bool := r.cell.isSome

def make (shape : Nat) (w : Weight α) (body : Body α) (span : Span) : Rule α :=
  let rule (weight : α) (kind : WeightKind) : Rule α := ⟨shape, weight, kind, body, span, none⟩
  match w with
  | .unstated => rule 1 .unstated
  | .explicit x => rule x .explicit
  | .percent p => rule (p / ((100 : Nat) : α)) .percent

def hasWeight (r : Rule α) : Bool := decide (0 < r.weight) && Scalar.isFinite r.weight

def repaired (r : Rule α) : Rule α :=
  if r.hasWeight then r else { r with weight := 1, weightKind := .unstated }

def isPercent (r : Rule α) : Bool := r.weightKind == .percent

def scaled (share : α) (r : Rule α) : Rule α :=
  if r.isPercent then r else { r with weight := r.weight * share }

def totalOf (rules : List (Rule α)) : α := rules.foldl (fun sum r => sum + r.weight) 0

def percentTotal (rules : List (Rule α)) : α := totalOf (rules.filter isPercent)

def otherTotal (rules : List (Rule α)) : α := totalOf (rules.filter fun r => !r.isPercent)

def shared (rules : List (Rule α)) : List (Rule α) :=
  let percent := percentTotal rules
  let others := otherTotal rules
  if 0 < percent ∧ 0 < others then
    rules.map (scaled (Scalar.larger (1 - percent) 0 / others))
  else rules

def normalized (rules : List (Rule α)) : List (Rule α) := shared (rules.map repaired)

def runningSums (sum : α) : List (Rule α) → List α
  | [] => []
  | r :: rest => (sum + r.weight) :: runningSums (sum + r.weight) rest

end Rule

namespace Shape

def declare (name : String) (index : Nat) (isPath : Bool) (params : List Param) : Shape α :=
  ⟨name, index, isPath, params, [], []⟩

def totalWeight (s : Shape α) : α := s.cumulative.getLast?.getD 0

/-- The first rule whose running sum exceeds the draw, and the last rule when
none does. -/
def pick (s : Shape α) (draw : α) : Option Nat :=
  if s.rules.isEmpty then none
  else some ((s.cumulative.findIdx? fun sum => draw < sum).getD (s.rules.length - 1))

def weighted (s : Shape α) : Shape α :=
  let rules := Rule.normalized s.rules
  { s with rules := rules, cumulative := Rule.runningSums 0 rules }

/-- Percentages may exceed a hundred by a rounding error only. -/
def percentExceeds (s : Shape α) : Option α :=
  let percent := Rule.percentTotal (s.rules.map Rule.repaired)
  if 1 + 1e-9 < percent then some percent else none

def weightProblems (s : Shape α) : List Diagnostic :=
  let replaced := s.rules.filter fun r => !r.hasWeight
  let warnings := replaced.map fun r => ⟨r.span, .weightNotPositive s.name⟩
  match s.percentExceeds with
  | none => warnings
  | some percent =>
    let span := (s.rules.head?.map Rule.span).getD .none
    let shown := Scalar.textOnePlace (percent * ((100 : Nat) : α))
    warnings ++ [⟨span, .percentOver s.name shown⟩]

end Shape

end ShapeGrammar
