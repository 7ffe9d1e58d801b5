import ShapeGrammar.LoopRange
import ShapeGrammar.Path.Op
import ShapeGrammar.Switch

/-!
# Statements and bodies

A rule's body is a list of statements with the parameters bound on entry. A
body counts the slots that one entry pushes: its parameters and its direct
defines. Each statement says what it yields when expanded, which is all the
load-time checks need to keep paths and shapes apart.
-/

set_option autoImplicit false

namespace ShapeGrammar

inductive Primitive where
  | circle
  | square
  | triangle
  deriving DecidableEq, Repr

inductive Target where
  | none
  | primitive (p : Primitive)
  | shape (index : Nat)
  deriving DecidableEq, Repr

structure Head (α : Type) where
  target : Target
  args : List (Expr α)
  mods : Bundle α
  span : Span

inductive Symmetry (α : Type) where
  | mods (bundle : Bundle α)
  /-- Rotations by multiples of a full turn over `order`. -/
  | cyclic (order : Nat)
  /-- The rotations, followed by as many reflections. -/
  | dihedral (order : Nat)

structure LoopSpec (α : Type) where
  var : Param
  range : Expr α
  /-- The range itself, when no evaluation can change it. -/
  constant : Option (LoopRange α)
  opsOnly : Bool

structure TransformSpec (α : Type) where
  generators : List (Symmetry α)
  /-- Replicas start from the parent, with the random state restored. -/
  clone : Bool
  opsOnly : Bool

inductive DefineBody (α : Type) where
  | expr (e : Expr α)
  | mods (b : Bundle α)

/-- The place of a statement or a rule in its grammar, as indices from the
outside in. -/
abbrev Address := List Nat

structure Define (α : Type) where
  name : String
  body : DefineBody α
  kind : Kind
  width : Nat
  params : List Param
  isFunction : Bool
  /-- Where the value is kept once it is known, for a define that the load-time
  analysis found constant. -/
  cell : Option Address

namespace Define

variable {α : Type}

def isConstant (d : Define α) : Bool := d.cell.isSome

def isConstantIn (known : String → Bool) (d : Define α) : Bool :=
  match d.body with
  | .expr e => e.isConstantIn known
  | .mods b => b.isConstantIn known

def names (d : Define α) : List Expr.Occurrence :=
  match d.body with
  | .expr e => e.names
  | .mods b => b.names

end Define

mutual

structure Body (α : Type) where
  statements : List (Statement α)
  params : List Param
  /-- Slots pushed by one entry, as counted when the body was made. -/
  slots : Nat

inductive Statement (α : Type) where
  | replace (head : Head α)
  /-- `last` runs once after the iterations. -/
  | loop (head : Head α) (spec : LoopSpec α) (body last : Body α)
  | transform (head : Head α) (spec : TransformSpec α) (body : Body α)
  | branch (head : Head α) (cond : Expr α) (thenBody elseBody : Body α)
  | switch (head : Head α) (selector : Expr α) (keys : List (Int × Nat))
      (bodies : List (Body α)) (default : Body α)
  | define (head : Head α) (d : Define α)
  | op (head : Head α) (o : Path.Op α)
  | command (head : Head α) (c : Path.CommandSpec α)

end

structure Yield where
  operator : Bool
  command : Bool
  replacement : Bool
  deriving DecidableEq, Repr

namespace Yield

def nothing : Yield := ⟨false, false, false⟩

def join (a b : Yield) : Yield :=
  ⟨a.operator || b.operator, a.command || b.command, a.replacement || b.replacement⟩

end Yield

variable {α : Type}

namespace Statement

def head : Statement α → Head α
  | .replace h => h
  | .loop h _ _ _ => h
  | .transform h _ _ => h
  | .branch h _ _ _ => h
  | .switch h _ _ _ _ => h
  | .define h _ => h
  | .op h _ => h
  | .command h _ => h

def isDefine : Statement α → Bool
  | .define _ _ => true
  | _ => false

def children : Statement α → List (Body α)
  | .loop _ _ body last => [body, last]
  | .transform _ _ body => [body]
  | .branch _ _ thenBody elseBody => [thenBody, elseBody]
  | .switch _ _ _ bodies default => bodies ++ [default]
  | _ => []

end Statement

mutual

def Body.yield : Body α → Yield
  | ⟨statements, _, _⟩ => Statement.yieldAll statements

def Statement.yield : Statement α → Yield
  | .replace h => if h.target = .none then .nothing else ⟨false, false, true⟩
  | .loop _ _ body last => body.yield.join last.yield
  | .transform _ _ body => body.yield
  | .branch _ _ thenBody elseBody => thenBody.yield.join elseBody.yield
  | .switch _ _ _ bodies default => (Body.yieldAll bodies).join default.yield
  | .define _ _ => .nothing
  | .op _ _ => ⟨true, false, false⟩
  | .command _ _ => ⟨false, true, false⟩

def Statement.yieldAll : List (Statement α) → Yield
  | [] => .nothing
  | st :: rest => st.yield.join (Statement.yieldAll rest)

def Body.yieldAll : List (Body α) → Yield
  | [] => .nothing
  | b :: rest => b.yield.join (Body.yieldAll rest)

end

namespace Body

def countSlots (params : List Param) (statements : List (Statement α)) : Nat :=
  params.length + statements.countP Statement.isDefine

def make (params : List Param) (statements : List (Statement α)) : Body α :=
  ⟨statements, params, countSlots params statements⟩

def ofStatements (statements : List (Statement α)) : Body α := make [] statements

def empty : Body α := ofStatements []

def isEmpty (b : Body α) : Bool := b.statements.isEmpty

/-- The same statements under other parameters, counted anew. -/
def bind (b : Body α) (params : List Param) : Body α := make params b.statements

def push (b : Body α) (st : Statement α) : Body α := make b.params (b.statements ++ [st])

/-- Statements appended without counting them. -/
def extend (b : Body α) (late : List (Statement α)) : Body α :=
  { b with statements := b.statements ++ late }

def opsOnly (b : Body α) : Bool := !b.yield.replacement

end Body

variable [Scalar α]

def LoopSpec.constantRange (range : Expr α) : Except Problem (Option (LoopRange α)) :=
  if range.isConstant then
    match range.constantValue with
    | .error fault => .error (.rangeFault fault)
    | .ok v => (LoopRange.ofValue v).map some
  else .ok none

namespace Statement

def makeLoop (h : Head α) (var : Param) (range : Expr α) (body last : Body α) :
    Except Diagnostic (Statement α) :=
  match LoopSpec.constantRange range with
  | .error problem => .error ⟨range.span, problem⟩
  | .ok constant =>
    let body := body.bind [var]
    let last := last.bind [var]
    .ok (.loop h ⟨var, range, constant, body.opsOnly && last.opsOnly⟩ body last)

def makeTransform (h : Head α) (generators : List (Symmetry α)) (clone : Bool)
    (body : Body α) : Statement α :=
  .transform h ⟨generators, clone, body.opsOnly⟩ body

def makeSwitch (h : Head α) (selector : Expr α) (s : Switch (Body α)) : Statement α :=
  .switch h selector s.keys s.bodies s.default

end Statement

end ShapeGrammar
