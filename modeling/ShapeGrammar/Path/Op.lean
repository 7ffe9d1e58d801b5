import ShapeGrammar.Eval

/-!
# Path statements

An operator with its argument expressions, and a command with its optional
width and miter limit. Both are checked when they are made. Arguments that are
all constant are evaluated then, once and for all.
-/

set_option autoImplicit false

namespace ShapeGrammar.Path

structure Op (α : Type) where
  operator : Operator
  args : List (ArgName × Expr α)
  flags : Flags
  isCubic : Bool
  /-- The arguments as numbers, when no evaluation can change them. -/
  constant : Option (Args α)

namespace Op

variable {α : Type}

def given (args : List (ArgName × Expr α)) (name : ArgName) : Bool :=
  args.any fun arg => arg.1 == name

def checkArgs (op : Operator) (seen : List ArgName) :
    List (ArgName × Expr α) → Except Problem Unit
  | [] => .ok ()
  | (name, e) :: rest =>
    if !op.accepts name then .error (.argNotTaken op name)
    else if seen.contains name then .error (.argTwice name)
    else if e.staticWidth.any (· != 1) then .error (.argNotSingle name)
    else checkArgs op (name :: seen) rest

/-- An arc has one radius or both of an ellipse, never a mixture. A curve has
its first control point, and both coordinates of a second one or neither. -/
def checkShape (op : Operator) (args : List (ArgName × Expr α)) : Except Problem Unit :=
  match op with
  | .arcTo | .arcRel =>
    let circular := given args .r
    let elliptic := given args .rx || given args .ry
    if circular == elliptic || (elliptic && !(given args .rx && given args .ry)) then
      .error (.arcRadii op)
    else .ok ()
  | .curveTo | .curveRel =>
    if !(given args .x1 && given args .y1) then .error (.firstControl op)
    else if given args .x2 != given args .y2 then .error (.secondControl op)
    else .ok ()
  | _ => .ok ()

def cubic (op : Operator) (args : List (ArgName × Expr α)) : Bool :=
  match op with
  | .curveTo | .curveRel => given args .x2 || given args .y2
  | _ => false

variable [Scalar α]

def foldArgs (resolved : Args α) : List (ArgName × Expr α) → Except Problem (Args α)
  | [] => .ok resolved
  | (name, e) :: rest =>
    match e.constantValue with
    | .error fault => .error (.argFault fault)
    | .ok (.number v) => foldArgs (resolved.set name v) rest
    | .ok v => .error (.argNotNumber name v.found)

def constantArgs (args : List (ArgName × Expr α)) : Except Problem (Option (Args α)) :=
  if args.all fun arg => arg.2.isConstant then (foldArgs .zero args).map some else .ok none

def make (op : Operator) (args : List (ArgName × Expr α)) (flags : Flags) :
    Except Problem (Op α) := do
  checkArgs op [] args
  if !flags.within op.acceptedFlags then throw (.operatorFlags op)
  checkShape op args
  let constant ← constantArgs args
  return ⟨op, args, flags, cubic op args, constant⟩

def isConstantIn (known : String → Bool) (o : Op α) : Bool :=
  o.args.all fun arg => arg.2.isConstantIn known

def names (o : Op α) : List Expr.Occurrence := o.args.flatMap fun arg => arg.2.names

end Op

structure CommandSpec (α : Type) where
  kind : CommandKind
  flags : Flags
  width : Option (Expr α)
  miter : Option (Expr α)

namespace CommandSpec

variable {α : Type}

def allowedFlags : CommandKind → Flags
  | .fill => .ofList [.evenOdd]
  | .stroke => .stroke

def make (kind : CommandKind) (flags : Flags) (width miter : Option (Expr α)) :
    Except Problem (CommandSpec α) :=
  if !flags.within (allowedFlags kind) then .error .commandFlags
  else if kind == .fill && (width.isSome || miter.isSome) then .error .fillStroked
  else .ok ⟨kind, flags, width, miter⟩

def exprs (c : CommandSpec α) : List (Expr α) := c.width.toList ++ c.miter.toList

def isConstantIn (known : String → Bool) (c : CommandSpec α) : Bool :=
  c.exprs.all (Expr.isConstantIn known)

def names (c : CommandSpec α) : List Expr.Occurrence := c.exprs.flatMap Expr.names

end CommandSpec

end ShapeGrammar.Path
