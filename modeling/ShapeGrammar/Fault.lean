import ShapeGrammar.Bundle
import ShapeGrammar.Value
import ShapeGrammar.Path.Operator

/-!
# What can go wrong

Causes are data and the wording is one function per family. An evaluation
fault belongs to an expression. A diagnostic finds fault with the grammar
itself. A broken invariant is neither, and ends the run, as does a renderer
that has seen enough.
-/

set_option autoImplicit false

namespace ShapeGrammar

inductive Expected where
  | one
  | two
  | atLeastOne
  | upToTwo
  deriving DecidableEq, Repr

def Expected.text : Expected → String
  | .one => "1 argument"
  | .two => "2 arguments"
  | .atLeastOne => "at least 1 argument"
  | .upToTwo => "0 to 2 arguments"

inductive EvalCause where
  | undefinedName (name : String)
  | notConstant (name : String)
  | tupleElement (found : Found)
  | notFlag (found : Found)
  | notNumber (found : Found)
  | notAdjustment (found : Found)
  | unaryOperand (op : UnaryOp) (found : Found)
  | binaryOperands (op : BinaryOp) (left right : Found)
  | divisionByZero
  | negativeRoot
  | nonPositiveLog
  | builtinCount (name : String) (expected : Expected) (given : Nat)
  | randomInConstant (name : String)
  | unknownFunction (name : String)
  | spliceCount
  | termValues (kind : TermKind)
  | needsArguments (name : String)
  | callCount (name : String) (expected given : Nat)
  | declaredKind (what : String) (kind : Kind) (width : Nat) (found : Found)
  | selector (found : Found)
  deriving DecidableEq, Repr

def declaredText (kind : Kind) (width : Nat) : String :=
  if kind = .number ∧ 1 < width then s!"number[{width}]" else kind.name

def EvalCause.message : EvalCause → String
  | .undefinedName name => s!"undefined name '{name}'"
  | .notConstant name => s!"'{name}' is not a constant"
  | .tupleElement found => s!"tuple element must be numeric, found {found.name}"
  | .notFlag found => s!"expected a flag, found {found.name}"
  | .notNumber found => s!"expected a number, found {found.name}"
  | .notAdjustment found => s!"expected an adjustment, found {found.name}"
  | .unaryOperand op found => s!"cannot apply {op.name} to {found.name}"
  | .binaryOperands op left right =>
    s!"cannot apply '{op.symbol}' to {left.name} and {right.name}"
  | .divisionByZero => "division by zero"
  | .negativeRoot => "sqrt of a negative number"
  | .nonPositiveLog => "log of a non-positive number"
  | .builtinCount name expected given => s!"{name}() takes {expected.text}, found {given}"
  | .randomInConstant name => s!"{name}() is not allowed in a constant"
  | .unknownFunction name => s!"unknown function '{name}'"
  | .spliceCount => "transform takes one adjustment"
  | .termValues kind => s!"wrong number of values for {kind.name}"
  | .needsArguments name => s!"'{name}' is a function and needs arguments"
  | .callCount name expected given => s!"'{name}' takes {expected} arguments, given {given}"
  | .declaredKind what kind width found =>
    s!"'{what}' expects {declaredText kind width}, found {found.name}"
  | .selector found => s!"switch needs a finite number, found {found.name}"

structure EvalFault where
  span : Span
  cause : EvalCause
  deriving DecidableEq, Repr

def EvalFault.text (e : EvalFault) : String :=
  s!"[runtime] {e.span.line}:{e.span.column}: {e.cause.message}"

/-- The classes of diagnostics; only the last is a warning. -/
inductive Code where
  | loopRange
  | duplicateCase
  | argumentCount
  | unresolvedShape
  | percentTotal
  | replacementInPath
  | operatorOutsidePath
  | noRules
  | pathArguments
  | duplicateName
  | duplicateShape
  | undefinedName
  | weightReplaced
  deriving DecidableEq, Repr

def Code.text : Code → String
  | .loopRange => "G001"
  | .duplicateCase => "G002"
  | .argumentCount => "G003"
  | .unresolvedShape => "G004"
  | .percentTotal => "G005"
  | .replacementInPath => "G006"
  | .operatorOutsidePath => "G007"
  | .noRules => "G008"
  | .pathArguments => "G009"
  | .duplicateName => "G010"
  | .duplicateShape => "G011"
  | .undefinedName => "G012"
  | .weightReplaced => "W001"

def Code.isError (c : Code) : Bool := c != .weightReplaced

inductive Problem where
  | rangeNotNumeric (found : Found)
  | rangeWidth (given : Nat)
  | rangeNotFinite
  | rangeStep (shown : String)
  | rangeFault (fault : EvalFault)
  | caseTaken (key : Int)
  | shapeArguments (shape : String) (expected given : Nat)
  | startArguments (shape : String) (expected : Nat)
  | noSuchShape (index : Nat)
  | unknownStart (name : String)
  | percentOver (shape : String) (shown : String)
  | pathReplaces (shape : String)
  | pathOutside (shape : String)
  | shapeWithoutRules (shape : String)
  | argNotTaken (op : Path.Operator) (arg : Path.ArgName)
  | argTwice (arg : Path.ArgName)
  | argNotSingle (arg : Path.ArgName)
  | operatorFlags (op : Path.Operator)
  | arcRadii (op : Path.Operator)
  | firstControl (op : Path.Operator)
  | secondControl (op : Path.Operator)
  | argFault (fault : EvalFault)
  | argNotNumber (arg : Path.ArgName) (found : Found)
  | commandFlags
  | fillStroked
  | paramTwice (name : String)
  | nameTaken (name : String)
  | shapeTwice (name : String)
  | nameUndefined (name : String)
  | weightNotPositive (shape : String)
  deriving DecidableEq, Repr

namespace Problem

def code : Problem → Code
  | .rangeNotNumeric _ | .rangeWidth _ | .rangeNotFinite | .rangeStep _ | .rangeFault _ =>
    .loopRange
  | .caseTaken _ => .duplicateCase
  | .shapeArguments _ _ _ | .startArguments _ _ => .argumentCount
  | .noSuchShape _ | .unknownStart _ => .unresolvedShape
  | .percentOver _ _ => .percentTotal
  | .pathReplaces _ => .replacementInPath
  | .pathOutside _ => .operatorOutsidePath
  | .shapeWithoutRules _ => .noRules
  | .argNotTaken _ _ | .argTwice _ | .argNotSingle _ | .operatorFlags _ | .arcRadii _
  | .firstControl _ | .secondControl _ | .argFault _ | .argNotNumber _ _ | .commandFlags
  | .fillStroked => .pathArguments
  | .paramTwice _ | .nameTaken _ => .duplicateName
  | .shapeTwice _ => .duplicateShape
  | .nameUndefined _ => .undefinedName
  | .weightNotPositive _ => .weightReplaced

def message : Problem → String
  | .rangeNotNumeric found => s!"loop range must be numeric, found {found.name}"
  | .rangeWidth given => s!"loop range takes 1 to 3 values, found {given}"
  | .rangeNotFinite => "loop range is not finite"
  | .rangeStep shown => s!"loop step must be positive, found {shown}"
  | .rangeFault fault => fault.text
  | .caseTaken key => s!"duplicate case value {key}"
  | .shapeArguments shape expected given =>
    s!"'{shape}' takes {expected} arguments, given {given}"
  | .startArguments shape expected => s!"start shape '{shape}' takes {expected} arguments"
  | .noSuchShape index => s!"no shape with index {index}"
  | .unknownStart name => s!"unknown start shape '{name}'"
  | .percentOver shape shown => s!"percentage weights of '{shape}' add up to {shown}%"
  | .pathReplaces shape => s!"path '{shape}' cannot replace shapes"
  | .pathOutside shape => s!"path operations used outside a path in '{shape}'"
  | .shapeWithoutRules shape => s!"shape '{shape}' has no rules"
  | .argNotTaken op arg => s!"{op.name} does not take '{arg.name}'"
  | .argTwice arg => s!"'{arg.name}' given twice"
  | .argNotSingle arg => s!"'{arg.name}' must be a single number"
  | .operatorFlags op => s!"invalid flags for {op.name}"
  | .arcRadii op => s!"{op.name} needs either r or both rx and ry"
  | .firstControl op => s!"{op.name} needs x1 and y1"
  | .secondControl op => s!"{op.name} needs both x2 and y2"
  | .argFault fault => fault.text
  | .argNotNumber arg found => s!"'{arg.name}' must be a number, found {found.name}"
  | .commandFlags => "invalid flags for path command"
  | .fillStroked => "FILL takes no stroke width or miter limit"
  | .paramTwice name => s!"parameter '{name}' declared twice"
  | .nameTaken name => s!"'{name}' is already defined in this scope"
  | .shapeTwice name => s!"shape '{name}' declared twice"
  | .nameUndefined name => s!"'{name}' is not defined"
  | .weightNotPositive shape => s!"non-positive weight on a rule of '{shape}' treated as 1"

end Problem

structure Diagnostic where
  span : Span
  problem : Problem
  deriving DecidableEq, Repr

namespace Diagnostic

def code (d : Diagnostic) : Code := d.problem.code

def text (d : Diagnostic) : String :=
  s!"[{d.code.text}] {d.span.line}:{d.span.column}: {d.problem.message}"

end Diagnostic

inductive Broken where
  | stackBelowMark (slots frames savedSlots savedFrames : Nat)
  | globalFrame
  | noShape
  | missingShape (index : Nat)
  | noRuleSelected (shape : String)
  | paramCount (declared supplied : Nat)
  | slotCount (pushed declared : Nat)
  | nestedPath
  | pathLost
  | foreignFrame
  | outsidePath (what : String)
  | noIdentity
  | operatorAfterEnd
  | commandAfterEnd
  deriving DecidableEq, Repr

def Broken.message : Broken → String
  | .stackBelowMark slots frames savedSlots savedFrames =>
    s!"parameter stack at {slots} slots / {frames} frames, " ++
      s!"below saved {savedSlots} / {savedFrames}"
  | .globalFrame => "global frame size does not match its declarations"
  | .noShape => "expanding an instance with no shape"
  | .missingShape index => s!"instance refers to missing shape {index}"
  | .noRuleSelected shape => s!"no rule of '{shape}' selected"
  | .paramCount declared supplied =>
    s!"body declares {declared} parameters, {supplied} supplied"
  | .slotCount pushed declared => s!"body pushed {pushed} slots, declared {declared}"
  | .nestedPath => "path build started while another is open"
  | .pathLost => "open path lost during build"
  | .foreignFrame => "compiled path frame does not belong to this session"
  | .outsidePath what => s!"{what} outside a path build"
  | .noIdentity => "compiled path has no identity"
  | .operatorAfterEnd => "path operator appended to a complete path"
  | .commandAfterEnd => "path command appended to a complete path"

inductive Fault where
  /-- An error in the grammar that only its use shows. -/
  | grammar (diagnostic : Diagnostic)
  | eval (fault : EvalFault)
  | broken (what : Broken)
  | aborted
  deriving DecidableEq, Repr

namespace Fault

def text : Fault → String
  | .grammar d => d.text
  | .eval e => e.text
  | .broken what => s!"[internal] {what.message}"
  | .aborted => "render aborted by renderer"

/-- A fatal fault ends the render; any other belongs to one shape instance. -/
def isFatal : Fault → Bool
  | .broken _ => true
  | .aborted => true
  | _ => false

def line? : Fault → Option Nat
  | .grammar d => some d.span.line
  | .eval e => some e.span.line
  | _ => none

end Fault

end ShapeGrammar
