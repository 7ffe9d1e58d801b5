import ShapeGrammar.Attempt
import ShapeGrammar.Fault

/-!
# Evaluation

Evaluation is written once against an environment, which supplies the names,
the user functions and the random draws. A running session supplies all of
them. Folding at load time supplies none, so that whatever it can evaluate is
the same in every environment.

Effects run from left to right and the state survives a failure.
-/

set_option autoImplicit false

namespace ShapeGrammar

variable {ε ω α : Type}

structure Env (ε ω α : Type) where
  lookup : String → Span → Attempt ε ω (Value α)
  /-- Calls a user function; `none` when the name is none in scope. -/
  call : String → List (Value α) → Span → Attempt ε ω (Option (Value α))
  /-- The next number in `[0, 1)`, when there is a random source. -/
  draw : ω → Option (α × ω)
  raise : EvalFault → ε

namespace Env

def fail {β : Type} (env : Env ε ω α) (span : Span) (cause : EvalCause) : Attempt ε ω β :=
  Attempt.fail (env.raise ⟨span, cause⟩)

def settle {β : Type} (env : Env ε ω α) (span : Span) : Except EvalCause β → Attempt ε ω β
  | .ok b => pure b
  | .error cause => env.fail span cause

end Env

variable [Scalar α]

def Value.truth : Value α → Except EvalCause Bool
  | .flag b => .ok b
  | .number x => .ok (x != 0)
  | v => .error (.notFlag v.found)

def Value.number? : Value α → Except EvalCause α
  | .number x => .ok x
  | v => .error (.notNumber v.found)

def Value.numbersOr (cause : Found → EvalCause) (v : Value α) : Except EvalCause (List α) :=
  match v.numbers? with
  | some xs => .ok xs
  | none => .error (cause v.found)

def UnaryOp.apply : UnaryOp → Value α → Except EvalCause (Value α)
  | .neg, .number x => .ok (.number (-x))
  | .neg, .tuple xs => .ok (.tuple (xs.map fun x => -x))
  | .not, .flag b => .ok (.flag !b)
  | .not, .number x => .ok (.flag !(x != 0))
  | op, v => .error (.unaryOperand op v.found)

namespace BinaryOp

def onNumbers (op : BinaryOp) (a b : α) : Except EvalCause (Value α) :=
  match op with
  | .add => .ok (.number (a + b))
  | .sub => .ok (.number (a - b))
  | .mul => .ok (.number (a * b))
  | .div => if b == 0 then .error .divisionByZero else .ok (.number (a / b))
  | .mod => if b == 0 then .error .divisionByZero else .ok (.number (Scalar.remainder a b))
  | .pow => .ok (.number (Scalar.pow a b))
  | .lt => .ok (.flag (decide (a < b)))
  | .le => .ok (.flag (decide (a ≤ b)))
  | .gt => .ok (.flag (decide (b < a)))
  | .ge => .ok (.flag (decide (b ≤ a)))
  | .eq | .ne | .and | .or => .error (.binaryOperands op .number .number)

def onRows (op : BinaryOp) (l r : Value α) : Except EvalCause (Value α) :=
  let mismatch := .error (.binaryOperands op l.found r.found)
  match op, l, r with
  | .add, .tuple xs, .tuple ys =>
    if xs.length = ys.length then .ok (.tuple (List.zipWith (· + ·) xs ys)) else mismatch
  | .sub, .tuple xs, .tuple ys =>
    if xs.length = ys.length then .ok (.tuple (List.zipWith (· - ·) xs ys)) else mismatch
  | .mul, .number k, .tuple xs => .ok (.tuple (xs.map fun x => x * k))
  | .mul, .tuple xs, .number k => .ok (.tuple (xs.map fun x => x * k))
  | .div, .tuple xs, .number k =>
    if k == 0 then .error .divisionByZero else .ok (.tuple (xs.map fun x => x / k))
  | _, _, _ => mismatch

def apply (op : BinaryOp) (l r : Value α) : Except EvalCause (Value α) :=
  match op with
  | .eq => .ok (.flag (l.same r))
  | .ne => .ok (.flag !(l.same r))
  | _ =>
    match l, r with
    | .number a, .number b => op.onNumbers a b
    | _, _ => op.onRows l r

end BinaryOp

namespace Builtin

/-- What a call comes to before any draw: a number, or a draw between two
bounds that may be rounded down to a whole number. -/
inductive Result (α : Type) where
  | value (x : α)
  | drawn (lo hi : α) (whole : Bool)

def unaryCall (name : String) (xs : List α) (f : α → Except EvalCause α) :
    Except EvalCause (Result α) :=
  match xs with
  | [x] => (f x).map .value
  | _ => .error (.builtinCount name .one xs.length)

/-- Angles are in degrees. -/
def run (f : Builtin) (name : String) (xs : List α) : Except EvalCause (Result α) :=
  match f with
  | .sin => unaryCall name xs fun x => .ok (Scalar.sin (Scalar.radians x))
  | .cos => unaryCall name xs fun x => .ok (Scalar.cos (Scalar.radians x))
  | .tan => unaryCall name xs fun x => .ok (Scalar.tan (Scalar.radians x))
  | .atan => unaryCall name xs fun x => .ok (Scalar.degrees (Scalar.atan x))
  | .atan2 =>
    match xs with
    | [y, x] => .ok (.value (Scalar.degrees (Scalar.atan2 y x)))
    | _ => .error (.builtinCount name .two xs.length)
  | .sqrt => unaryCall name xs fun x =>
    if x < 0 then .error .negativeRoot else .ok (Scalar.sqrt x)
  | .abs => unaryCall name xs fun x => .ok (Scalar.abs x)
  | .floor => unaryCall name xs fun x => .ok (Scalar.floor x)
  | .ceil => unaryCall name xs fun x => .ok (Scalar.ceil x)
  | .exp => unaryCall name xs fun x => .ok (Scalar.exp x)
  | .log => unaryCall name xs fun x =>
    if x ≤ 0 then .error .nonPositiveLog else .ok (Scalar.log x)
  | .min =>
    match xs with
    | [] => .error (.builtinCount name .atLeastOne 0)
    | x :: rest => .ok (.value (rest.foldl Scalar.smaller x))
  | .max =>
    match xs with
    | [] => .error (.builtinCount name .atLeastOne 0)
    | x :: rest => .ok (.value (rest.foldl Scalar.larger x))
  | .rand =>
    match xs with
    | [] => .ok (.drawn 0 1 false)
    | [b] => .ok (.drawn 0 b false)
    | [a, b] => .ok (.drawn a b false)
    | _ => .error (.builtinCount name .upToTwo xs.length)
  | .randint =>
    match xs with
    | [a, b] => .ok (.drawn a b true)
    | _ => .error (.builtinCount name .two xs.length)

end Builtin

namespace Env

def finish (env : Env ε ω α) (name : String) (span : Span) :
    Builtin.Result α → Attempt ε ω (Value α)
  | .value x => pure (.number x)
  | .drawn lo hi whole => ⟨fun s =>
    match env.draw s with
    | none => .failed (env.raise ⟨span, .randomInConstant name⟩) s
    | some (u, s') =>
      let x := lo + u * (hi - lo)
      .ok (.number (if whole then Scalar.floor x else x)) s'⟩

/-- Arguments must be numbers before the name is even looked at. -/
def builtin (env : Env ε ω α) (name : String) (args : List (Value α)) (span : Span) :
    Attempt ε ω (Value α) := do
  let xs ← env.settle span (args.mapM Value.number?)
  match Builtin.ofName? name with
  | none => env.fail span (.unknownFunction name)
  | some f => env.finish name span (← env.settle span (f.run name xs))

mutual

def eval (env : Env ε ω α) : Expr α → Attempt ε ω (Value α)
  | .number x _ => pure (.number x)
  | .flag b _ => pure (.flag b)
  | .var name span => env.lookup name span
  | .tuple items span => do return .ofNumbers (← env.evalNumbers .tupleElement span items)
  | .unary op operand span => do env.settle span (op.apply (← env.eval operand))
  | .binary left op right span => do
    let l ← env.eval left
    match op with
    | .and =>
      if ← env.settle span l.truth then
        return .flag (← env.settle span (← env.eval right).truth)
      else return .flag false
    | .or =>
      if ← env.settle span l.truth then return .flag true
      else return .flag (← env.settle span (← env.eval right).truth)
    | _ => env.settle span (op.apply l (← env.eval right))
  | .call callee args span => do
    let values ← env.evalAll args
    match ← env.call callee values span with
    | some v => return v
    | none => env.builtin callee values span

def evalNumbers (env : Env ε ω α) (cause : Found → EvalCause) (span : Span) :
    List (Expr α) → Attempt ε ω (List α)
  | [] => pure []
  | e :: rest => do
    let xs ← env.settle span ((← env.eval e).numbersOr cause)
    return xs ++ (← env.evalNumbers cause span rest)

def evalAll (env : Env ε ω α) : List (Expr α) → Attempt ε ω (List (Value α))
  | [] => pure []
  | e :: rest => do
    let v ← env.eval e
    return v :: (← env.evalAll rest)

end

def evalNumber (env : Env ε ω α) (e : Expr α) : Attempt ε ω α := do
  env.settle e.span (← env.eval e).number?

end Env

def TermKind.adjustment (kind : TermKind) (xs : List α) : Except EvalCause (Adjustment α) :=
  match kind, xs with
  | .translate, [a] => .ok (.ofTransform (.translate a 0))
  | .translate, [a, b] => .ok (.ofTransform (.translate a b))
  | .x, [a] => .ok (.ofTransform (.translate a 0))
  | .y, [a] => .ok (.ofTransform (.translate 0 a))
  | .z, [a] => .ok { Adjustment.identity with z := a }
  | .rotate, [a] => .ok (.ofTransform (.rotate a))
  | .size, [a] => .ok (.ofTransform (.scale a a))
  | .size, [a, b] => .ok (.ofTransform (.scale a b))
  | .skew, [a, b] => .ok (.ofTransform (.skew a b))
  | .flip, [a] => .ok (.ofTransform (.reflect a))
  | .hue, [a] => .ok { Adjustment.identity with hue := a }
  | .sat, [a] => .ok { Adjustment.identity with saturation := a }
  | .bright, [a] => .ok { Adjustment.identity with brightness := a }
  | .alpha, [a] => .ok { Adjustment.identity with alpha := a }
  | _, _ => .error (.termValues kind)

namespace Env

def evalSplice (env : Env ε ω α) (span : Span) : List (Expr α) → Attempt ε ω (Adjustment α)
  | [e] => do
    match ← env.eval e with
    | .adjustment m => return m
    | v => env.fail span (.notAdjustment v.found)
  | _ => env.fail span .spliceCount

def evalTerm (env : Env ε ω α) (t : Term α) : Attempt ε ω (Adjustment α) :=
  if t.kind = .transform then env.evalSplice t.span t.args
  else do
    let xs ← env.evalNumbers .notNumber t.span t.args
    env.settle t.span (t.kind.adjustment xs)

def evalTerms (env : Env ε ω α) : List (Term α) → Adjustment α → Attempt ε ω (Adjustment α)
  | [], m => pure m
  | t :: rest, m => do env.evalTerms rest (m.andThen (← env.evalTerm t))

def evalBundle (env : Env ε ω α) (b : Bundle α) : Attempt ε ω (Adjustment α) :=
  env.evalTerms b.sequence .identity

def constant : Env EvalFault Unit α where
  lookup name span := Attempt.fail ⟨span, .notConstant name⟩
  call _ _ _ := pure none
  draw _ := none
  raise := id

end Env

def Expr.constantValue (e : Expr α) : Except EvalFault (Value α) :=
  match (Env.constant.eval e).run () with
  | .ok v _ => .ok v
  | .failed fault _ => .error fault

end ShapeGrammar
