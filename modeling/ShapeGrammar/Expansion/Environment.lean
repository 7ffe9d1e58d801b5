import ShapeGrammar.Session

/-!
# The environment of a session

Names are looked up on the stack through the present view. A deferred define
is evaluated in the view it had where it was declared, and a function in that
view with its arguments in front. Fuel bounds how deeply such evaluations may
nest, since a function can call itself.
-/

set_option autoImplicit false

namespace ShapeGrammar

variable {σ α : Type} [Scalar α]

def Value.conforms (v : Value α) (kind : Kind) (width : Nat) (what : String) :
    Except EvalCause Unit :=
  if v.kind = kind ∧ v.width = width then .ok ()
  else .error (.declaredKind what kind width v.found)

def Param.accept : List Param → List (Value α) → Except EvalCause Unit
  | p :: params, v :: values =>
    match v.conforms p.kind p.width p.name with
    | .ok () => accept params values
    | .error cause => .error cause
  | _, _ => .ok ()

def Env.evalBody {ω : Type} (env : Env Stop ω α) : DefineBody α → Attempt Stop ω (Value α)
  | .expr e => env.eval e
  | .mods b => do return .adjustment (← env.evalBundle b)

def Env.evalDefine {ω : Type} (env : Env Stop ω α) (d : Define α) (span : Span) :
    Attempt Stop ω (Value α) := do
  let v ← env.evalBody d.body
  env.settle span (v.conforms d.kind d.width d.name)
  return v

namespace Session

def failEval {β : Type} (span : Span) (cause : EvalCause) : Action σ α β :=
  Attempt.fail (.fault (.eval ⟨span, cause⟩))

def environment (body : Define α → Span → Action σ α (Value α)) :
    Env Stop (Session σ α) α where
  lookup name span := do
    let s ← Attempt.state
    match s.stack.lookup name s.view with
    | none => failEval span (.undefinedName name)
    | some (_, .value v) => return v
    | some (slot, .deferred d) => Action.underView (s.view.before (some slot)) (body d span)
    | some (_, .function _) => failEval span (.needsArguments name)
  call name args span := do
    let s ← Attempt.state
    let view := s.view
    let base := s.stack.height
    match s.stack.lookup name view with
    | some (slot, .function d) =>
      if args.length ≠ d.params.length then
        failEval span (.callCount name d.params.length args.length)
      else
        match Param.accept d.params args with
        | .error cause => failEval span cause
        | .ok () => Action.inFrame do
          Action.bindParams d.params args
          let top := (← Attempt.state).stack.height
          let v ← Action.underView ((view.through (some slot)).withArgs ⟨base, some top⟩) (body d span)
          return some v
    | _ => return none
  draw s :=
    let random := s.random.bump
    some (random.lower α, { s with random := random })
  raise fault := .fault (.eval fault)

/-- Evaluations may nest `fuel` deep. -/
def environmentAt : Nat → Env Stop (Session σ α) α
  | 0 => environment fun _ _ => Attempt.fail .outOfFuel
  | fuel + 1 => environment fun d span => (environmentAt fuel).evalDefine d span

end Session

end ShapeGrammar
