import ShapeGrammar.Expansion.Environment
import ShapeGrammar.Expansion.Replica

/-!
# One statement at a time

What each kind of statement does, given what its bodies do. A body is taken
here as an action that waits for the instance it starts from, for whether path
coordinates follow that instance, and for the values of its parameters.
-/

set_option autoImplicit false

namespace ShapeGrammar

/-- How much an expansion relies on what was worked out before, and on the
bookkeeping of path coordinates. -/
structure Strategy where
  /-- Take constant ranges and arguments from the load, values and paths from
  the store. -/
  reuse : Bool
  /-- Start path coordinates afresh until a transform or loop of operators
  takes them over. -/
  ownCoordinates : Bool
  deriving DecidableEq, Repr

def Strategy.standard : Strategy := ⟨true, true⟩

structure Context (σ α : Type) where
  grammar : Grammar α
  renderer : Renderer σ α
  strategy : Strategy
  env : Env Stop (Session σ α) α
  /-- Expands an instance of a shape. -/
  expand : Instance α → Action σ α Unit

abbrev Entering (σ α : Type) := Instance α → Bool → List (Value α) → Action σ α Unit

variable {σ α : Type} [Scalar α]

namespace Context

def consult (c : Context σ α) (i : Instance α) : Action σ α Bool := ⟨fun s =>
  match c.renderer.cutoff i (s.depth + 1) s.renderer with
  | (.expand, r) => .ok true { s with renderer := r }
  | (.skip, r) => .ok false { s with renderer := r }
  | (.abort, r) => .failed (.fault .aborted) { s with renderer := r }⟩

def adjust (c : Context σ α) (i : Instance α) (mods : Bundle α) : Action σ α (Instance α) :=
  if mods.isEmpty then return i else do return i.apply (← c.env.evalBundle mods)

/-! ### Replacements -/

def bindArgs (c : Context σ α) : List Param → List (Expr α) → Action σ α (List (Value α))
  | p :: params, e :: args => do
    let v ← c.env.eval e
    c.env.settle e.span (v.conforms p.kind p.width p.name)
    return v :: (← c.bindArgs params args)
  | _, _ => return []

def replace (c : Context σ α) (h : Head α) (parent : Instance α) : Action σ α Unit :=
  match h.target with
  | .none => return ()
  | .primitive p => do
    let child ← c.adjust parent h.mods
    let child := { child with shape := none, params := [] }
    if ← c.consult child then
      Attempt.update fun s => { s with renderer := c.renderer.drawPrimitive child p s.renderer }
  | .shape index =>
    match c.grammar.shapes[index]? with
    | none => Action.problem h.span (.noSuchShape index)
    | some shape => do
      let child ← c.adjust parent h.mods
      if h.args.length ≠ shape.params.length then
        Action.problem h.span
          (.shapeArguments shape.name shape.params.length h.args.length)
      else
        let values ← c.bindArgs shape.params h.args
        c.expand { child with shape := some index, params := values }

/-! ### Loops -/

def loopRange (c : Context σ α) (spec : LoopSpec α) : Action σ α (LoopRange α) :=
  match (if c.strategy.reuse then spec.constant else none) with
  | some range => return range
  | none => do
    let v ← c.env.eval spec.range
    match LoopRange.ofValue v with
    | .ok range => return range
    | .error p => Action.problem spec.range.span p

/-- Statements made of operators only draw in coordinates of their own when
nothing outside has taken the coordinates over. -/
def startFrom (c : Context σ α) (opsOnly follows : Bool) (parent : Instance α) : Instance α :=
  if c.strategy.ownCoordinates && opsOnly && !follows then
    { parent with transform := .identity }
  else parent

/-- Runs the remaining passes and returns the last value of the variable and
the instance as the passes left it. -/
def passes (c : Context σ α) (mods : Bundle α) (range : LoopRange α)
    (body : Instance α → List (Value α) → Action σ α Unit) :
    Nat → Nat → α → Instance α → Action σ α (α × Instance α)
  | 0, _, last, running => return (last, running)
  | left + 1, i, _, running => do
    let x := range.value i
    body running [.number x]
    let running ← c.adjust running mods
    c.passes mods range body left (i + 1) x running

def loop (c : Context σ α) (h : Head α) (spec : LoopSpec α) (body last : Entering σ α)
    (parent : Instance α) (follows : Bool) : Action σ α Unit := do
  let range ← c.loopRange spec
  let inner := follows || spec.opsOnly
  let (x, running) ← c.passes h.mods range (fun i seed => body i inner seed)
    range.iterations 0 range.start (c.startFrom spec.opsOnly follows parent)
  last running inner [.number x]

/-! ### Transforms -/

/-- Every replica starts from the same instance and the same random state. -/
def cloned (saved : Random) (base : Instance α) (body : Instance α → Action σ α Unit) :
    List (Adjustment α) → Action σ α Unit
  | [] => return ()
  | m :: rest => do
    Attempt.update fun s => { s with random := saved }
    body (base.apply m)
    cloned saved base body rest

def chained (body : Instance α → Action σ α Unit) :
    Instance α → List (Adjustment α) → Action σ α Unit
  | _, [] => return ()
  | running, m :: rest => do
    body (running.apply m)
    chained body (running.apply m) rest

def transform (c : Context σ α) (h : Head α) (spec : TransformSpec α) (body : Entering σ α)
    (parent : Instance α) (follows : Bool) : Action σ α Unit := do
  let base ← c.adjust (c.startFrom spec.opsOnly follows parent) h.mods
  let inner := follows || spec.opsOnly
  let replicas ← Symmetry.product c.env spec.generators
  let saved := (← Attempt.state).random
  if spec.clone then cloned saved base (fun i => body i inner []) replicas
  else chained (fun i => body i inner []) base replicas

/-! ### Choices -/

def branch (c : Context σ α) (cond : Expr α) (thenBody elseBody : Entering σ α) :
    Entering σ α := fun parent follows seed => do
  let v ← c.env.eval cond
  if ← c.env.settle cond.span v.truth then thenBody parent follows seed
  else elseBody parent follows seed

def selectKey (c : Context σ α) (selector : Expr α) : Action σ α Int := do
  match ← c.env.eval selector with
  | .number x =>
    if Scalar.isFinite x then return Scalar.floorInt x
    else c.env.fail selector.span (.selector .number)
  | v => c.env.fail selector.span (.selector v.found)

/-! ### Defines -/

def keptValue (c : Context σ α) (place : Address) (d : Define α) (span : Span) :
    Action σ α (Value α) := do
  match (← Attempt.state).store.values.lookup place with
  | some v => return v
  | none =>
    let v ← c.env.evalDefine d span
    Attempt.update fun s => { s with
      store := { s.store with values := (place, v) :: s.store.values } }
    return v

def define (c : Context σ α) (h : Head α) (d : Define α) : Action σ α Unit := do
  if d.isFunction then Action.bindName d.name (.function d) h.span
  else
    match d.cell with
    | some place =>
      let v ← if c.strategy.reuse then c.keptValue place d h.span
        else c.env.evalDefine d h.span
      Action.bindName d.name (.value v) h.span
    | none => Action.bindName d.name (.deferred d) h.span

/-! ### Path statements -/

def buildWith (what : String) (f : Path.Compiled α → Except Broken (Path.Compiled α)) :
    Action σ α Unit := ⟨fun s =>
  match s.building with
  | none => .failed (.fault (.broken (.outsidePath what))) s
  | some p =>
    match f p with
    | .ok p' => .ok () { s with building := some p' }
    | .error what => .failed (.fault (.broken what)) s⟩

def evalArgs (c : Context σ α) : List (Path.ArgName × Expr α) → Path.Args α →
    Action σ α (Path.Args α)
  | [], args => return args
  | (name, e) :: rest, args => do
    let v ← c.env.evalNumber e
    c.evalArgs rest (args.set name v)

def opArgs (c : Context σ α) (o : Path.Op α) : Action σ α (Path.Args α) :=
  match (if c.strategy.reuse then o.constant else none) with
  | some args => return args
  | none => c.evalArgs o.args .zero

def op (c : Context σ α) (o : Path.Op α) (parent : Instance α) (follows : Bool) :
    Action σ α Unit := do
  let args ← c.opArgs o
  let m := if follows || !c.strategy.ownCoordinates then parent.transform else .identity
  buildWith o.operator.name fun p => p.append o.operator o.flags o.isCubic args m

def evalNumberOr (c : Context σ α) (otherwise : α) : Option (Expr α) → Action σ α α
  | some e => c.env.evalNumber e
  | none => return otherwise

def command (c : Context σ α) (h : Head α) (spec : Path.CommandSpec α) : Action σ α Unit := do
  let adjust ← c.env.evalBundle h.mods
  let width ← c.evalNumberOr Path.defaultWidth spec.width
  let miter ← c.evalNumberOr Path.defaultMiter spec.miter
  buildWith "path command" fun p =>
    p.addCommand ⟨spec.kind, spec.flags, width, miter, 0, 0, adjust⟩

/-! ### Rules -/

def selectRule (shape : Shape α) : Action σ α (Rule α) := do
  match shape.rules with
  | [] => Action.problem .none (.shapeWithoutRules shape.name)
  | [only] => return only
  | _ =>
    let random := (← Attempt.state).random.bump
    Attempt.update fun s => { s with random := random }
    match (shape.pick (random.lower α * shape.totalWeight)).bind fun i => shape.rules[i]? with
    | some rule => return rule
    | none => Action.broken (.noRuleSelected shape.name)

/-- The state while a path is built; afterwards no path is open, failed or not. -/
def collectPath (body : Action σ α Unit) : Action σ α (Option (Path.Compiled α)) := ⟨fun s =>
  match body.run { s with building := some (.empty s.stack.frameRef) } with
  | .ok () s' => .ok s'.building { s' with building := none }
  | .failed e s' => .failed e { s' with building := none }⟩

def finishPath : Option (Path.Compiled α) → Action σ α (Path.Compiled α)
  | none => Action.broken .pathLost
  | some p => do
    let (p, _, next) := p.finish (← Attempt.state).store.nextUid
    Attempt.update fun s => { s with store := { s.store with nextUid := next } }
    if ((← Attempt.state).stack.resolve p.frame).isNone then Action.broken .foreignFrame
    else return p

def buildPath (rule : Rule α) (body : Entering σ α) (params : List (Value α)) :
    Action σ α (Path.Compiled α) := do
  if (← Attempt.state).building.isSome then Action.broken .nestedPath
  else finishPath (← collectPath (body (.root rule.shape) false params))

def keptPath (c : Context σ α) (rule : Rule α) (body : Entering σ α)
    (params : List (Value α)) : Action σ α (Path.Compiled α) :=
  match (if c.strategy.reuse then rule.cell else none) with
  | none => buildPath rule body params
  | some place => do
    match (← Attempt.state).store.paths.lookup place with
    | some p => return p
    | none =>
      let p ← buildPath rule body params
      Attempt.update fun s => { s with
        store := { s.store with paths := (place, p) :: s.store.paths } }
      return p

def drawCommands (c : Context σ α) (i : Instance α) (uid : Nat) (p : Path.Compiled α) :
    List (Path.Command α) → Action σ α Unit
  | [] => return ()
  | command :: rest => do
    Attempt.update fun s => { s with
      renderer := c.renderer.drawPath (i.apply command.adjust) uid p command s.renderer }
    c.drawCommands i uid p rest

def pathRule (c : Context σ α) (rule : Rule α) (body : Entering σ α) (i : Instance α) :
    Action σ α Unit := do
  let p ← c.keptPath rule body i.params
  match p.identity with
  | .error what => Action.broken what
  | .ok uid => c.drawCommands i uid p p.allCommands

/-- A rule body sees the globals and its own frames, never its caller's. -/
def rule (c : Context σ α) (shape : Shape α) (rule : Rule α) (body : Entering σ α)
    (i : Instance α) : Action σ α Unit := do
  let s ← Attempt.state
  Action.underView (.rule s.stack.height (some s.globalsEnd))
    (if shape.isPath then c.pathRule rule body i else body i true i.params)

end Context

end ShapeGrammar
