import ShapeGrammar.Expansion.Step

/-!
# Expansion

Statements are expanded by recursion on their syntax and instances by
recursion on fuel, which bounds how deeply shapes and evaluations nest. Random
draws happen strictly in the order of the expansion, so that a grammar and a
seed always make the same picture.
-/

set_option autoImplicit false

namespace ShapeGrammar

variable {σ α : Type} [Scalar α]

def checkSlots (declared : Nat) : Action σ α Unit := do
  let pushed := (← Attempt.state).stack.frameSize
  if pushed ≠ declared then Action.broken (.slotCount pushed declared)

namespace Context

mutual

def enterBody (c : Context σ α) : Body α → Entering σ α
  | ⟨statements, params, slots⟩, parent, follows, seed =>
    if seed.length ≠ params.length then
      Action.broken (.paramCount params.length seed.length)
    else Action.inFrame do
      Action.bindParams params seed
      c.runAll statements parent follows
      checkSlots slots

def run (c : Context σ α) : Statement α → Instance α → Bool → Action σ α Unit
  | .replace h, parent, _ => c.replace h parent
  | .loop h spec body last, parent, follows =>
    c.loop h spec (c.enterBody body) (c.enterBody last) parent follows
  | .transform h spec body, parent, follows =>
    c.transform h spec (c.enterBody body) parent follows
  | .branch _ cond thenBody elseBody, parent, follows =>
    c.branch cond (c.enterBody thenBody) (c.enterBody elseBody) parent follows []
  | .switch _ selector keys bodies default, parent, follows => do
    let key ← c.selectKey selector
    Switch.case ⟨keys, c.enterAll bodies, c.enterBody default⟩ key parent follows []
  | .define h d, _, _ => c.define h d
  | .op _ o, parent, follows => c.op o parent follows
  | .command h spec, _, _ => c.command h spec

def runAll (c : Context σ α) : List (Statement α) → Instance α → Bool → Action σ α Unit
  | [], _, _ => return ()
  | st :: rest, parent, follows => do
    c.run st parent follows
    c.runAll rest parent follows

def enterAll (c : Context σ α) : List (Body α) → List (Entering σ α)
  | [] => []
  | b :: rest => c.enterBody b :: c.enterAll rest

end

def expandShape (c : Context σ α) (i : Instance α) : Action σ α Unit :=
  match i.shape with
  | none => Action.broken .noShape
  | some index =>
    match c.grammar.shapes[index]? with
    | none => Action.broken (.missingShape index)
    | some shape => do
      if ← c.consult i then
        Action.deeper do
          let rule ← selectRule shape
          c.rule shape rule (c.enterBody rule.body) i

end Context

structure Options where
  seed : UInt64
  /-- Mixed into the seed before the start shape's name. -/
  variation : Option String

structure Setting (σ α : Type) where
  grammar : Grammar α
  renderer : Renderer σ α
  options : Options
  strategy : Strategy
  /-- How names are resolved, by how deeply evaluations may nest. -/
  environment : Nat → Env Stop (Session σ α) α

namespace Setting

def standard (g : Grammar α) (r : Renderer σ α) (options : Options) : Setting σ α :=
  ⟨g, r, options, .standard, Session.environmentAt⟩

def contextAt (t : Setting σ α) (fuel : Nat) (expand : Instance α → Action σ α Unit) :
    Context σ α :=
  ⟨t.grammar, t.renderer, t.strategy, t.environment fuel, expand⟩

/-- Expands an instance, with shapes nested at most `fuel` deep. -/
def expand (t : Setting σ α) : Nat → Instance α → Action σ α Unit
  | 0, _ => Attempt.fail .outOfFuel
  | fuel + 1, i => (t.contextAt fuel (t.expand fuel)).expandShape i

/-- The random state a run starts from: one running position leads through the
variation and the name of the start shape. -/
def startRandom (t : Setting σ α) (name : String) : Random :=
  let seeded : Random := ⟨t.options.seed⟩
  match t.options.variation with
  | none => (seeded.mixText name 0).1
  | some variation =>
    let (r, position) := seeded.mixText variation 0
    (r.mixText name position).1

def runFrom (t : Setting σ α) (fuel : Nat) (start : Shape α) : Action σ α Unit := do
  let root : Instance α := .root start.index
  (t.contextAt fuel (t.expand fuel)).runAll t.grammar.globals.statements root true
  let s ← Attempt.state
  if s.stack.frameSize ≠ t.grammar.globals.slots then Action.broken .globalFrame
  else
    Attempt.update fun s => { s with globalsEnd := s.stack.height }
    t.expand fuel root

def run (t : Setting σ α) (fuel : Nat) (start : Nat) : Action σ α Unit :=
  match t.grammar.shapes[start]? with
  | none => Action.problem .none (.noSuchShape start)
  | some shape =>
    if shape.params.length ≠ 0 then
      Action.problem .none (.startArguments shape.name shape.params.length)
    else do
      Attempt.update fun s => { s with random := t.startRandom shape.name, view := .full }
      Action.inFrame (t.runFrom fuel shape)

def render (t : Setting σ α) (fuel : Nat) (name : String) : Action σ α Unit :=
  match t.grammar.shapeIndex? name with
  | none => Action.problem .none (.unknownStart name)
  | some start => t.run fuel start

end Setting

end ShapeGrammar
