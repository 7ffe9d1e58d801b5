import ShapeGrammar.Expansion

/-!
# Expansion along the static scope

The load reads every statement in a scope. Here the expansion goes through the
statements with that scope in hand, and may use another context for each. A
guide that makes nothing of the scope is the expansion itself.
-/

set_option autoImplicit false

namespace ShapeGrammar

abbrev Guided (σ α : Type) := Scope → Context σ α

variable {σ α : Type} [Scalar α]

namespace Guided

mutual

def enterBody (c : Guided σ α) (scope : Scope) (paramsFixed : Bool) : Body α → Entering σ α
  | ⟨statements, params, slots⟩, parent, follows, seed =>
    if seed.length ≠ params.length then
      Action.broken (.paramCount params.length seed.length)
    else Action.inFrame do
      Action.bindParams params seed
      c.runAll (scope.bind paramsFixed params) statements parent follows
      checkSlots slots

/-- The scope goes down into bodies as it does at the load. -/
def run (c : Guided σ α) (scope : Scope) : Statement α → Instance α → Bool → Action σ α Unit
  | .replace h, parent, _ => (c scope).replace h parent
  | .loop h spec body last, parent, follows =>
    let rangeFixed := spec.range.isConstantIn scope.isFixed
    (c scope).loop h spec (c.enterBody scope rangeFixed body) (c.enterBody scope rangeFixed last)
      parent follows
  | .transform h spec body, parent, follows =>
    (c scope).transform h spec (c.enterBody scope false body) parent follows
  | .branch _ cond thenBody elseBody, parent, follows =>
    (c scope).branch cond (c.enterBody scope false thenBody) (c.enterBody scope false elseBody)
      parent follows []
  | .switch _ selector keys bodies default, parent, follows => do
    let key ← (c scope).selectKey selector
    Switch.case ⟨keys, c.enterAll scope bodies, c.enterBody scope false default⟩ key parent
      follows []
  | .define h d, _, _ => (c scope).define h d
  | .op _ o, parent, follows => (c scope).op o parent follows
  | .command h spec, _, _ => (c scope).command h spec

def runAll (c : Guided σ α) (scope : Scope) :
    List (Statement α) → Instance α → Bool → Action σ α Unit
  | [], _, _ => return ()
  | st :: rest, parent, follows => do
    c.run scope st parent follows
    c.runAll (st.scopeAfter scope) rest parent follows

def enterAll (c : Guided σ α) (scope : Scope) : List (Body α) → List (Entering σ α)
  | [] => []
  | b :: rest => c.enterBody scope false b :: c.enterAll scope rest

end

theorem case_enterAll (c : Guided σ α) (scope : Scope) (keys : List (Int × Nat))
    (bodies : List (Body α)) (default : Body α) (key : Int) :
    Switch.case ⟨keys, c.enterAll scope bodies, c.enterBody scope false default⟩ key =
      c.enterBody scope false (Switch.case ⟨keys, bodies, default⟩ key) := by
  have all : c.enterAll scope bodies = bodies.map (c.enterBody scope false) := by
    induction bodies with
    | nil => rw [enterAll, List.map_nil]
    | cons b rest ih => rw [enterAll, ih, List.map_cons]
  rw [all]
  unfold Switch.case
  cases keys.lookup key with
  | none => rfl
  | some i =>
    simp only [List.getElem?_map]
    cases bodies[i]? <;> rfl

def expandShape (c : Guided σ α) (globals : Scope) (i : Instance α) : Action σ α Unit :=
  match i.shape with
  | none => Action.broken .noShape
  | some index =>
    match (c globals).grammar.shapes[index]? with
    | none => Action.broken (.missingShape index)
    | some shape => do
      if ← (c globals).consult i then
        Action.deeper do
          let rule ← Context.selectRule shape
          (c globals).rule shape rule (c.enterBody globals false rule.body) i

/-! ### A guide that makes nothing of the scope -/

mutual

theorem enterBody_const (c : Context σ α) (scope : Scope) (fixed : Bool) : ∀ b : Body α,
    enterBody (fun _ => c) scope fixed b = c.enterBody b
  | ⟨statements, params, slots⟩ => by
    funext parent follows seed
    rw [enterBody, Context.enterBody, runAll_const c _ statements]

theorem run_const (c : Context σ α) (scope : Scope) : ∀ st : Statement α,
    run (fun _ => c) scope st = c.run st
  | .replace h => by
    funext parent follows
    rw [run, Context.run]
  | .loop h spec body last => by
    funext parent follows
    rw [run, Context.run, enterBody_const c scope _ body, enterBody_const c scope _ last]
  | .transform h spec body => by
    funext parent follows
    rw [run, Context.run, enterBody_const c scope _ body]
  | .branch h cond thenBody elseBody => by
    funext parent follows
    rw [run, Context.run, enterBody_const c scope _ thenBody, enterBody_const c scope _ elseBody]
  | .switch h selector keys bodies default => by
    funext parent follows
    rw [run, Context.run, enterAll_const c scope bodies, enterBody_const c scope _ default]
  | .define h d => by
    funext parent follows
    rw [run, Context.run]
  | .op h o => by
    funext parent follows
    rw [run, Context.run]
  | .command h spec => by
    funext parent follows
    rw [run, Context.run]

theorem runAll_const (c : Context σ α) (scope : Scope) : ∀ statements : List (Statement α),
    runAll (fun _ => c) scope statements = c.runAll statements
  | [] => by
    funext parent follows
    rw [runAll, Context.runAll]
  | st :: rest => by
    funext parent follows
    rw [runAll, Context.runAll, run_const c scope st, runAll_const c _ rest]

theorem enterAll_const (c : Context σ α) (scope : Scope) : ∀ bodies : List (Body α),
    enterAll (fun _ => c) scope bodies = c.enterAll bodies
  | [] => by rw [enterAll, Context.enterAll]
  | b :: rest => by
    rw [enterAll, Context.enterAll, enterBody_const c scope _ b, enterAll_const c scope rest]

end

theorem expandShape_const (c : Context σ α) (globals : Scope) (i : Instance α) :
    expandShape (fun _ => c) globals i = c.expandShape i := by
  cases index : i.shape with
  | none => simp only [expandShape, Context.expandShape, index]
  | some n =>
    cases found : c.grammar.shapes[n]? with
    | none => simp only [expandShape, Context.expandShape, index, found]
    | some shape => simp only [expandShape, Context.expandShape, index, found, enterBody_const]

end Guided

namespace Setting

/-! ### Guided runs -/

def guidedAt (t : Setting σ α) (env : Nat → Scope → Env Stop (Session σ α) α) (fuel : Nat)
    (expand : Instance α → Action σ α Unit) : Guided σ α :=
  fun scope => { t.contextAt fuel expand with env := env fuel scope }

def guidedExpand (t : Setting σ α) (env : Nat → Scope → Env Stop (Session σ α) α)
    (globals : Scope) : Nat → Instance α → Action σ α Unit
  | 0, _ => Attempt.fail .outOfFuel
  | fuel + 1, i => (t.guidedAt env fuel (t.guidedExpand env globals fuel)).expandShape globals i

def guidedRunFrom (t : Setting σ α) (env : Nat → Scope → Env Stop (Session σ α) α)
    (globals : Scope) (fuel : Nat) (start : Shape α) : Action σ α Unit := do
  let root : Instance α := .root start.index
  (t.guidedAt env fuel (t.guidedExpand env globals fuel)).runAll []
    t.grammar.globals.statements root true
  let s ← Attempt.state
  if s.stack.frameSize ≠ t.grammar.globals.slots then Action.broken .globalFrame
  else
    Attempt.update fun s => { s with globalsEnd := s.stack.height }
    t.guidedExpand env globals fuel root

/-- A run that goes through the grammar along the scopes of the load. -/
def guidedRun (t : Setting σ α) (env : Nat → Scope → Env Stop (Session σ α) α) (globals : Scope)
    (fuel start : Nat) : Action σ α Unit :=
  match t.grammar.shapes[start]? with
  | none => Action.problem .none (.noSuchShape start)
  | some shape =>
    if shape.params.length ≠ 0 then
      Action.problem .none (.startArguments shape.name shape.params.length)
    else do
      Attempt.update fun s => { s with random := t.startRandom shape.name, view := .full }
      Action.inFrame (t.guidedRunFrom env globals fuel shape)

theorem guidedExpand_const (t : Setting σ α) (globals : Scope) (fuel : Nat) :
    t.guidedExpand (fun n _ => t.environment n) globals fuel = t.expand fuel := by
  induction fuel with
  | zero => rfl
  | succ fuel ih =>
    funext i
    rw [guidedExpand, expand, ih]
    exact Guided.expandShape_const _ globals i

theorem guidedRunFrom_const (t : Setting σ α) (globals : Scope) (fuel : Nat) (start : Shape α) :
    t.guidedRunFrom (fun n _ => t.environment n) globals fuel start = t.runFrom fuel start := by
  have statements := Guided.runAll_const (t.contextAt fuel (t.expand fuel)) []
    t.grammar.globals.statements
  rw [guidedRunFrom, Setting.runFrom, guidedExpand_const]
  change (Guided.runAll (fun _ => t.contextAt fuel (t.expand fuel)) [] _ _ _ >>= _) = _
  rw [statements]

theorem guidedRun_const (t : Setting σ α) (globals : Scope) (fuel start : Nat) :
    t.guidedRun (fun n _ => t.environment n) globals fuel start = t.run fuel start := by
  cases found : t.grammar.shapes[start]? with
  | none => simp only [guidedRun, Setting.run, found]
  | some shape => simp only [guidedRun, Setting.run, found, guidedRunFrom_const]

end Setting

end ShapeGrammar
