import ShapeGrammar.Proofs.SameSight.Shapes

/-!
# Runs with the same slots in sight

Two runs of one setting, each with environments of its own. If these answer
alike wherever the scope tells of what is in sight, both runs end alike. On one
stack and for one renderer this means that they are the same run.
-/

set_option autoImplicit false

namespace ShapeGrammar

open Attempt

variable {σ α β γ : Type}

attribute [ext] Store Session

/-! ### The same session twice -/

theorem Path.Compiled.Twin.refl (old : Nat → Prop) (p : Path.Compiled α) : p.Twin old p :=
  ⟨⟨rfl, rfl⟩, rfl, fun _ => rfl⟩

theorem Path.Compiled.Twin.eq {old : Nat → Prop} {p p' : Path.Compiled α} (h : p.Twin old p')
    (known : ∀ uid ∈ p.uid, old uid) : p = p' :=
  eq_of_erased h.same.1 h.same.2 (h.frame known)

theorem Cargo.Alike.refl {m : Pact σ} {c : Cargo σ α} (renderer : m.like c.renderer c.renderer)
    (fresh : ∀ uid, c.store.nextUid ≤ uid → m.old uid → m.level) : c.Alike m c where
  building := rfl
  random := rfl
  values := rfl
  paths := List.forall₂_same.mpr fun _ _ => ⟨rfl, .refl m.old _⟩
  nextUid := rfl
  sessions := rfl
  renderer := renderer
  fresh := fresh

def Pact.one (admits : Stop → Prop) (usual : ∀ e, e.Usual → admits e) : Pact σ :=
  ⟨True, fun _ => True, Eq, admits, usual⟩

namespace Pact

variable {admits : Stop → Prop} {usual : ∀ e, e.Usual → admits e}

theorem one_holds {s s' : Session σ α} (h : (Pact.one admits usual).Holds s s') : s = s' := by
  have paths : s.store.paths = s'.store.paths := by
    refine List.forall₂_eq_eq_eq ▸ (h.cargo.paths.imp fun a b twin => ?_)
    exact Prod.ext twin.1 (twin.2.eq fun _ _ => trivial)
  have store : s.store = s'.store :=
    Store.ext h.cargo.values paths h.cargo.nextUid h.cargo.sessions
  have control := h.level trivial
  exact Session.ext (congrArg Control.stack control) (congrArg Control.view control)
    (congrArg Control.globalsEnd control) (congrArg Control.depth control)
    (h.building_eq trivial) h.cargo.random store h.cargo.renderer

theorem one_respects (r : Renderer σ α) :
    r.Respects (Path.Compiled.Twins (Pact.one admits usual : Pact σ).old) Eq where
  cutoff i depth s s' same := by
    subst same
    exact ⟨rfl, rfl⟩
  primitive i p s s' same := congrArg _ same
  path i uid uid' p p' command s s' drawn same := by
    obtain ⟨rfl, twin⟩ := drawn
    rw [same, twin.eq fun _ _ => trivial]

theorem one_meets {o o' : Outcome Stop (Session σ α) β}
    (h : Meets (Pact.one admits usual).parting (Pact.one admits usual).Holds Eq o o') :
    o = o' ∧ ∀ e t, o = .failed e t → admits e := by
  cases h with
  | ok value state =>
    subst value
    exact ⟨by rw [one_holds state], fun _ _ failed => nomatch failed⟩
  | together parted =>
    obtain ⟨same, admitted, holds⟩ := parted
    subst same
    refine ⟨by rw [one_holds holds], fun e t failed => ?_⟩
    rw [(Outcome.failed.inj failed).1] at admitted
    exact admitted
  | alone impossible => exact impossible.elim

end Pact

/-! ### Settings -/

/-- Before the globals are complete, everything is in sight. -/
def Ground.outset : Ground α where
  holds κ κ' := κ.view = .full ∧ κ'.view = .full ∧ κ.depth = 0 ∧ κ'.depth = 0 ∧
    κ.stack.session = κ'.stack.session
  extend _ _ _ h := h
  pushFrame _ _ h := h

variable [Scalar α]

def Setting.guidedLevel (t : Setting σ α) (env : Nat → Scope → Env Stop (Session σ α) α)
    (globals : Scope) (fuel : Nat) : Guided σ α :=
  t.guidedAt env fuel (t.guidedExpand env globals fuel)

theorem Setting.guidedLevel_strategy (t : Setting σ α)
    (env : Nat → Scope → Env Stop (Session σ α) α) (globals : Scope) (fuel : Nat) (scope : Scope) :
    (t.guidedLevel env globals fuel scope).strategy = t.strategy := rfl

/-- One setting with two families of environments. -/
structure Score (m : Pact σ) (t : Setting σ α) (shown : Scope → List (Slot α) → Prop)
    (fit : Scope → Statement α → Prop) (globals : Scope)
    (env env' : Nat → Scope → Env Stop (Session σ α) α) : Prop where
  keeps : ∀ n scope, (env n scope).Keeps
  keeps' : ∀ n scope, (env' n scope).Keeps
  param : ∀ scope V p v fixed, shown scope V →
    shown (⟨Param.name p, false, fixed⟩ :: scope) (⟨p.name, .value v⟩ :: V)
  define : ∀ scope V head d b, fit scope (.define head d) → shown scope V → d.Binds b →
    shown (d.entry scope :: scope) (⟨d.name, b⟩ :: V)
  respects : t.renderer.Respects (Path.Compiled.Twins m.old) m.like
  fits : ∀ shape ∈ t.grammar.shapes, ∀ rule ∈ shape.rules, ∀ p ∈ rule.body.placed globals false,
    fit p.1 p.2

namespace Score

variable {m : Pact σ} {t : Setting σ α} {shown : Scope → List (Slot α) → Prop}
  {fit : Scope → Statement α → Prop} {globals : Scope}
  {env env' : Nat → Scope → Env Stop (Session σ α) α} {n n' : Nat}

def Agree (_ : Score m t shown fit globals env env') (n n' : Nat) : Prop :=
  ∀ scope V st, fit scope st → shown scope V →
    Env.Answers m.parting (Looks m V) (· ∈ st.uses) (env n scope) (env' n' scope)

theorem ensemble (h : Score m t shown fit globals env env') (agree : h.Agree n n') :
    Ensemble m t.grammar t.renderer shown fit globals (t.guidedLevel env globals n)
      (t.guidedLevel env' globals n') where
  keeps scope := ⟨h.keeps n scope, Setting.guidedExpand_keeps h.keeps globals n⟩
  keeps' scope := ⟨h.keeps' n' scope, Setting.guidedExpand_keeps h.keeps' globals n'⟩
  strategy scope :=
    (t.guidedLevel_strategy env globals n scope).trans
      (t.guidedLevel_strategy env' globals n' scope).symm
  param := h.param
  define := h.define
  env := agree
  grammar _ := rfl
  grammar' _ := rfl
  renderer _ := rfl
  renderer' _ := rfl
  respects := h.respects
  fits := h.fits

/-- One more level of shapes, if the renderer lets any of them be expanded. -/
theorem expand_succ (h : Score m t shown fit globals env env') (agree : h.Agree n n')
    {G : List (Slot α)} (hG : shown globals G) {δ : Nat}
    (expand : (∃ i ρ, (t.renderer.cutoff i (δ + 1) ρ).1 = .expand) → ∀ i,
      InStep m.parting (Afoot m G (δ + 1)) Eq (t.guidedExpand env globals n i)
        (t.guidedExpand env' globals n' i)) (i : Instance α) :
    InStep m.parting (Afoot m G δ) Eq (t.guidedExpand env globals (n + 1) i)
      (t.guidedExpand env' globals (n' + 1) i) :=
  (h.ensemble agree).expandShape hG (fun allowed _ => expand allowed) i

/-- Shapes are expanded in step if all levels answer alike. -/
theorem expand (h : Score m t shown fit globals env env') (agree : ∀ n, h.Agree n n)
    (free : m.admits .outOfFuel) {G : List (Slot α)} (hG : shown globals G) (n δ : Nat)
    (i : Instance α) :
    InStep m.parting (Afoot m G δ) Eq (t.guidedExpand env globals n i)
      (t.guidedExpand env' globals n i) := by
  induction n generalizing δ i with
  | zero => exact Afoot.fail free
  | succ n ih => exact h.expand_succ (agree n) hG (fun _ => ih (δ + 1)) i

omit [Scalar α] in
/-- The globals are all in sight once they are complete. -/
theorem complete {V : List (Slot α)} {s s' : Session σ α} (h : Amid m .outset V s s') :
    Afoot m V 0 { s with globalsEnd := s.stack.height }
      { s' with globalsEnd := s'.stack.height } := by
  obtain ⟨full, full', depth, depth', session⟩ := h.ground
  have visible : s.stack.visible .full = V := full ▸ h.visible
  have visible' : s'.stack.visible .full = V := full' ▸ h.visible'
  refine ⟨⟨fun level => ?_, h.cargo⟩, ?_⟩
  · exact congrArg (fun κ : Control α => { κ with globalsEnd := κ.stack.height }) (h.level level)
  · exact ⟨Nat.le_refl _, Nat.le_refl _, visible, visible', depth, depth', session⟩

theorem runFrom (h : Score m t shown fit globals env env') (agree : h.Agree n n')
    (scope : Statement.scopeAfterAll [] t.grammar.globals.statements = globals)
    (defines : ∀ p ∈ Statement.placedAll [] t.grammar.globals.statements,
      fit p.1 p.2 ∧ ∃ head d, p.2 = .define head d)
    (expand : ∀ G, shown globals G → ∀ i, InStep m.parting (Afoot m G 0) Eq
      (t.guidedExpand env globals n i) (t.guidedExpand env' globals n' i)) (start : Shape α) :
    Leads m.parting (Reading m .outset shown []) m.Holds Eq
      (t.guidedRunFrom env globals n start) (t.guidedRunFrom env' globals n' start) := by
  let onlyDefines (scope : Scope) (st : Statement α) : Prop :=
    fit scope st ∧ ∃ head d, st = .define head d
  have tuned := (h.ensemble agree).toTuned
  have concert : Concert m .outset shown onlyDefines (t.guidedLevel env globals n)
      (t.guidedLevel env' globals n') := {
    keeps := tuned.keeps
    keeps' := tuned.keeps'
    strategy := tuned.strategy
    param := tuned.param
    define := fun scope V head d b hf => tuned.define scope V head d b hf.1
    env := fun scope V st hf => tuned.env scope V st hf.1
    replace := fun scope head parent hf => by
      obtain ⟨-, _, _, impossible⟩ := hf
      cases impossible }
  refine Leads.andThen (concert.runAll [] defines (.root start.index) true) fun _ =>
    Leads.bind Leads.state fun s s' hs => ?_
  rw [scope] at hs ⊢
  obtain ⟨_, -, amid⟩ := hs
  simp only [amid.framed.frameSize]
  split
  · exact Pact.fail_leads (m.usual _ (.broken _)) fun _ _ hs => hs.holds
  · refine Leads.andThen (Q := fun t t' => ∃ G, shown globals G ∧ Afoot m G 0 t t')
      (Leads.update ?_) fun _ => ?_
    · rintro u u' ⟨V, hV, hu⟩
      exact ⟨V, hV, complete hu⟩
    · rintro u u' ⟨G, hG, hu⟩
      exact (expand G hG _ u u' hu).weaken (.refl _) (fun _ _ later => later.toHolds) fun _ _ => id

theorem run (h : Score m t shown fit globals env env') (agree : h.Agree n n') (outset : shown [] [])
    (scope : Statement.scopeAfterAll [] t.grammar.globals.statements = globals)
    (defines : ∀ p ∈ Statement.placedAll [] t.grammar.globals.statements,
      fit p.1 p.2 ∧ ∃ head d, p.2 = .define head d)
    (expand : ∀ G, shown globals G → ∀ i, InStep m.parting (Afoot m G 0) Eq
      (t.guidedExpand env globals n i) (t.guidedExpand env' globals n' i)) (start : Nat)
    {s : Session σ α} (rest : s.AtRest) (alike : s.cargo.Alike m s.cargo) :
    Meets m.parting m.Holds Eq ((t.guidedRun env globals n start).run s)
      ((t.guidedRun env' globals n' start).run s) := by
  have holds : m.Holds s s := ⟨fun _ => rfl, alike⟩
  unfold Setting.guidedRun
  split
  · exact .together ⟨rfl, m.usual _ (.grammar _), holds⟩
  · split
    · exact .together ⟨rfl, m.usual _ (.grammar _), holds⟩
    case isFalse shape _ _ =>
      let ready : Session σ α := { s with random := t.startRandom shape.name, view := .full }
      have nothing : s.stack.visible .full = [] := by
        simp only [Stack.visible, Stack.window, Position.within, Stack.height, rest.slots]
        rfl
      have outside : AtBody m .outset [] ready ready :=
        ⟨⟨fun _ => rfl, { alike with random := rfl }⟩, nothing, nothing, .full, .full, rfl, rfl,
          rest.depth, rest.depth, rfl⟩
      change Meets _ _ _ ((Action.inFrame (t.guidedRunFrom env globals n shape)).run ready)
        ((Action.inFrame (t.guidedRunFrom env' globals n' shape)).run ready)
      rw [Action.wraps_inFrame (Setting.guidedRunFrom_stack h.keeps globals n shape) ready,
        Action.wraps_inFrame (Setting.guidedRunFrom_stack h.keeps' globals n' shape) ready]
      exact Pact.mapState
        (h.runFrom agree scope defines expand shape _ _ ⟨[], outset, outside.enter⟩)
        fun u u' hu => hu.stack fun _ => rfl

end Score

end ShapeGrammar
