import ShapeGrammar.Proofs.Placement
import ShapeGrammar.Proofs.SameSight.Evaluation

/-!
# Statements with the same slots in sight

Two expansions go through the same statements, each with a scope in hand. What
the scope tells of the slots in sight is left open, as is what the expansion of
a shape comes to. Whatever both agree on before a statement they agree on
after it, as long as evaluation and replacements go in step.
-/

set_option autoImplicit false

namespace ShapeGrammar

open Attempt

variable {σ α β γ : Type}

/-! ### In the midst of a body -/

/-- What two sessions have in common below the bodies they are in. -/
structure Ground (α : Type) where
  holds : Control α → Control α → Prop
  extend : ∀ κ κ' extra, holds κ κ' → holds (κ.extend extra) (κ'.extend extra)
  pushFrame : ∀ κ κ', holds κ κ' →
    holds { κ with stack := κ.stack.pushFrame } { κ' with stack := κ'.stack.pushFrame }

structure AtBody (m : Pact σ) (g : Ground α) (V : List (Slot α)) (s s' : Session σ α) : Prop extends
    m.Holds s s' where
  visible : s.stack.visible s.view = V
  visible' : s'.stack.visible s'.view = V
  view : s.view.Open s.stack.height
  view' : s'.view.Open s'.stack.height
  ground : g.holds s.control s'.control

/-- Two sessions in the midst of one body, in frames of the same names. -/
structure Amid (m : Pact σ) (g : Ground α) (V : List (Slot α)) (s s' : Session σ α) : Prop extends
    AtBody m g V s s' where
  framed : s.stack.Framed s'.stack

theorem AtBody.enter {m : Pact σ} {g : Ground α} {V : List (Slot α)} {s s' : Session σ α}
    (h : AtBody m g V s s') :
    Amid m g V { s with stack := s.stack.pushFrame } { s' with stack := s'.stack.pushFrame } where
  toHolds := h.toHolds.stack fun level =>
    congrArg (fun κ : Control α => κ.stack.pushFrame) (h.level level)
  visible := by rw [Stack.visible_pushFrame, h.visible]
  visible' := by rw [Stack.visible_pushFrame, h.visible']
  view := h.view
  view' := h.view'
  ground := g.pushFrame _ _ h.ground
  framed := .pushFrame _ _

namespace Amid

variable {m : Pact σ} {g : Ground α} {V : List (Slot α)} {s s' : Session σ α}

theorem looks (h : Amid m g V s s') : Looks m V s s' :=
  ⟨h.toHolds, ⟨h.visible, h.view.proper⟩, ⟨h.visible', h.view'.proper⟩⟩

/-- Sessions that have everything in place are where they were. -/
theorem of_control (h : Amid m g V s s') {t t' : Session σ α} (holds : m.Holds t t')
    (left : t.control = s.control) (right : t'.control = s'.control) : Amid m g V t t' := by
  have stack : t.stack = s.stack := congrArg Control.stack left
  have stack' : t'.stack = s'.stack := congrArg Control.stack right
  have view : t.view = s.view := congrArg Control.view left
  have view' : t'.view = s'.view := congrArg Control.view right
  refine ⟨⟨holds, ?_, ?_, ?_, ?_, ?_⟩, ?_⟩
  · rw [stack, view]
    exact h.visible
  · rw [stack', view']
    exact h.visible'
  · rw [stack, view]
    exact h.view
  · rw [stack', view']
    exact h.view'
  · rw [left, right]
    exact h.ground
  · rw [stack, stack']
    exact h.framed

/-- Actions that keep everything in place need only keep to the pact. -/
theorem kept {same : β → γ → Prop} {x : Action σ α β} {y : Action σ α γ}
    (hx : Action.Keeps x) (hy : Action.Keeps y)
    (h : Leads m.parting (Amid m g V) m.Holds same x y) :
    InStep m.parting (Amid m g V) same x y := by
  intro s s' hs
  refine ((h s s' hs).and_ends (hx s) (hy s')).weaken (.refl _) ?_ fun _ _ => id
  rintro t t' ⟨holds, left, right⟩
  exact hs.of_control holds left right

theorem push (h : Amid m g V s s') (x : Slot α) :
    Amid m g (x :: V) (s.extend [x]) (s'.extend [x]) where
  toHolds := h.toHolds.extend [x]
  visible := by rw [← h.visible]; exact s.stack.visible_push h.view x
  visible' := by rw [← h.visible']; exact s'.stack.visible_push h.view' x
  view := h.view.mono (by simp [Session.extend, Stack.height_extend])
  view' := h.view'.mono (by simp [Session.extend, Stack.height_extend])
  framed := h.framed.push rfl
  ground := g.extend _ _ _ h.ground

theorem bindName (name : String) (binding : Binding α) (span : Span) :
    Leads m.parting (Amid m g V) (Amid m g (⟨name, binding⟩ :: V)) Eq
      (Action.bindName name binding span : Action σ α Unit)
      (Action.bindName name binding span) := by
  intro s s' hs
  rw [Action.bindName_run, Action.bindName_run, hs.framed.isTaken name]
  split
  · exact .together ⟨rfl, m.usual _ (.grammar _), hs.toHolds⟩
  · exact .ok rfl (hs.push ⟨name, binding⟩)

theorem checkSlots (declared : Nat) :
    Leads m.parting (Amid m g V) m.Holds Eq (ShapeGrammar.checkSlots declared : Action σ α Unit)
      (ShapeGrammar.checkSlots declared) := by
  refine Leads.bind Leads.state fun s s' hs => ?_
  simp only [hs.framed.frameSize]
  split
  · exact Pact.fail_leads (m.usual _ (.broken _)) fun _ _ h => h.toHolds
  · exact fun _ _ h => .ok rfl h.toHolds

theorem answers {asked : Expr.Use → Prop} {env env' : Env Stop (Session σ α) α} (keeps : env.Keeps)
    (keeps' : env'.Keeps) (h : Env.Answers m.parting (Looks m V) asked env env') :
    Env.Answers m.parting (Amid m g V) asked env env' where
  lookup name span hu := kept (keeps.lookup name span) (keeps'.lookup name span) fun s s' hs =>
    (h.lookup name span hu s s' hs.looks).weaken (.refl _) (fun _ _ later => later.toHolds)
      fun _ _ => id
  call name args span hu :=
    kept (keeps.call name args span) (keeps'.call name args span) fun s s' hs =>
      (h.call name args span hu s s' hs.looks).weaken (.refl _) (fun _ _ later => later.toHolds)
        fun _ _ => id
  draw name span hu random s s' hs := by
    have drawn := h.draw name span hu random s s' hs.looks
    generalize left : env.draw s = a at drawn ⊢
    generalize right : env'.draw s' = b at drawn ⊢
    cases drawn with
    | none => exact .none
    | some both =>
      exact .some ⟨both.1, hs.of_control both.2.toHolds (keeps.draw left) (keeps'.draw right)⟩
  raise span cause hc s s' hs := h.raise span cause hc s s' hs.looks

end Amid

theorem Pact.Holds.building_eq {m : Pact σ} {s s' : Session σ α} (h : m.Holds s s')
    (level : m.level) : s.building = s'.building := by
  have opened : s.building.map (fun p => (p.frame, p.uid, p.complete)) =
      s'.building.map (fun p => (p.frame, p.uid, p.complete)) :=
    congrArg Control.opened (h.level level)
  have erased : s.building.map Path.Compiled.erased = s'.building.map Path.Compiled.erased :=
    h.cargo.building
  cases hp : s.building with
  | none =>
    rw [hp] at opened
    exact (Option.map_eq_none_iff.mp opened.symm).symm
  | some p =>
    rw [hp] at opened erased
    obtain ⟨p', hp', same⟩ := Option.map_eq_some_iff.mp opened.symm
    rw [hp'] at erased ⊢
    simp only [Prod.mk.injEq] at same
    exact congrArg some
      (Path.Compiled.eq_of_erased (Option.some.inj erased) same.2.1.symm same.1.symm)

/-- What is done to the path under construction is done to both. -/
theorem Amid.buildWith {m : Pact σ} {g : Ground α} {V : List (Slot α)} (what : String)
    {f : Path.Compiled α → Except Broken (Path.Compiled α)}
    (hf : ∀ p, f p.erased = (f p).map Path.Compiled.erased)
    (keeps : Action.Keeps (Context.buildWith what f : Action σ α Unit)) :
    InStep m.parting (Amid m g V) Eq (Context.buildWith what f : Action σ α Unit)
      (Context.buildWith what f) := by
  refine kept keeps keeps fun s s' hs => ?_
  refine Context.buildWith_inStep (d := m.parting) (P := m.Holds) what hf
    (fun _ _ holds => holds.cargo.building) ?_ ?_ s s' hs.toHolds
  · intro t t' p p' q q' holds hp hp' hq hq' erased
    refine ⟨fun level => ?_, { holds.cargo with building := congrArg some erased }⟩
    have same : p = p' := by
      have building := holds.building_eq level
      rw [hp, hp'] at building
      exact Option.some.inj building
    have built : q = q' := by
      rw [same, hq'] at hq
      exact (Except.ok.inj hq).symm
    have control := holds.level level
    simp only [Session.control, Control.mk.injEq] at control ⊢
    exact ⟨control.1, control.2.1, control.2.2.1, control.2.2.2.1, by rw [built]⟩
  · exact fun _ _ _ holds => ⟨rfl, m.usual _ (.broken _), holds⟩

/-! ### Along the scope -/

inductive Define.Binds (d : Define α) : Binding α → Prop
  | function (h : d.isFunction = true) : Binds d (.function d)
  | value (h : d.isFunction = false) (v : Value α) : Binds d (.value v)
  | deferred (h : d.isFunction = false) : Binds d (.deferred d)

def Reading (m : Pact σ) (g : Ground α) (shown : Scope → List (Slot α) → Prop) (scope : Scope)
    (s s' : Session σ α) : Prop :=
  ∃ V, shown scope V ∧ Amid m g V s s'

namespace Reading

variable {m : Pact σ} {g : Ground α} {shown : Scope → List (Slot α) → Prop} {scope : Scope}

theorem holds {s s' : Session σ α} (h : Reading m g shown scope s s') : m.Holds s s' := by
  obtain ⟨V, -, hs⟩ := h
  exact hs.toHolds

theorem of_amid {same : β → γ → Prop} {x : Action σ α β} {y : Action σ α γ}
    (h : ∀ V, shown scope V → InStep m.parting (Amid m g V) same x y) :
    InStep m.parting (Reading m g shown scope) same x y := by
  rintro s s' ⟨V, hV, hs⟩
  exact (h V hV s s' hs).weaken (.refl _) (fun _ _ later => ⟨V, hV, later⟩) fun _ _ => id

theorem kept {same : β → γ → Prop} {x : Action σ α β} {y : Action σ α γ}
    (hx : Action.Keeps x) (hy : Action.Keeps y)
    (h : Leads m.parting (Reading m g shown scope) m.Holds same x y) :
    InStep m.parting (Reading m g shown scope) same x y :=
  of_amid fun V hV => Amid.kept hx hy fun s s' hs => h s s' ⟨V, hV, hs⟩

theorem answers {asked : Expr.Use → Prop} {env env' : Env Stop (Session σ α) α} (keeps : env.Keeps)
    (keeps' : env'.Keeps)
    (h : ∀ V, shown scope V → Env.Answers m.parting (Looks m V) asked env env') :
    Env.Answers m.parting (Reading m g shown scope) asked env env' where
  lookup name span hu :=
    of_amid fun V hV => (Amid.answers keeps keeps' (h V hV)).lookup name span hu
  call name args span hu :=
    of_amid fun V hV => (Amid.answers keeps keeps' (h V hV)).call name args span hu
  draw name span hu random := by
    rintro s s' ⟨V, hV, hs⟩
    have drawn := (Amid.answers keeps keeps' (h V hV)).draw name span hu random s s' hs
    generalize env.draw s = a at drawn ⊢
    generalize env'.draw s' = b at drawn ⊢
    cases drawn with
    | none => exact .none
    | some both => exact .some ⟨both.1, V, hV, both.2⟩
  raise span cause hc := by
    rintro s s' ⟨V, hV, hs⟩
    exact (h V hV).raise span cause hc s s' hs.looks

/-- The random state of one point may be put back at another. -/
theorem save {s s' t t' : Session σ α} (hs : Reading m g shown scope s s')
    (ht : Reading m g shown scope t t') : Reading m g shown scope { s with random := t.random }
      { s' with random := t'.random } := by
  obtain ⟨V, hV, hs⟩ := hs
  have random : t.random = t'.random := ht.holds.cargo.random
  exact ⟨V, hV, hs.of_control ⟨hs.level, { hs.cargo with random := random }⟩ rfl rfl⟩

end Reading

variable [Scalar α]

/-- Two guided expansions that evaluate alike wherever the scope tells of what is
in sight, on statements that are fit for it. -/
structure Tuned (m : Pact σ) (shown : Scope → List (Slot α) → Prop)
    (fit : Scope → Statement α → Prop) (c c' : Guided σ α) : Prop where
  keeps : c.Keeps
  keeps' : c'.Keeps
  strategy : ∀ scope, (c scope).strategy = (c' scope).strategy
  param : ∀ scope V p v fixed, shown scope V →
    shown (⟨Param.name p, false, fixed⟩ :: scope) (⟨p.name, .value v⟩ :: V)
  define : ∀ scope V head d b, fit scope (.define head d) → shown scope V → d.Binds b →
    shown (d.entry scope :: scope) (⟨d.name, b⟩ :: V)
  env : ∀ scope V st, fit scope st → shown scope V →
    Env.Answers m.parting (Looks m V) (· ∈ st.uses) (c scope).env (c' scope).env

structure Concert (m : Pact σ) (g : Ground α) (shown : Scope → List (Slot α) → Prop)
    (fit : Scope → Statement α → Prop) (c c' : Guided σ α) : Prop extends
    Tuned m shown fit c c' where
  replace : ∀ scope head parent, fit scope (.replace head) →
    InStep m.parting (Reading m g shown scope) Eq ((c scope).replace head parent)
      ((c' scope).replace head parent)

namespace Concert

variable {m : Pact σ} {g : Ground α} {shown : Scope → List (Slot α) → Prop}
  {fit : Scope → Statement α → Prop} {c c' : Guided σ α}

theorem answers (h : Concert m g shown fit c c') {scope : Scope} {st : Statement α}
    (hf : fit scope st) :
    Env.Answers m.parting (Reading m g shown scope) (· ∈ st.uses) (c scope).env (c' scope).env :=
  Reading.answers (h.keeps scope).env (h.keeps' scope).env fun V hV => h.env scope V st hf hV

theorem evalDefine (h : Concert m g shown fit c c') {scope : Scope} {head : Head α} {d : Define α}
    (hf : fit scope (.define head d)) (plain : d.isFunction = false) :
    InStep m.parting (Reading m g shown scope) Eq ((c scope).env.evalDefine d head.span)
      ((c' scope).env.evalDefine d head.span) :=
  (h.answers hf).evalDefine d head.span fun u hu => by simp [Statement.uses, plain, hu]

theorem keptValue (h : Concert m g shown fit c c') {scope : Scope} {head : Head α} {d : Define α}
    (hf : fit scope (.define head d)) (plain : d.isFunction = false) (place : Address) :
    InStep m.parting (Reading m g shown scope) Eq ((c scope).keptValue place d head.span)
      ((c' scope).keptValue place d head.span) := by
  refine Leads.bind Leads.state fun s s' hs => ?_
  have values : s.store.values = s'.store.values := hs.holds.cargo.values
  simp only [values]
  split
  · exact Leads.pure rfl
  · refine Leads.andThen (h.evalDefine hf plain) fun v => ?_
    refine Leads.andThen (Q := Reading m g shown scope) (Leads.update ?_) fun _ => Leads.pure rfl
    rintro t t' ⟨V, hV, ht⟩
    have kept : (place, v) :: t.store.values = (place, v) :: t'.store.values :=
      congrArg ((place, v) :: ·) ht.cargo.values
    exact ⟨V, hV, ht.of_control ⟨ht.level, { ht.cargo with values := kept }⟩ rfl rfl⟩

theorem bindName (h : Concert m g shown fit c c') {scope : Scope} {head : Head α} {d : Define α}
    (hf : fit scope (.define head d)) {b : Binding α} (hb : d.Binds b) :
    Leads m.parting (Reading m g shown scope) (Reading m g shown (d.entry scope :: scope)) Eq
      (Action.bindName d.name b head.span : Action σ α Unit)
      (Action.bindName d.name b head.span) := by
  rintro s s' ⟨V, hV, hs⟩
  exact (Amid.bindName d.name b head.span s s' hs).weaken (.refl _)
    (fun _ _ later => ⟨_, h.define scope V head d b hf hV hb, later⟩) fun _ _ => id

theorem runDefine (h : Concert m g shown fit c c') {scope : Scope} {head : Head α} {d : Define α}
    (hf : fit scope (.define head d)) :
    Leads m.parting (Reading m g shown scope) (Reading m g shown (d.entry scope :: scope)) Eq
      ((c scope).define head d) ((c' scope).define head d) := by
  unfold Context.define
  cases function : d.isFunction with
  | true => exact h.bindName hf (.function function)
  | false =>
    simp only [Bool.false_eq_true, if_false, ← h.strategy scope]
    cases d.cell with
    | none => exact h.bindName hf (.deferred function)
    | some place =>
      simp only
      split
      · exact Leads.andThen (h.keptValue hf function place) fun v =>
          h.bindName hf (.value function v)
      · exact Leads.andThen (h.evalDefine hf function) fun v => h.bindName hf (.value function v)

theorem bindParams (h : Concert m g shown fit c c') (fixed : Bool) (params : List Param)
    (values : List (Value α)) (length : values.length = params.length) (scope : Scope) :
    Leads m.parting (Reading m g shown scope) (Reading m g shown (scope.bind fixed params)) Eq
      (Action.bindParams params values : Action σ α Unit) (Action.bindParams params values) := by
  induction params generalizing values scope with
  | nil => exact Leads.pure rfl
  | cons p params ih =>
    match values, length with
    | v :: values, length =>
      refine Leads.andThen ?_ fun _ => ih values (Nat.succ.inj length) _
      rintro s s' ⟨V, hV, hs⟩
      exact (Amid.bindName p.name (.value v) p.span s s' hs).weaken (.refl _)
        (fun _ _ later => ⟨_, h.param scope V p v fixed hV, later⟩) fun _ _ => id

def Steps (_ : Concert m g shown fit c c') (st : Statement α) : Prop :=
  ∀ scope, fit scope st → (∀ p ∈ st.placedInside scope, fit p.1 p.2) → ∀ parent follows,
    Leads m.parting (Reading m g shown scope) (Reading m g shown (st.scopeAfter scope)) Eq
      (c.run scope st parent follows) (c'.run scope st parent follows)

theorem runAll_of (h : Concert m g shown fit c c') {statements : List (Statement α)}
    (hs : ∀ st ∈ statements, h.Steps st) (scope : Scope)
    (fits : ∀ p ∈ Statement.placedAll scope statements, fit p.1 p.2) (parent : Instance α)
    (follows : Bool) :
    Leads m.parting (Reading m g shown scope)
      (Reading m g shown (Statement.scopeAfterAll scope statements)) Eq
      (c.runAll scope statements parent follows) (c'.runAll scope statements parent follows) := by
  induction statements generalizing scope with
  | nil =>
    rw [Guided.runAll, Guided.runAll]
    exact Leads.pure rfl
  | cons st rest ih =>
    rw [Statement.placedAll] at fits
    rw [Guided.runAll, Guided.runAll]
    have first := hs st List.mem_cons_self scope (fits _ List.mem_cons_self)
      (fun p hp => fits p (List.mem_cons_of_mem _ (List.mem_append_left _ hp))) parent follows
    exact Leads.andThen first fun _ => ih (fun st hst => hs st (List.mem_cons_of_mem _ hst)) _
      fun p hp => fits p (List.mem_cons_of_mem _ (List.mem_append_right _ hp))

/-- A body is entered in step, in a frame of its own. -/
theorem enterBody_of (h : Concert m g shown fit c c') {b : Body α}
    (hs : ∀ st ∈ b.statements, h.Steps st) {scope : Scope} {fixed : Bool}
    (fits : ∀ p ∈ b.placed scope fixed, fit p.1 p.2) (parent : Instance α) (follows : Bool)
    (seed : List (Value α)) {V : List (Slot α)} (hV : shown scope V) :
    Leads m.parting (AtBody m g V) m.Holds Eq (c.enterBody scope fixed b parent follows seed)
      (c'.enterBody scope fixed b parent follows seed) := by
  obtain ⟨statements, params, slots⟩ := b
  rw [Body.placed] at fits
  simp only [Guided.enterBody]
  by_cases length : seed.length = params.length
  case neg =>
    rw [if_pos length, if_pos length]
    exact Pact.fail_leads (m.usual _ (.broken _)) fun _ _ h => h.toHolds
  rw [if_neg (not_not_intro length), if_neg (not_not_intro length)]
  have pushes {d : Guided σ α} (hd : d.Keeps) :=
    (Action.pushes_bindParams params seed).bind fun _ =>
    (hd.runAll (scope.bind fixed params) statements parent follows).bindKeeps fun _ =>
      keeps_checkSlots slots
  have inside := Leads.andThen (h.bindParams fixed params seed length scope) fun _ =>
    Leads.andThen (h.runAll_of hs _ fits parent follows) fun _ s s' ⟨_, _, hs⟩ =>
      Amid.checkSlots slots s s' hs
  exact fun s s' ready => Pact.inFrame (pushes h.keeps) (pushes h.keeps') ready.toHolds
    (inside _ _ ⟨V, hV, ready.enter⟩)

theorem reenter_of (h : Concert m g shown fit c c') {b : Body α}
    (hs : ∀ st ∈ b.statements, h.Steps st) {scope : Scope} {fixed : Bool}
    (fits : ∀ p ∈ b.placed scope fixed, fit p.1 p.2) (parent : Instance α) (follows : Bool)
    (seed : List (Value α)) :
    InStep m.parting (Reading m g shown scope) Eq (c.enterBody scope fixed b parent follows seed)
      (c'.enterBody scope fixed b parent follows seed) :=
  Reading.kept (h.keeps.enterBody scope fixed b parent follows seed)
    (h.keeps'.enterBody scope fixed b parent follows seed) fun s s' ⟨_, hV, hs'⟩ =>
      h.enterBody_of hs fits parent follows seed hV s s' hs'.toAtBody

/-- Statements go in step. -/
theorem run (h : Concert m g shown fit c c') (st : Statement α) : h.Steps st := by
  have problem {scope : Scope} : ∀ span p s s', Reading m g shown scope s s' →
      m.parting.together (.fault (.grammar ⟨span, p⟩)) (.fault (.grammar ⟨span, p⟩)) s s' :=
    fun _ _ _ _ hs => ⟨rfl, m.usual _ (.grammar _), hs.holds⟩
  -- the induction carries bodies: each is entered again from the midst of another
  induction st using Statement.induct (P := fun b => ∀ scope fixed,
    (∀ p ∈ b.placed scope fixed, fit p.1 p.2) → ∀ parent follows seed,
      InStep m.parting (Reading m g shown scope) Eq (c.enterBody scope fixed b parent follows seed)
        (c'.enterBody scope fixed b parent follows seed)) with
  | body b hs scope fixed fits parent follows seed => exact h.reenter_of hs fits parent follows seed
  | replace head =>
    intro scope hf _ parent follows
    rw [Guided.run, Guided.run]
    exact h.replace scope head parent hf
  | loop head spec body last hbody hlast =>
    intro scope hf fits parent follows
    rw [Guided.run, Guided.run]
    rw [Statement.placedInside] at fits
    have asked := h.answers hf
    have start : (c scope).startFrom spec.opsOnly follows parent =
        (c' scope).startFrom spec.opsOnly follows parent := by
      simp only [Context.startFrom, h.strategy scope]
    refine Context.loop_inStep asked head (fun u hu => by simp [Statement.uses, Head.uses, hu]) spec
      (Context.loopRange_inStep asked (by rw [h.strategy scope]) spec
        (fun u hu => by simp [Statement.uses, hu]) problem)
      parent follows start ?_ ?_
    · exact fun i follows x =>
        hbody scope _ (fun p hp => fits p (List.mem_append_left _ hp)) i follows _
    · exact fun i follows x =>
        hlast scope _ (fun p hp => fits p (List.mem_append_right _ hp)) i follows _
  | transform head spec body hbody =>
    intro scope hf fits parent follows
    rw [Guided.run, Guided.run]
    rw [Statement.placedInside] at fits
    have start : (c scope).startFrom spec.opsOnly follows parent =
        (c' scope).startFrom spec.opsOnly follows parent := by
      simp only [Context.startFrom, h.strategy scope]
    exact Context.transform_inStep (h.answers hf) (fun _ _ _ _ hs ht => hs.save ht) head
      (fun u hu => by simp [Statement.uses, Head.uses, hu]) spec
      (fun s hs u hu => List.mem_append_right _ (List.mem_flatMap.mpr ⟨s, hs, hu⟩)) parent follows
      start fun i follows => hbody scope _ fits i follows _
  | branch head cond thenBody elseBody hthen helse =>
    intro scope hf fits parent follows
    rw [Guided.run, Guided.run]
    rw [Statement.placedInside] at fits
    exact Context.branch_inStep (h.answers hf) cond (fun u hu => by simp [Statement.uses, hu])
      parent follows [] (hthen scope _ (fun p hp => fits p (List.mem_append_left _ hp)) _ _ _)
      (helse scope _ (fun p hp => fits p (List.mem_append_right _ hp)) _ _ _)
  | switch head selector keys bodies default hbodies hdefault =>
    intro scope hf fits parent follows
    rw [Guided.run, Guided.run]
    rw [Statement.placedInside, Body.placedAll_eq_flatMap] at fits
    refine Leads.andThen (Context.selectKey_inStep (h.answers hf) selector
      fun u hu => by simp [Statement.uses, hu]) fun key => ?_
    rw [Guided.case_enterAll, Guided.case_enterAll]
    rcases Switch.case_eq_default_or_mem ⟨keys, bodies, default⟩ key with hb | hb
    · rw [hb]
      exact hdefault scope _ (fun p hp => fits p (List.mem_append_right _ hp)) _ _ _
    · exact hbodies _ hb scope _ (fun p hp => fits p (List.mem_append_left _
        (List.mem_flatMap.mpr ⟨_, hb, hp⟩))) _ _ _
  | define head d =>
    intro scope hf _ parent follows
    rw [Guided.run, Guided.run]
    exact h.runDefine hf
  | op head o =>
    intro scope hf _ parent follows
    rw [Guided.run, Guided.run]
    refine Context.op_inStep o (Context.opArgs_inStep (h.answers hf) (by rw [h.strategy scope]) o
      fun u hu => by simp [Statement.uses, hu]) parent follows (by rw [h.strategy scope]) ?_
    exact fun args m => Reading.of_amid fun V _ => Amid.buildWith _
      (fun p => p.append_erased _ _ _ args m) (Context.keeps_append _ _ _ _ args m)
  | command head spec =>
    intro scope hf _ parent follows
    rw [Guided.run, Guided.run]
    exact Context.command_inStep (h.answers hf) head
      (fun u hu => by simp [Statement.uses, Head.uses, hu]) spec
      (fun u hu => by simp [Statement.uses, hu]) fun command => Reading.of_amid fun V _ =>
        Amid.buildWith _ (fun p => p.addCommand_erased command) (Context.keeps_addCommand _ command)

theorem runAll (h : Concert m g shown fit c c') (scope : Scope) {statements : List (Statement α)}
    (fits : ∀ p ∈ Statement.placedAll scope statements, fit p.1 p.2) (parent : Instance α)
    (follows : Bool) :
    Leads m.parting (Reading m g shown scope)
      (Reading m g shown (Statement.scopeAfterAll scope statements)) Eq
      (c.runAll scope statements parent follows) (c'.runAll scope statements parent follows) :=
  h.runAll_of (fun st _ => h.run st) scope fits parent follows

theorem enterBody (h : Concert m g shown fit c c') {b : Body α} {scope : Scope} {fixed : Bool}
    (fits : ∀ p ∈ b.placed scope fixed, fit p.1 p.2) (parent : Instance α) (follows : Bool)
    (seed : List (Value α)) {V : List (Slot α)} (hV : shown scope V) :
    Leads m.parting (AtBody m g V) m.Holds Eq (c.enterBody scope fixed b parent follows seed)
      (c'.enterBody scope fixed b parent follows seed) :=
  h.enterBody_of (fun st _ => h.run st) fits parent follows seed hV

end Concert

end ShapeGrammar
