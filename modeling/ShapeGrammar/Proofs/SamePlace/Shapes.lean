import ShapeGrammar.Proofs.Rebuilding

/-!
# Shapes expanded at one place of a grammar

Two expansions of one grammar are at the same place, in sessions that look the same
to evaluation, and are drawn by renderers that give the same answers. Each may reuse
what it has or work it out again, so all that is left open here is how the path of a
rule is come by and drawn.
-/

set_option autoImplicit false

namespace ShapeGrammar

open Attempt

variable {σ σ' α : Type} [Scalar α]

/-- What ties two expansions together besides their stacks, whatever path is
under construction. -/
structure Ties (d : Draft α) (r : Renderer σ α) (r' : Renderer σ' α)
    (E : Cargo σ α → Cargo σ' α → Prop) : Prop where
  random : ∀ c c', E c c' → c.random = c'.random
  draw : ∀ c c' random, E c c' → E { c with random := random } { c' with random := random }
  building : ∀ c c' p p', E c c' → E { c with building := p } { c' with building := p' }
  sound : ∀ c c', E c c' → c.store.Sound d.values ∧ c'.store.Sound d.values
  keep : ∀ c c' place v, E c c' → d.values place = some v →
    E { c with store := c.store.keep place v } c'
  keep' : ∀ c c' place v, E c c' → d.values place = some v →
    E c { c' with store := c'.store.keep place v }
  cutoff : ∀ c c' i depth, E c c' →
    (r.cutoff i depth c.renderer).1 = (r'.cutoff i depth c'.renderer).1 ∧
      E { c with renderer := (r.cutoff i depth c.renderer).2 }
        { c' with renderer := (r'.cutoff i depth c'.renderer).2 }
  primitive : ∀ c c' i p, E c c' →
    E { c with renderer := r.drawPrimitive i p c.renderer }
      { c' with renderer := r'.drawPrimitive i p c'.renderer }

structure Outside (E : Cargo σ α → Cargo σ' α → Prop) (c : Cargo σ α) (c' : Cargo σ' α) : Prop where
  left : c.building = none
  right : c'.building = none
  tied : E c c'

structure Inside (E : Cargo σ α → Cargo σ' α → Prop) (c : Cargo σ α) (c' : Cargo σ' α) : Prop where
  building : c.building.map Path.Compiled.erased = c'.building.map Path.Compiled.erased
  tied : E c c'

namespace Ties

variable {d : Draft α} {r : Renderer σ α} {r' : Renderer σ' α} {E : Cargo σ α → Cargo σ' α → Prop}

theorem restore (h : Ties d r r' E) {c e : Cargo σ α} {c' e' : Cargo σ' α} (hc : E c c')
    (he : E e e') : E { c with random := e.random } { c' with random := e'.random } := by
  rw [h.random e e' he]
  exact h.draw c c' _ hc

theorem outside (h : Ties d r r' E) (draws numbered : Prop) :
    Bond (d.footing True draws numbered) (Outside E) where
  random _ c c' hc := h.random c c' hc.tied
  draw _ c c' random hc := ⟨hc.left, hc.right, h.draw c c' random hc.tied⟩
  restore _ _ _ _ hc he := ⟨hc.left, hc.right, h.restore hc.tied he.tied⟩
  building _ _ hc := by rw [hc.left, hc.right]
  built _ _ _ _ _ _ hc hp := by
    rw [hc.left] at hp
    cases hp
  sound c c' hc := h.sound c c' hc.tied
  keep c c' place v hc hv := ⟨hc.left, hc.right, h.keep c c' place v hc.tied hv⟩
  keep' c c' place v hc hv := ⟨hc.left, hc.right, h.keep' c c' place v hc.tied hv⟩

theorem inside (h : Ties d r r' E) (draws numbered : Prop) :
    Bond (d.footing True draws numbered) (Inside E) where
  random _ c c' hc := h.random c c' hc.tied
  draw _ c c' random hc := ⟨hc.building, h.draw c c' random hc.tied⟩
  restore _ _ _ _ hc he := ⟨hc.building, h.restore hc.tied he.tied⟩
  building _ _ hc := hc.building
  built c c' _ _ _ _ hc _ _ same := ⟨congrArg some same, h.building c c' _ _ hc.tied⟩
  sound c c' hc := h.sound c c' hc.tied
  keep c c' place v hc hv := ⟨hc.building, h.keep c c' place v hc.tied hv⟩
  keep' c c' place v hc hv := ⟨hc.building, h.keep' c c' place v hc.tied hv⟩

end Ties

structure Beside (d : Draft α) (numbered : Prop) (E : Cargo σ α → Cargo σ' α → Prop)
    (s : Session σ α) (s' : Session σ' α) : Prop where
  left : s.AtRule d
  right : s'.AtRule d
  faces : Faces (d.footing True True numbered) d.known d.globalScope s.control s'.control
  tied : E s.cargo s'.cargo

theorem Beside.outside {d : Draft α} {numbered : Prop} {E : Cargo σ α → Cargo σ' α → Prop}
    {s : Session σ α} {s' : Session σ' α} (h : Beside d numbered E s s') :
    Outside E s.cargo s'.cargo :=
  ⟨h.left.building, h.right.building, h.tied⟩

/-! ### Settings -/

def Setting.level (t : Setting σ α) (fuel : Nat) : Context σ α := t.contextAt fuel (t.expand fuel)

/-- A setting that expands the grammar by the usual rules, with or without reuse. -/
structure Setting.Runs (t : Setting σ α) (g : Grammar α) : Prop where
  grammar : t.grammar = g
  environment : t.environment = Session.environmentAt
  own : t.strategy.ownCoordinates = true

theorem Setting.Runs.keeps {t : Setting σ α} {g : Grammar α} (h : t.Runs g) (fuel : Nat) :
    (t.environment fuel).Keeps := by
  rw [h.environment]
  exact Session.environmentAt_keeps fuel

theorem Setting.Runs.level {t : Setting σ α} {g : Grammar α} (h : t.Runs g) (fuel : Nat) :
    (t.level fuel).Runs fuel where
  keeps := ⟨h.keeps fuel, Setting.expand_keeps h.keeps fuel⟩
  env := congrFun h.environment fuel
  own := h.own

def Instance.Suits (g : Grammar α) (i : Instance α) : Prop :=
  ∀ (index : Nat) (shape : Shape α), i.shape = some index → g.shapes[index]? = some shape →
    i.params.length = shape.params.length

/-! ### Shapes -/

section Shapes

variable {d : Draft α} {g : Grammar α} {numbered : Prop} {E : Cargo σ α → Cargo σ' α → Prop}
  {c : Context σ α} {c' : Context σ' α} {k : Known α} {scope : Scope}

abbrev Along (d : Draft α) (numbered : Prop) (E : Cargo σ α → Cargo σ' α → Prop) (k : Known α)
    (scope : Scope) : Session σ α → Session σ' α → Prop :=
  Abreast (d.footing True True numbered) (Outside E) k scope

theorem Ties.consult (h : Ties d c.renderer c'.renderer E) (i : Instance α) :
    InStep (Abreast.parting (Outside E)) (Along d numbered E k scope) Eq (c.consult i)
      (c'.consult i) := by
  refine Abreast.kept (c.keeps_consult i) (c'.keeps_consult i) fun s s' hs => ?_
  have depth : s.depth = s'.depth := (hs.sees.same trivial).depth
  obtain ⟨verdict, tied⟩ := h.cutoff _ _ i (s.depth + 1) hs.cargo.tied
  simp only [Context.consult, ← depth]
  simp only [Session.cargo] at verdict tied
  generalize c.renderer.cutoff i (s.depth + 1) s.renderer = answer at verdict tied ⊢
  generalize c'.renderer.cutoff i (s.depth + 1) s'.renderer = answer' at verdict tied ⊢
  obtain ⟨v, r⟩ := answer
  obtain ⟨v', r'⟩ := answer'
  cases verdict
  cases v with
  | expand => exact .ok rfl ⟨hs.cargo.left, hs.cargo.right, tied⟩
  | skip => exact .ok rfl ⟨hs.cargo.left, hs.cargo.right, tied⟩
  | abort => exact .together ⟨rfl, hs.cargo.left, hs.cargo.right, tied⟩

theorem Ties.selectRule (h : Ties d c.renderer c'.renderer E) (shape : Shape α) :
    InStep (Abreast.parting (Outside E)) (Along d numbered E k scope)
      (fun rule rule' => rule = rule' ∧ ∃ j : Nat, shape.rules[j]? = some rule)
      (Context.selectRule shape : Action σ α (Rule α))
      (Context.selectRule shape : Action σ' α (Rule α)) := by
  unfold Context.selectRule
  split
  · exact Abreast.fail _
  case h_2 only single => exact Leads.pure ⟨rfl, 0, by rw [single]; rfl⟩
  · refine Leads.bind Leads.state fun s s' hs => ?_
    have random : s.random = s'.random := h.random _ _ hs.cargo.tied
    simp only [random]
    refine Leads.andThen (Q := Along d numbered E k scope) (Leads.update fun t t' ht => ?_)
      fun _ => ?_
    · exact ⟨ht.sees, ht.cargo.left, ht.cargo.right, h.draw _ _ _ ht.cargo.tied⟩
    · split
      case h_1 rule found =>
        obtain ⟨j, -, hj⟩ := Option.bind_eq_some_iff.mp found
        exact Leads.pure ⟨rfl, j, hj⟩
      case h_2 => exact Abreast.fail _

/-- A rule that begins sees the globals, the same on both sides. -/
theorem Ties.beside (h : Ties d c.renderer c'.renderer E) (charts : d.known.Charts d.globalScope)
    {s : Session σ α} {s' : Session σ' α} (hs : Along d numbered E k scope s s') :
    Beside d numbered E { s with view := .rule s.stack.height (some s.globalsEnd) }
      { s' with view := .rule s'.stack.height (some s'.globalsEnd) } := by
  obtain ⟨based, based', globalsEnd⟩ := hs.sees.based trivial
  obtain ⟨sound, sound'⟩ := h.sound _ _ hs.cargo.tied
  have left : Session.AtRule d { s with view := .rule s.stack.height (some s.globalsEnd) } :=
    ⟨rfl, ⟨based.below, based.known⟩, sound, hs.cargo.left⟩
  have right : Session.AtRule d { s' with view := .rule s'.stack.height (some s'.globalsEnd) } :=
    ⟨rfl, ⟨based'.below, based'.known⟩, sound', hs.cargo.right⟩
  have same := hs.sees.same trivial
  refine ⟨left, right, ?_, hs.cargo.tied⟩
  exact {
    charts := charts
    left := left.seen
    right := right.seen
    same := fun _ => ⟨same.slots, same.frames, by
      have height : s.stack.height = s'.stack.height := congrArg Array.size same.slots
      have globalsEnd : s.globalsEnd = s'.globalsEnd := globalsEnd
      simp only [Session.control, height, globalsEnd], same.depth⟩
    agree := fun fixed => absurd trivial fixed
    numbered := hs.sees.numbered
    based := fun _ => ⟨left.based, right.based, globalsEnd⟩ }

/-- How the path of a rule is come by and drawn on two sides. -/
def PathsTied (d : Draft α) (g : Grammar α) (numbered : Prop) (E : Cargo σ α → Cargo σ' α → Prop)
    (c : Context σ α) (c' : Context σ' α) : Prop :=
  ∀ (i j : Nat) (shape : Shape α) (rule : Rule α) (b : Body α), g.shapes[i]? = some shape →
    shape.rules[j]? = some rule → d.RuleOf i j shape rule b → shape.isPath = true →
    ∀ x : Instance α, x.params.length = rule.body.params.length →
      Leads (Abreast.parting (Outside E)) (Beside d numbered E)
        (fun s s' => Outside E s.cargo s'.cargo) Eq (c.pathRule rule (c.enterBody rule.body) x)
        (c'.pathRule rule (c'.enterBody rule.body) x)

structure Accord (d : Draft α) (g : Grammar α) (numbered : Prop) (E : Cargo σ α → Cargo σ' α → Prop)
    (c : Context σ α) (c' : Context σ' α) (n m : Nat) : Prop where
  loads : d.Loads g
  charts : d.known.Charts d.globalScope
  ties : Ties d c.renderer c'.renderer E
  runs : c.Runs n
  runs' : c'.Runs m
  fuel : n ≤ m
  grammar : c.grammar = g
  grammar' : c'.grammar = g
  expand : ∀ i k scope, i.Suits g →
    InStep (Abreast.parting (Outside E)) (Along d numbered E k scope) Eq (c.expand i) (c'.expand i)
  path : PathsTied d g numbered E c c'

variable {n m : Nat}

theorem Accord.replace (h : Accord d g numbered E c c' n m) (head : Head α) (parent : Instance α) :
    InStep (Abreast.parting (Outside E)) (Along d numbered E k scope) Eq (c.replace head parent)
      (c'.replace head parent) := by
  have env : Env.InStep (Abreast.parting (Outside E)) (Along d numbered E k scope) True
      scope.isFixed (Session.environmentAt n) (Session.environmentAt m) :=
    Abreast.environmentAt (h.ties.outside True numbered) h.fuel
  rw [← h.runs.env, ← h.runs'.env] at env
  refine Context.replace_inStep env.free head (fun _ _ => trivial) (fun _ _ _ _ => trivial)
    (h.grammar.trans h.grammar'.symm) (fun _ _ _ _ hs => ⟨rfl, hs.cargo⟩) ?_ ?_ parent
  · intro p _ i
    refine Leads.andThen (h.ties.consult i) fun drawn => ?_
    split
    · exact Leads.update fun s s' hs =>
        ⟨hs.sees, hs.cargo.left, hs.cargo.right, h.ties.primitive _ _ i p hs.cargo.tied⟩
    · exact Leads.pure rfl
  · intro index shape _ found i hi length
    refine h.expand i k scope fun index' shape' hi' found' => ?_
    rw [hi] at hi'
    cases hi'
    rw [h.grammar, found'] at found
    cases found
    exact length

theorem Accord.rule (h : Accord d g numbered E c c' n m) {i j : Nat} {shape : Shape α}
    {rule : Rule α} (hs : g.shapes[i]? = some shape) (hr : shape.rules[j]? = some rule)
    (x : Instance α) (hx : x.params.length = shape.params.length) :
    InStep (Abreast.parting (Outside E)) (Along d numbered E k scope) Eq
      (c.rule shape rule (c.enterBody rule.body) x)
      (c'.rule shape rule (c'.enterBody rule.body) x) := by
  obtain ⟨b, of⟩ := Draft.build_rule h.loads.drafted h.loads.built hs hr
  refine Abreast.kept (Context.keeps_rule c shape rule (h.runs.keeps.enterBody rule.body) x)
    (Context.keeps_rule c' shape rule (h.runs'.keeps.enterBody rule.body) x) fun s s' along => ?_
  have inside : Leads (Abreast.parting (Outside E)) (Beside d numbered E)
      (fun s s' => Outside E s.cargo s'.cargo) Eq
      (if shape.isPath then c.pathRule rule (c.enterBody rule.body) x
        else c.enterBody rule.body x true x.params)
      (if shape.isPath then c'.pathRule rule (c'.enterBody rule.body) x
        else c'.enterBody rule.body x true x.params) := by
    cases kind : shape.isPath with
    | true => exact h.path i j shape rule b hs hr of kind x (hx.trans (of.length_params))
    | false =>
      have paired := h.runs.paired h.runs' h.fuel (f := d.footing True True numbered)
        (D := Outside E) fun _ _ _ head parent => h.replace head parent
      have sited := of.sited h.loads.clear (f := d.footing True True numbered) rfl (.inl trivial)
        (.inl trivial)
      have body := paired.enterBody (h.ties.outside True numbered) sited x true
        (.refl _ false x.params)
      rw [← of.body] at body
      exact fun t t' ht => body t t' ⟨ht.faces, ht.outside⟩
  -- the view is that of the session on the way in, so both sessions are fixed here
  refine Leads.wrap (P := fun t t' => t = s ∧ t' = s') inside (Action.wraps_underView _ _)
    (Action.wraps_underView _ _) ?_ (fun _ _ _ _ _ ht => ht) (fun _ _ _ _ _ _ _ parted => parted)
    (fun _ => id) s s' ⟨rfl, rfl⟩
  rintro _ _ ⟨rfl, rfl⟩
  exact h.ties.beside h.charts along

theorem Accord.expandShape (h : Accord d g numbered E c c' n m) (x : Instance α) (hx : x.Suits g) :
    InStep (Abreast.parting (Outside E)) (Along d numbered E k scope) Eq (c.expandShape x)
      (c'.expandShape x) := by
  unfold Context.expandShape
  split
  · exact Abreast.fail _
  case h_2 index hindex =>
    rw [h.grammar, h.grammar']
    split
    · exact Abreast.fail _
    case h_2 shape found =>
      have rule : InStep (Abreast.parting (Outside E)) (Along d numbered E k scope) Eq
          (Context.selectRule shape >>= fun rule => c.rule shape rule (c.enterBody rule.body) x)
          (Context.selectRule shape >>= fun rule =>
            c'.rule shape rule (c'.enterBody rule.body) x) := by
        refine Leads.bind (h.ties.selectRule shape) ?_
        rintro rule _ ⟨rfl, j, hj⟩
        exact h.rule found hj x (hx index shape hindex found)
      refine Leads.andThen (h.ties.consult x) fun drawn => ?_
      split
      · refine Abreast.kept ?_ ?_ (Leads.wrap rule (Action.wraps_deeper _)
          (Action.wraps_deeper _) ?_ (fun _ _ _ _ _ ht => ht.cargo)
          (fun _ _ _ _ _ _ _ parted => parted) fun _ => id)
        · exact Action.keeps_deeper ((Context.keeps_selectRule shape).bind fun rule =>
            Context.keeps_rule c shape rule (h.runs.keeps.enterBody rule.body) x)
        · exact Action.keeps_deeper ((Context.keeps_selectRule shape).bind fun rule =>
            Context.keeps_rule c' shape rule (h.runs'.keeps.enterBody rule.body) x)
        · exact fun s s' hs => ⟨hs.sees.deeper, hs.cargo⟩
      · exact Leads.pure rfl

end Shapes

/-! ### Runs -/

theorem Draft.Loads.root_suits {d : Draft α} {g : Grammar α} (loads : d.Loads g) {start : Nat}
    {shape : Shape α} (found : g.shapes[start]? = some shape)
    (arguments : shape.params.length = 0) :
    (Instance.root shape.index : Instance α).Suits g := by
  intro index other hindex found'
  cases hindex
  rw [Draft.build_index loads.drafted loads.built found, found] at found'
  cases found'
  exact arguments.symm

theorem Session.AtRest.faces {d : Draft α} {numbered : Prop} {s : Session σ α} {s' : Session σ' α}
    (hs : s.AtRest) (hs' : s'.AtRest) (sessions : numbered → s.stack.session = s'.stack.session)
    {random random' : Random} :
    Faces (d.footing True False numbered) [] []
      { s with random := random, view := .full : Session σ α }.control
      { s' with random := random', view := .full : Session σ' α }.control where
  charts := .nil
  left := by
    refine ⟨?_, .full⟩
    simp only [Session.control, Stack.visible, Stack.window, Position.within, Stack.height,
      hs.slots]
    exact .nil
  right := by
    refine ⟨?_, .full⟩
    simp only [Session.control, Stack.visible, Stack.window, Position.within, Stack.height,
      hs'.slots]
    exact .nil
  same _ := ⟨hs.slots.trans hs'.slots.symm, hs.frames.trans hs'.frames.symm, rfl,
    hs.depth.trans hs'.depth.symm⟩
  agree fixed := absurd trivial fixed
  numbered := sessions
  based := False.elim

namespace Setting

variable {d : Draft α} {g : Grammar α} {numbered : Prop} {E : Cargo σ α → Cargo σ' α → Prop}
  {t : Setting σ α} {t' : Setting σ' α}

omit [Scalar α] in
theorem startRandom_eq (options : t.options = t'.options) (name : String) :
    t.startRandom name = t'.startRandom name := by
  unfold startRandom
  rw [options]

def ready (t : Setting σ α) (shape : Shape α) (s : Session σ α) : Session σ α :=
  { s with
    random := t.startRandom shape.name
    view := .full
    stack := s.stack.pushFrame }

/-- Once the globals are complete, they are all there is on the stack. -/
theorem based_globals {s : Session σ α} {s' : Session σ' α}
    (h : Sees (d.footing True False numbered) d.known d.globalScope s.control s'.control)
    (full : s.view = .full) (full' : s'.view = .full) :
    Sees (d.footing True True numbered) d.known d.globalScope
      { s.control with globalsEnd := s.stack.height }
      { s'.control with globalsEnd := s'.stack.height } where
  charts := h.charts
  left := ⟨h.left.known, h.left.view⟩
  right := ⟨h.right.known, h.right.view⟩
  same free := ⟨(h.same free).slots, (h.same free).frames, (h.same free).view, (h.same free).depth⟩
  agree fixed := absurd trivial fixed
  numbered := h.numbered
  based _ := by
    have left := h.left.known
    have right := h.right.known
    simp only [Session.control, full, full'] at left right
    exact ⟨⟨Nat.le_refl _, left⟩, ⟨Nat.le_refl _, right⟩,
      congrArg Array.size (h.same trivial).slots⟩
  framed := h.framed

/-- The globals are bound in a view that shows the whole stack. -/
theorem Runs.globals_view (runs : t.Runs g) (n : Nat) (start : Instance α) {s : Session σ α}
    (full : s.view = .full) :
    (((t.level n).runAll g.globals.statements start true).run s).Ends
      (fun u => u.view = .full) fun _ _ => True := by
  have ends := (runs.level n).keeps.runAll g.globals.statements start true s
  generalize ((t.level n).runAll g.globals.statements start true).run s = o at ends ⊢
  cases o with
  | ok b u =>
    obtain ⟨extra, -, control⟩ := ends
    exact (congrArg Control.view control).trans full
  | failed e u => trivial

structure Matched (d : Draft α) (g : Grammar α) (numbered : Prop)
    (E : Cargo σ α → Cargo σ' α → Prop) (t : Setting σ α) (t' : Setting σ' α)
    (fuel extra : Nat) : Prop where
  loads : d.Loads g
  runs : t.Runs g
  runs' : t'.Runs g
  ties : Ties d t.renderer t'.renderer E
  path : d.known.Charts d.globalScope → ∀ n, n < fuel →
    PathsTied d g numbered E (t.level n) (t'.level (extra + n))

namespace Matched

variable {fuel extra : Nat} {s : Session σ α} {s' : Session σ' α}

theorem accord_of (h : Matched d g numbered E t t' fuel extra)
    (charts : d.known.Charts d.globalScope) {n : Nat} (hn : n < fuel)
    (expand : ∀ i k scope, i.Suits g → InStep (Abreast.parting (Outside E))
      (Along d numbered E k scope) Eq (t.expand n i) (t'.expand (extra + n) i)) :
    Accord d g numbered E (t.level n) (t'.level (extra + n)) n (extra + n) where
  loads := h.loads
  charts := charts
  ties := h.ties
  runs := h.runs.level n
  runs' := h.runs'.level (extra + n)
  fuel := Nat.le_add_left n extra
  grammar := h.runs.grammar
  grammar' := h.runs'.grammar
  expand := expand
  path := h.path charts n hn

theorem expand (h : Matched d g numbered E t t' fuel extra)
    (charts : d.known.Charts d.globalScope) {n : Nat} (hn : n ≤ fuel) (x : Instance α)
    (k : Known α) (scope : Scope) (hx : x.Suits g) :
    InStep (Abreast.parting (Outside E)) (Along d numbered E k scope) Eq (t.expand n x)
      (t'.expand (extra + n) x) := by
  induction n generalizing x k scope with
  | zero => exact Leads.failAlone rfl
  | succ n ih => exact (h.accord_of charts hn (ih (Nat.le_of_succ_le hn))).expandShape x hx

/-- Every level expands shapes alike on both sides. -/
theorem accord (h : Matched d g numbered E t t' fuel extra)
    (charts : d.known.Charts d.globalScope) {n : Nat} (hn : n < fuel) :
    Accord d g numbered E (t.level n) (t'.level (extra + n)) n (extra + n) :=
  h.accord_of charts hn (h.expand charts (Nat.le_of_lt hn))

theorem ready (h : Matched d g numbered E t t' fuel extra) (options : t.options = t'.options)
    (rest : s.AtRest) (rest' : s'.AtRest) (sessions : numbered → s.stack.session = s'.stack.session)
    (tied : E s.cargo s'.cargo) (shape : Shape α) :
    Abreast (d.footing True False numbered) (Outside E) [] [] (t.ready shape s)
      (t'.ready shape s') := by
  have drawn := h.ties.draw _ _ (t'.startRandom shape.name) tied
  have faces : Faces (d.footing True False numbered) [] []
      { s with random := t.startRandom shape.name, view := .full : Session σ α }.control
      { s' with random := t'.startRandom shape.name, view := .full : Session σ' α }.control :=
    rest.faces rest' sessions
  refine ⟨.pushFrame faces, rest.building, rest'.building, ?_⟩
  simp only [Session.cargo, Setting.ready, startRandom_eq options]
  exact drawn

theorem globals (h : Matched d g numbered E t t' fuel extra) (start : Instance α) :
    Leads (Abreast.parting (Outside E))
      (fun s s' => Abreast (d.footing True False numbered) (Outside E) [] [] s s' ∧
        s.view = .full ∧ s'.view = .full)
      (fun s s' => Abreast (d.footing True False numbered) (Outside E) d.known d.globalScope s s' ∧
        s.view = .full ∧ s'.view = .full) Eq
      ((t.level fuel).runAll g.globals.statements start true)
      ((t'.level (extra + fuel)).runAll g.globals.statements start true) := by
  have paired := (h.runs.level fuel).paired (h.runs'.level (extra + fuel))
    (Nat.le_add_left fuel extra) (f := d.footing True False numbered) (D := Outside E) False.elim
  have globals := paired.runGlobals (h.ties.outside False numbered) [] [] (i := 0) h.loads.defines
    h.loads.globals_clear (by simp [Draft.footing, Draft.values]) start true
  rw [← h.loads.globals] at globals
  exact (globals.weaken (.refl _) (fun s s'
    (hs : Abreast (d.footing True False numbered) (Outside E) [] [] s s' ∧ s.view = .full ∧
      s'.view = .full) => hs.1) fun _ _ => id).and_ends
      (fun _ _ hs => h.runs.globals_view fuel start hs.2.1)
      fun _ _ hs => h.runs'.globals_view (extra + fuel) start hs.2.2

theorem runFrom (h : Matched d g numbered E t t' fuel extra) (start : Shape α)
    (hstart : (Instance.root start.index : Instance α).Suits g) :
    Leads (Abreast.parting (Outside E))
      (fun s s' => Abreast (d.footing True False numbered) (Outside E) [] [] s s' ∧
        s.view = .full ∧ s'.view = .full)
      (fun s s' => Outside E s.cargo s'.cargo) Eq (t.runFrom fuel start)
      (t'.runFrom (extra + fuel) start) := by
  unfold Setting.runFrom
  rw [h.runs.grammar, h.runs'.grammar]
  refine Leads.andThen (h.globals (.root start.index)) fun _ =>
    Leads.bind Leads.state fun s s' hs => ?_
  have size : s.stack.frameSize = s'.stack.frameSize := hs.1.sees.framed.frameSize
  have charts : d.known.Charts d.globalScope := hs.1.sees.charts
  simp only [size]
  split
  · exact Leads.fail fun _ _ ht => ⟨rfl, ht.1.cargo⟩
  · refine Leads.andThen (Q := Along d numbered E d.known d.globalScope)
      (Leads.update fun u u' hu => ?_) fun _ => ?_
    · exact ⟨based_globals hu.1.sees hu.2.1 hu.2.2, hu.1.cargo⟩
    · exact (h.expand charts (Nat.le_refl fuel) _ _ _ hstart).weaken (.refl _) (fun _ _ => id)
        fun _ _ ht => ht.cargo

theorem run (h : Matched d g numbered E t t' fuel extra) (options : t.options = t'.options)
    (start : Nat) (rest : s.AtRest) (rest' : s'.AtRest)
    (sessions : numbered → s.stack.session = s'.stack.session) (tied : E s.cargo s'.cargo) :
    Meets (Abreast.parting (Outside E)) (fun u u' => Outside E u.cargo u'.cargo) Eq
      ((t.run fuel start).run s) ((t'.run (extra + fuel) start).run s') := by
  have outside : Outside E s.cargo s'.cargo := ⟨rest.building, rest'.building, tied⟩
  unfold Setting.run
  rw [h.runs.grammar, h.runs'.grammar]
  split
  · exact .together ⟨rfl, outside⟩
  case h_2 shape found =>
    split
    · exact .together ⟨rfl, outside⟩
    case isFalse arguments =>
      have hstart := h.loads.root_suits found (Decidable.not_not.mp arguments)
      let begun : Session σ α := { s with random := t.startRandom shape.name, view := .full }
      let begun' : Session σ' α := { s' with random := t'.startRandom shape.name, view := .full }
      change Meets _ _ _ ((Action.inFrame (t.runFrom fuel shape)).run begun)
        ((Action.inFrame (t'.runFrom (extra + fuel) shape)).run begun')
      refine Leads.wrap (P := fun u u' => u = begun ∧ u' = begun') (h.runFrom shape hstart)
        (Action.wraps_inFrame (runFrom_stack h.runs.keeps fuel shape))
        (Action.wraps_inFrame (runFrom_stack h.runs'.keeps (extra + fuel) shape)) ?_
        (fun _ _ _ _ _ hu => hu) (fun _ _ _ _ _ _ _ parted => parted) (fun _ => id) _ _ ⟨rfl, rfl⟩
      rintro _ _ ⟨rfl, rfl⟩
      exact ⟨h.ready options rest rest' sessions tied shape, rfl, rfl⟩

end Matched

end Setting

end ShapeGrammar
