import ShapeGrammar.Proofs.Legacy

/-!
# The tasks of a run

A run calls for tasks, and these for others: shapes to expand, bodies to enter,
statements to carry out. Every task is reached with another session beside it, in
which the same is to be done with more fuel. So whatever holds of two such sessions
holds wherever a run may come.
-/

set_option autoImplicit false

namespace ShapeGrammar

open Attempt

variable {σ σ' α : Type}

/-- A part of a run, with shapes nested at most `fuel` deep. -/
inductive Task (α : Type) where
  | expand (fuel : Nat) (i : Instance α)
  | enter (fuel : Nat) (b : Body α) (i : Instance α) (follows : Bool) (seed : List (Value α))
  | runAll (fuel : Nat) (statements : List (Statement α)) (i : Instance α) (follows : Bool)
  | run (fuel : Nat) (st : Statement α) (i : Instance α) (follows : Bool)

variable [Scalar α]

namespace Context

def Takes (c : Context σ α) (i : Instance α) (s : Session σ α) (shape : Shape α) (rule : Rule α)
    (u : Session σ α) : Prop :=
  ∃ index v w, i.shape = some index ∧ c.grammar.shapes[index]? = some shape ∧
    (c.consult i).run s = .ok true v ∧
    (selectRule shape).run { v with depth := v.depth + 1 } = .ok rule w ∧
    u = { w with view := .rule w.stack.height (some w.globalsEnd) }

def Begets (c : Context σ α) (h : Head α) (parent : Instance α) (s : Session σ α)
    (child : Instance α) (u : Session σ α) : Prop :=
  ∃ index shape made values v, h.target = .shape index ∧
    c.grammar.shapes[index]? = some shape ∧ (c.adjust parent h.mods).run s = .ok made v ∧
    h.args.length = shape.params.length ∧
    (c.bindArgs shape.params h.args).run v = .ok values u ∧
    child = { made with shape := some index, params := values }

def Passes (c : Context σ α) (h : Head α) (spec : LoopSpec α) (body : Entering σ α)
    (parent : Instance α) (follows : Bool) (s : Session σ α) (range : LoopRange α) (done : Nat)
    (x : α) (running : Instance α) (u : Session σ α) : Prop :=
  ∃ v, (c.loopRange spec).run s = .ok range v ∧
    (c.passes h.mods range (fun i seed => body i (follows || spec.opsOnly) seed) done 0
      range.start (c.startFrom spec.opsOnly follows parent)).run v = .ok (x, running) u

def Replicates (c : Context σ α) (h : Head α) (spec : TransformSpec α) (parent : Instance α)
    (follows : Bool) (s : Session σ α) (base : Instance α) (replicas : List (Adjustment α))
    (u : Session σ α) : Prop :=
  ∃ v, (c.adjust (c.startFrom spec.opsOnly follows parent) h.mods).run s = .ok base v ∧
    (Symmetry.product c.env spec.generators).run v = .ok replicas u

end Context

namespace Setting

/-- What a task calls for next, and in which session. -/
inductive Calls (t : Setting σ α) : Task α → Session σ α → Task α → Session σ α → Prop
  | rule {n : Nat} {i : Instance α} {s u : Session σ α} {shape : Shape α} {rule : Rule α}
      (takes : (t.level n).Takes i s shape rule u) (plain : shape.isPath = false) :
      Calls t (.expand (n + 1) i) s (.enter n rule.body i true i.params) u
  /-- A path is built from the origin, unless it is kept. -/
  | path {n : Nat} {i : Instance α} {s u : Session σ α} {shape : Shape α} {rule : Rule α}
      (takes : (t.level n).Takes i s shape rule u) (isPath : shape.isPath = true)
      (closed : u.building = none)
      (missed : ∀ place, (t.level n).cellOf rule = some place → u.store.paths.lookup place = none) :
      Calls t (.expand (n + 1) i) s (.enter n rule.body (.root rule.shape) false i.params) u.opening
  | body {n : Nat} {b : Body α} {i : Instance α} {follows : Bool} {seed : List (Value α)}
      {s u : Session σ α} (count : seed.length = b.params.length)
      (bound : (Action.bindParams b.params seed).run { s with stack := s.stack.pushFrame } =
        .ok () u) :
      Calls t (.enter n b i follows seed) s (.runAll n b.statements i follows) u
  | head {n : Nat} {st : Statement α} {rest : List (Statement α)} {i : Instance α} {follows : Bool}
      {s : Session σ α} :
      Calls t (.runAll n (st :: rest) i follows) s (.run n st i follows) s
  | tail {n : Nat} {st : Statement α} {rest : List (Statement α)} {i : Instance α} {follows : Bool}
      {s u : Session σ α} (ran : ((t.level n).run st i follows).run s = .ok () u) :
      Calls t (.runAll n (st :: rest) i follows) s (.runAll n rest i follows) u
  | replace {n : Nat} {h : Head α} {i child : Instance α} {follows : Bool} {s u : Session σ α}
      (begets : (t.level n).Begets h i s child u) :
      Calls t (.run n (.replace h) i follows) s (.expand n child) u
  | pass {n : Nat} {h : Head α} {spec : LoopSpec α} {body last : Body α} {i running : Instance α}
      {follows : Bool} {s u : Session σ α} {range : LoopRange α} {done : Nat} {x : α}
      (passes : (t.level n).Passes h spec ((t.level n).enterBody body) i follows s range done x
        running u) (more : done < range.iterations) :
      Calls t (.run n (.loop h spec body last) i follows) s
        (.enter n body running (follows || spec.opsOnly) [.number (range.value done)]) u
  | last {n : Nat} {h : Head α} {spec : LoopSpec α} {body last : Body α} {i running : Instance α}
      {follows : Bool} {s u : Session σ α} {range : LoopRange α} {x : α}
      (passes : (t.level n).Passes h spec ((t.level n).enterBody body) i follows s range
        range.iterations x running u) :
      Calls t (.run n (.loop h spec body last) i follows) s
        (.enter n last running (follows || spec.opsOnly) [.number x]) u
  | clone {n : Nat} {h : Head α} {spec : TransformSpec α} {body : Body α} {i base : Instance α}
      {follows : Bool} {s v u : Session σ α} {replicas done rest : List (Adjustment α)}
      {m : Adjustment α} (replicates : (t.level n).Replicates h spec i follows s base replicas v)
      (clone : spec.clone = true) (split : replicas = done ++ m :: rest)
      (ran : (Context.cloned v.random base (fun i =>
        (t.level n).enterBody body i (follows || spec.opsOnly) []) done).run v = .ok () u) :
      Calls t (.run n (.transform h spec body) i follows) s
        (.enter n body (base.apply m) (follows || spec.opsOnly) []) { u with random := v.random }
  | chain {n : Nat} {h : Head α} {spec : TransformSpec α} {body : Body α} {i base : Instance α}
      {follows : Bool} {s v u : Session σ α} {replicas done rest : List (Adjustment α)}
      {m : Adjustment α} (replicates : (t.level n).Replicates h spec i follows s base replicas v)
      (chain : spec.clone = false) (split : replicas = done ++ m :: rest)
      (ran : (Context.chained (fun i =>
        (t.level n).enterBody body i (follows || spec.opsOnly) []) base done).run v = .ok () u) :
      Calls t (.run n (.transform h spec body) i follows) s
        (.enter n body ((done.foldl Instance.apply base).apply m) (follows || spec.opsOnly) []) u
  | branch {n : Nat} {h : Head α} {cond : Expr α} {thenBody elseBody : Body α} {i : Instance α}
      {follows b : Bool} {s u : Session σ α} {v : Value α}
      (evaluated : ((t.level n).env.eval cond).run s = .ok v u) (truth : v.truth = .ok b) :
      Calls t (.run n (.branch h cond thenBody elseBody) i follows) s
        (.enter n (if b then thenBody else elseBody) i follows []) u
  | switch {n : Nat} {h : Head α} {selector : Expr α} {keys : List (Int × Nat)}
      {bodies : List (Body α)} {default : Body α} {i : Instance α} {follows : Bool}
      {s u : Session σ α} {key : Int}
      (selected : ((t.level n).selectKey selector).run s = .ok key u) :
      Calls t (.run n (.switch h selector keys bodies default) i follows) s
        (.enter n (Switch.case ⟨keys, bodies, default⟩ key) i follows []) u

/-- The tasks that a run comes to, each with the session in which it is taken up. -/
inductive Reaches (t : Setting σ α) (fuel start : Nat) (s : Session σ α) :
    Task α → Session σ α → Prop
  | globals {shape : Shape α} (found : t.grammar.shapes[start]? = some shape)
      (arguments : shape.params.length = 0) :
      Reaches t fuel start s (.runAll fuel t.grammar.globals.statements (.root shape.index) true)
        (t.ready shape s)
  | start {shape : Shape α} {u : Session σ α} (found : t.grammar.shapes[start]? = some shape)
      (arguments : shape.params.length = 0)
      (bound : ((t.level fuel).runAll t.grammar.globals.statements (.root shape.index) true).run
        (t.ready shape s) = .ok () u)
      (size : u.stack.frameSize = t.grammar.globals.slots) :
      Reaches t fuel start s (.expand fuel (.root shape.index))
        { u with globalsEnd := u.stack.height }
  | next {x y : Task α} {u v : Session σ α} (reached : Reaches t fuel start s x u)
      (calls : t.Calls x u y v) : Reaches t fuel start s y v

end Setting

/-! ### Where a task stands -/

inductive Stage where
  | shape
  | path

namespace Stage

def footing (d : Draft α) (numbered : Prop) : Stage → Footing α
  | .shape => d.footing True True numbered
  | .path => d.footing True False numbered

def carries (E : Cargo σ α → Cargo σ' α → Prop) : Stage → Cargo σ α → Cargo σ' α → Prop
  | .shape => Outside E
  | .path => Inside E

abbrev Sides (d : Draft α) (numbered : Prop) (E : Cargo σ α → Cargo σ' α → Prop) (k : Known α)
    (scope : Scope) (stage : Stage) : Session σ α → Session σ' α → Prop :=
  Abreast (stage.footing d numbered) (stage.carries E) k scope

variable {d : Draft α} {g : Grammar α} {numbered : Prop} {E : Cargo σ α → Cargo σ' α → Prop}
  {c : Context σ α} {c' : Context σ' α}

theorem free (stage : Stage) : (stage.footing d numbered).free := by
  cases stage <;> trivial

omit [Scalar α] in
theorem tied {stage : Stage} {a : Cargo σ α} {a' : Cargo σ' α} (h : stage.carries E a a') :
    E a a' := by
  cases stage with
  | shape => exact Outside.tied h
  | path => exact Inside.tied h

theorem bond (ties : Ties d c.renderer c'.renderer E) (stage : Stage) :
    Bond (stage.footing d numbered) (stage.carries E) := by
  cases stage with
  | shape => exact ties.outside True numbered
  | path => exact ties.inside False numbered

theorem paired {n m : Nat} (accord : Accord d g numbered E c c' n m) (stage : Stage) :
    Context.Paired (stage.footing d numbered) (stage.carries E) c c' := by
  refine accord.runs.paired accord.runs' accord.fuel ?_
  cases stage with
  | shape => exact fun _ _ _ head parent => accord.replace head parent
  | path => exact False.elim

end Stage

/-- A task at its place in the grammar, in a session with another beside it. -/
def Task.Stands (d : Draft α) (g : Grammar α) (numbered : Prop)
    (E : Cargo σ α → Cargo σ' α → Prop) (fuel : Nat) :
    Task α → Session σ α → Session σ' α → Prop
  | .expand n i, s, s' => n ≤ fuel ∧ i.Suits g ∧ ∃ k scope, Along d numbered E k scope s s'
  | .enter n b _ _ _, s, s' => n < fuel ∧ ∃ (stage : Stage) (k : Known α) (scope : Scope)
      (paramsFixed : Bool) (place : Address) (b₀ : Body α),
      b = b₀.resolve scope paramsFixed place ∧
      b₀.Sited (stage.footing d numbered) k scope paramsFixed place ∧
      Faces (stage.footing d numbered) k scope s.control s'.control ∧
      stage.carries E s.cargo s'.cargo
  | .runAll n statements _ _, s, s' => n < fuel ∧ ∃ (stage : Stage) (k : Known α) (scope : Scope)
      (place : Address) (j : Nat) (statements₀ : List (Statement α)),
      statements = Statement.resolveAll scope place j statements₀ ∧
      Statement.AllSited (stage.footing d numbered) k scope place j statements₀ ∧
      stage.Sides d numbered E k scope s s'
  | .run n st _ _, s, s' => n < fuel ∧ ∃ (stage : Stage) (k : Known α) (scope : Scope)
      (place : Address) (st₀ : Statement α), st = st₀.resolve scope place ∧
      st₀.Sited (stage.footing d numbered) k scope place ∧ stage.Sides d numbered E k scope s s'

theorem Attempt.of_bind_ok {ε ω β γ : Type} {x : Attempt ε ω β} {f : β → Attempt ε ω γ} {s t : ω}
    {c : γ} (ran : (x >>= f).run s = .ok c t) :
    ∃ b u, x.run s = .ok b u ∧ (f b).run u = .ok c t := by
  rw [run_bind] at ran
  cases hx : x.run s with
  | ok b u =>
    rw [hx] at ran
    exact ⟨b, u, rfl, ran⟩
  | failed e u =>
    rw [hx] at ran
    cases ran

theorem Attempt.Leads.of_ok {ε ε' ω ω' β β' : Type} {d : Parting ε ε' ω ω'} {P Q : ω → ω' → Prop}
    {same : β → β' → Prop} {x : Attempt ε ω β} {y : Attempt ε' ω' β'} (h : Leads d P Q same x y)
    {s : ω} {s' : ω'} (hs : P s s') {b : β} {t : ω} (ran : x.run s = .ok b t) :
    ∃ b' t', y.run s' = .ok b' t' ∧ same b b' ∧ Q t t' := by
  have meets := h s s' hs
  rw [ran] at meets
  generalize y.run s' = o at meets
  cases meets with
  | ok value state => exact ⟨_, _, rfl, value, state⟩

namespace Accord

variable {d : Draft α} {g : Grammar α} {numbered : Prop} {E : Cargo σ α → Cargo σ' α → Prop}
  {c : Context σ α} {c' : Context σ' α} {n m fuel : Nat} {k : Known α} {scope : Scope}
  {s u : Session σ α} {s' : Session σ' α}

theorem takes (h : Accord d g numbered E c c' n m) (along : Along d numbered E k scope s s')
    {i : Instance α} {shape : Shape α} {rule : Rule α} (took : c.Takes i s shape rule u) :
    ∃ (index j : Nat) (b : Body α) (u' : Session σ' α), d.RuleOf index j shape rule b ∧
      Beside d numbered E u u' := by
  obtain ⟨index, v, w, -, found, asked, selected, rfl⟩ := took
  rw [h.grammar] at found
  obtain ⟨_, v', -, rfl, along'⟩ := (h.ties.consult i).of_ok along asked
  have deeper : Along d numbered E k scope { v with depth := v.depth + 1 }
      { v' with depth := v'.depth + 1 } := ⟨along'.sees.deeper, along'.cargo⟩
  obtain ⟨_, w', -, ⟨rfl, j, at_⟩, along''⟩ := (h.ties.selectRule shape).of_ok deeper selected
  obtain ⟨b, of⟩ := Draft.build_rule h.loads.drafted h.loads.built found at_
  exact ⟨index, j, b, _, of, h.ties.beside h.charts along''⟩

theorem begins (h : Accord d g numbered E c c' n m) (hn : n < fuel)
    (along : Along d numbered E k scope s s') {i : Instance α} {shape : Shape α} {rule : Rule α}
    (took : c.Takes i s shape rule u) :
    ∃ u', (Task.enter n rule.body i true i.params).Stands d g numbered E fuel u u' := by
  obtain ⟨index, j, b, u', of, beside⟩ := h.takes along took
  have sited := of.sited h.loads.clear (f := d.footing True True numbered) rfl (.inl trivial)
    (.inl trivial)
  exact ⟨u', hn, .shape, d.known, d.globalScope, false, [index, j], b, of.body, sited,
    beside.faces, beside.outside⟩

theorem opens (h : Accord d g numbered E c c' n m) (hn : n < fuel)
    (along : Along d numbered E k scope s s') {i : Instance α} {shape : Shape α} {rule : Rule α}
    (took : c.Takes i s shape rule u) (isPath : shape.isPath = true) :
    ∃ u', (Task.enter n rule.body (.root rule.shape) false i.params).Stands d g numbered E fuel
      u.opening u' := by
  obtain ⟨index, j, b, u', of, beside⟩ := h.takes along took
  have sited := of.sited h.loads.clear (f := d.footing True False numbered) rfl (.inl trivial)
    (.inr (of.no_replacement h.loads.built isPath))
  exact ⟨u'.opening, hn, .path, d.known, d.globalScope, false, [index, j], b, of.body, sited,
    beside.faces.opening, rfl, h.ties.building _ _ _ _ beside.tied⟩

end Accord

namespace Stage

variable {d : Draft α} {g : Grammar α} {numbered : Prop} {E : Cargo σ α → Cargo σ' α → Prop}
  {c : Context σ α} {c' : Context σ' α} {n m fuel : Nat} {k : Known α} {scope : Scope}
  {s u : Session σ α} {s' : Session σ' α} {stage : Stage}

theorem answers (accord : Accord d g numbered E c c' n m) :
    Env.Answers (Abreast.parting (stage.carries E)) (stage.Sides d numbered E k scope)
      (fun _ => True) c.env c'.env :=
  ((stage.paired accord).env_inStep (stage.bond accord.ties)).answers.mono fun _ _ =>
    .inl stage.free

theorem enterBody (accord : Accord d g numbered E c c' n m) {b : Body α} {paramsFixed : Bool}
    {place : Address} (sited : b.Sited (stage.footing d numbered) k scope paramsFixed place)
    {i i' : Instance α} (same : i = i') (follows : Bool) (seed : List (Value α)) :
    InStep (Abreast.parting (stage.carries E)) (stage.Sides d numbered E k scope) Eq
      (c.enterBody (b.resolve scope paramsFixed place) i follows seed)
      (c'.enterBody (b.resolve scope paramsFixed place) i' follows seed) := by
  subst same
  refine Abreast.kept (accord.runs.keeps.enterBody _ i follows seed)
    (accord.runs'.keeps.enterBody _ i follows seed) fun _ _ abreast => ?_
  exact (stage.paired accord).enterBody (stage.bond accord.ties) sited i follows (.refl _ _ _) _ _
    ⟨abreast.sees.toFaces, abreast.cargo⟩

theorem enters (hn : n < fuel) {b : Body α} {paramsFixed : Bool} {place : Address}
    (sited : b.Sited (stage.footing d numbered) k scope paramsFixed place)
    (abreast : stage.Sides d numbered E k scope s s') {i : Instance α} {follows : Bool}
    {seed : List (Value α)} :
    (Task.enter n (b.resolve scope paramsFixed place) i follows seed).Stands d g numbered E fuel
      s s' :=
  ⟨hn, stage, k, scope, paramsFixed, place, b, rfl, sited, abreast.sees.toFaces, abreast.cargo⟩

theorem startFrom_eq (accord : Accord d g numbered E c c' n m) (opsOnly follows : Bool)
    (i : Instance α) : c.startFrom opsOnly follows i = c'.startFrom opsOnly follows i := by
  unfold Context.startFrom
  rw [accord.runs.own, accord.runs'.own]

theorem passes (accord : Accord d g numbered E c c' n m) {place : Address} {h : Head α}
    {spec : LoopSpec α} {body last : Body α}
    (parts : Statement.LoopSited (stage.footing d numbered) k scope place h spec body last)
    (abreast : stage.Sides d numbered E k scope s s') {i running : Instance α} {follows : Bool}
    {range : LoopRange α} {done : Nat} {x : α}
    (ran : c.Passes h spec (c.enterBody (body.resolve scope
      (spec.range.isConstantIn scope.isFixed) (place ++ [0]))) i follows s range done x running u) :
    ∃ u', stage.Sides d numbered E k scope u u' := by
  obtain ⟨v, ranged, passed⟩ := ran
  obtain ⟨_, v', -, rfl, abreast'⟩ := ((stage.paired accord).loopRange (stage.bond accord.ties)
    parts.folded parts.range).of_ok abreast ranged
  obtain ⟨_, u', -, -, abreast''⟩ := (Context.passes_across .eq (answers accord) h.mods
    (fun _ _ => trivial) range (fun _ _ same x => enterBody accord parts.body same _ [.number x])
    done 0 range.start (startFrom_eq accord spec.opsOnly follows i)).of_ok abreast' passed
  exact ⟨u', abreast''⟩

theorem replicates (accord : Accord d g numbered E c c' n m)
    (abreast : stage.Sides d numbered E k scope s s') {h : Head α} {spec : TransformSpec α}
    {i base : Instance α} {follows : Bool} {replicas : List (Adjustment α)}
    (ran : c.Replicates h spec i follows s base replicas u) :
    ∃ u', stage.Sides d numbered E k scope u u' := by
  obtain ⟨v, adjusted, multiplied⟩ := ran
  obtain ⟨_, v', -, -, abreast'⟩ := (Context.adjust_across .eq (answers accord)
    (startFrom_eq accord spec.opsOnly follows i) h.mods fun _ _ => trivial).of_ok abreast adjusted
  obtain ⟨_, u', -, -, abreast''⟩ := ((answers accord).productFrom spec.generators
    (fun _ _ _ _ => trivial) _).of_ok abreast' multiplied
  exact ⟨u', abreast''⟩

theorem restores (accord : Accord d g numbered E c c' n m) {v : Session σ α} {v' u' : Session σ' α}
    (saved : stage.Sides d numbered E k scope v v')
    (abreast : stage.Sides d numbered E k scope u u') :
    stage.Sides d numbered E k scope { u with random := v.random }
      { u' with random := v'.random } :=
  have bond : Bond (stage.footing d numbered) (stage.carries E) := stage.bond accord.ties
  ⟨abreast.sees, bond.restore _ _ _ _ abreast.cargo saved.cargo⟩

theorem cloned (accord : Accord d g numbered E c c' n m) {place : Address} {body : Body α}
    (sited : body.Sited (stage.footing d numbered) k scope false place)
    {v : Session σ α} {v' : Session σ' α}
    (abreast : stage.Sides d numbered E k scope v v')
    {base : Instance α} {inner : Bool} {done : List (Adjustment α)}
    (ran : (Context.cloned v.random base (fun i =>
      c.enterBody (body.resolve scope false place) i inner []) done).run v = .ok () u) :
    ∃ u', stage.Sides d numbered E k scope { u with random := v.random } u' := by
  obtain ⟨_, u', -, -, abreast'⟩ := (Context.cloned_across .eq (rfl : base = base)
    (fun _ _ => restores accord abreast)
    (fun _ _ same => enterBody accord sited same inner []) done).of_ok abreast ran
  exact ⟨_, restores accord abreast abreast'⟩

theorem chained (accord : Accord d g numbered E c c' n m) {place : Address} {body : Body α}
    (sited : body.Sited (stage.footing d numbered) k scope false place)
    (abreast : stage.Sides d numbered E k scope s s')
    {base : Instance α} {inner : Bool} {done : List (Adjustment α)}
    (ran : (Context.chained (fun i =>
      c.enterBody (body.resolve scope false place) i inner []) base done).run s = .ok () u) :
    ∃ u', stage.Sides d numbered E k scope u u' := by
  obtain ⟨_, u', -, -, abreast'⟩ := (Context.chained_across .eq
    (fun _ _ same => enterBody accord sited same inner []) (rfl : base = base) done).of_ok
    abreast ran
  exact ⟨u', abreast'⟩

/-- Only a body that draws has a child. -/
theorem begets (accord : Accord d g numbered E c c' n m) (hn : n < fuel) {place : Address}
    {h : Head α} (sited : Statement.Sited (stage.footing d numbered) k scope place (.replace h))
    (abreast : stage.Sides d numbered E k scope s s')
    {i child : Instance α} (ran : c.Begets h i s child u) :
    ∃ u', (Task.expand n child).Stands d g numbered E fuel u u' := by
  obtain ⟨index, shape, made, values, v, target, found, adjusted, length, bound, rfl⟩ := ran
  obtain ⟨_, v', -, rfl, abreast'⟩ := (Context.adjust_inStep (answers accord) i h.mods
    fun _ _ => trivial).of_ok abreast adjusted
  obtain ⟨_, u', -, ⟨rfl, count⟩, abreast''⟩ := (Context.bindArgs_inStep (answers accord)
    shape.params h.args (fun _ _ _ _ => trivial) length).of_ok abreast' bound
  have suits : Instance.Suits g { made with shape := some index, params := values } := by
    intro other shape' same found'
    cases same
    rw [accord.grammar, found'] at found
    cases found
    exact count
  cases stage with
  | shape => exact ⟨u', Nat.le_of_lt hn, suits, k, scope, abreast''⟩
  | path =>
    rcases sited.draws with draws | none
    · exact draws.elim
    · simp [Statement.yield, target] at none

end Stage

/-! ### One step -/

namespace Setting.Matched

variable {d : Draft α} {g : Grammar α} {numbered : Prop} {E : Cargo σ α → Cargo σ' α → Prop}
  {t : Setting σ α} {t' : Setting σ' α} {fuel extra : Nat}

/-- What a task calls for stands where the task leads to. -/
theorem step (h : Matched d g numbered E t t' fuel extra) (charts : d.known.Charts d.globalScope)
    {x y : Task α} {s u : Session σ α} {s' : Session σ' α}
    (stands : x.Stands d g numbered E fuel s s') (calls : t.Calls x s y u) :
    ∃ u', y.Stands d g numbered E fuel u u' := by
  -- A task is at a resolved statement or body. What this was resolved from is found again
  -- first, and then both sessions are taken to where the call is made.
  cases calls with
  | rule takes =>
    obtain ⟨hn, -, k, scope, along⟩ := stands
    exact (h.accord charts hn).begins hn along takes
  | path takes isPath =>
    obtain ⟨hn, -, k, scope, along⟩ := stands
    exact (h.accord charts hn).opens hn along takes isPath
  | body count bound =>
    obtain ⟨hn, stage, k, scope, fixed, place, ⟨statements, params, slots⟩, rfl, sited, faces,
      cargo⟩ := stands
    rw [Body.resolve] at count bound ⊢
    have bindParams : Leads (Abreast.parting (stage.carries E)) (stage.Sides d numbered E k scope)
        (stage.Sides d numbered E (k.bind params) (scope.bind fixed params)) Eq _ _ :=
      Abreast.bindParams count count fun _ => rfl
    have entered : stage.Sides d numbered E k scope { s with stack := s.stack.pushFrame }
        { s' with stack := s'.stack.pushFrame } := ⟨.pushFrame faces, cargo⟩
    obtain ⟨_, u', -, -, abreast⟩ := bindParams.of_ok entered bound
    exact ⟨u', hn, stage, _, _, place, 0, statements, rfl, sited.statements, abreast⟩
  | head =>
    obtain ⟨hn, stage, k, scope, place, j, statements, same, sited, abreast⟩ := stands
    cases statements with
    | nil => cases same
    | cons st₀ rest₀ =>
      rw [Statement.resolveAll] at same
      cases same
      exact ⟨s', hn, stage, k, scope, place ++ [j], st₀, rfl, sited.head, abreast⟩
  | tail ran =>
    obtain ⟨hn, stage, k, scope, place, j, statements, same, sited, abreast⟩ := stands
    cases statements with
    | nil => cases same
    | cons st₀ rest₀ =>
      rw [Statement.resolveAll] at same
      cases same
      have accord := h.accord charts hn
      obtain ⟨_, u', -, -, abreast'⟩ := ((stage.paired accord).run (stage.bond accord.ties) st₀ k
        scope _ sited.head _ _).of_ok abreast ran
      exact ⟨u', hn, stage, _, _, place, j + 1, rest₀, rfl, sited.tail, abreast'⟩
  | replace begets =>
    obtain ⟨hn, stage, k, scope, place, st₀, same, sited, abreast⟩ := stands
    cases st₀ <;> rw [Statement.resolve] at same <;> cases same
    exact Stage.begets (h.accord charts hn) hn sited abreast begets
  | pass passes more =>
    obtain ⟨hn, stage, k, scope, place, st₀, same, sited, abreast⟩ := stands
    cases st₀ <;> rw [Statement.resolve] at same <;> cases same
    obtain ⟨u', abreast'⟩ := Stage.passes (h.accord charts hn) sited.loop abreast passes
    exact ⟨u', Stage.enters hn sited.loop.body abreast'⟩
  | last passes =>
    obtain ⟨hn, stage, k, scope, place, st₀, same, sited, abreast⟩ := stands
    cases st₀ <;> rw [Statement.resolve] at same <;> cases same
    obtain ⟨u', abreast'⟩ := Stage.passes (h.accord charts hn) sited.loop abreast passes
    exact ⟨u', Stage.enters hn sited.loop.last abreast'⟩
  | clone replicates clone split ran =>
    obtain ⟨hn, stage, k, scope, place, st₀, same, sited, abreast⟩ := stands
    cases st₀ <;> rw [Statement.resolve] at same <;> cases same
    have accord := h.accord charts hn
    obtain ⟨v', saved⟩ := Stage.replicates accord abreast replicates
    obtain ⟨u', abreast'⟩ := Stage.cloned accord sited.transform.body saved ran
    exact ⟨u', Stage.enters hn sited.transform.body abreast'⟩
  | chain replicates chain split ran =>
    obtain ⟨hn, stage, k, scope, place, st₀, same, sited, abreast⟩ := stands
    cases st₀ <;> rw [Statement.resolve] at same <;> cases same
    have accord := h.accord charts hn
    obtain ⟨v', saved⟩ := Stage.replicates accord abreast replicates
    obtain ⟨u', abreast'⟩ := Stage.chained accord sited.transform.body saved ran
    exact ⟨u', Stage.enters hn sited.transform.body abreast'⟩
  | @branch _ _ _ _ _ _ _ b _ _ _ evaluated =>
    obtain ⟨hn, stage, k, scope, place, st₀, same, sited, abreast⟩ := stands
    cases st₀ <;> rw [Statement.resolve] at same <;> cases same
    obtain ⟨_, u', -, -, abreast'⟩ := ((Stage.answers (h.accord charts hn)).eval _
      fun _ _ => trivial).of_ok abreast evaluated
    cases b with
    | true => exact ⟨u', Stage.enters hn sited.branch.thenBody abreast'⟩
    | false => exact ⟨u', Stage.enters hn sited.branch.elseBody abreast'⟩
  | switch selected =>
    obtain ⟨hn, stage, k, scope, place, st₀, same, sited, abreast⟩ := stands
    cases st₀ <;> rw [Statement.resolve] at same <;> cases same
    obtain ⟨_, u', -, -, abreast'⟩ := (Context.selectKey_inStep (Stage.answers
      (h.accord charts hn)) _ fun _ _ => trivial).of_ok abreast selected
    generalize hb : Switch.case _ _ = b
    rcases Switch.case_eq_default_or_mem ⟨_, Body.resolveAll _ _ _ _, _⟩ _ with default | mem
    · rw [hb] at default
      subst default
      exact ⟨u', Stage.enters hn sited.switch.default abreast'⟩
    · rw [hb] at mem
      obtain ⟨j, b₀, found, rfl⟩ := Body.mem_resolveAll mem
      rw [Nat.add_comm 1 j]
      exact ⟨u', Stage.enters hn (sited.switch.bodies j b₀ found) abreast'⟩

end Setting.Matched

/-! ### All steps -/

def Task.Idle : Task α → Prop
  | .runAll _ statements _ _ => ∀ st ∈ statements, ∃ h d, st = .define h d
  | .run _ st _ _ => ∃ h d, st = .define h d
  | _ => False

theorem Setting.Calls.idle {t : Setting σ α} {x y : Task α} {s u : Session σ α}
    (calls : t.Calls x s y u) (idle : x.Idle) : y.Idle := by
  cases calls with
  | head => exact idle _ List.mem_cons_self
  | tail => exact fun st hst => idle st (List.mem_cons_of_mem _ hst)
  | rule | path | body => exact idle.elim
  | _ =>
    obtain ⟨h, d, same⟩ := idle
    cases same

namespace Setting.Matched

variable {d : Draft α} {g : Grammar α} {numbered : Prop} {E : Cargo σ α → Cargo σ' α → Prop}
  {t : Setting σ α} {t' : Setting σ' α} {fuel extra : Nat} {s : Session σ α} {s' : Session σ' α}

/-- The start shape is expanded in sight of the globals. -/
theorem starts (h : Matched d g numbered E t t' fuel extra) (options : t.options = t'.options)
    (rest : s.AtRest) (rest' : s'.AtRest) (sessions : numbered → s.stack.session = s'.stack.session)
    (tied : E s.cargo s'.cargo) {start : Nat} {shape : Shape α} {u : Session σ α}
    (found : t.grammar.shapes[start]? = some shape) (arguments : shape.params.length = 0)
    (bound : ((t.level fuel).runAll t.grammar.globals.statements (.root shape.index) true).run
      (t.ready shape s) = .ok () u) :
    d.known.Charts d.globalScope ∧ ∃ u', (Task.expand fuel (.root shape.index)).Stands d g numbered
      E fuel { u with globalsEnd := u.stack.height } u' := by
  rw [h.runs.grammar] at found bound
  obtain ⟨_, u', -, -, abreast, full, full'⟩ := (h.globals (.root shape.index)).of_ok
    ⟨h.ready options rest rest' sessions tied shape, rfl, rfl⟩ bound
  refine ⟨abreast.sees.charts, { u' with globalsEnd := u'.stack.height }, Nat.le_refl fuel,
    h.loads.root_suits found arguments, d.known, d.globalScope, ?_⟩
  exact ⟨based_globals abreast.sees full full', abreast.cargo⟩

/-- Every task that a run comes to stands at its place. -/
theorem reaches (h : Matched d g numbered E t t' fuel extra) (options : t.options = t'.options)
    (rest : s.AtRest) (rest' : s'.AtRest) (sessions : numbered → s.stack.session = s'.stack.session)
    (tied : E s.cargo s'.cargo) {start : Nat} {x : Task α} {u : Session σ α}
    (reached : t.Reaches fuel start s x u) :
    x.Idle ∨ d.known.Charts d.globalScope ∧ ∃ u', x.Stands d g numbered E fuel u u' := by
  induction reached with
  | globals =>
    rw [h.runs.grammar]
    exact .inl (h.loads.drafted.globals h.loads.built)
  | start found arguments bound =>
    exact .inr (h.starts options rest rest' sessions tied found arguments bound)
  | next _ calls ih =>
    rcases ih with idle | ⟨charts, u', stands⟩
    · exact .inl (calls.idle idle)
    · exact .inr ⟨charts, h.step charts stands calls⟩

end Setting.Matched

end ShapeGrammar
