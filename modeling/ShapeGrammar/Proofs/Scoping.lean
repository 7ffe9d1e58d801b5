import ShapeGrammar.Proofs.SameSight.Runs
import ShapeGrammar.Proofs.Sample

/-!
# The scope of the load is the scope of the run

The load looks every name up in a list of entries that it lengthens and cuts
back along the text of the grammar. The run looks it up through a view of a
stack on which all callers have left their slots. A watched run compares the
two at every name it comes to and stops where they differ. It is the run
itself: the names in sight are always those that the load had, in their order,
so nothing is ever found undefined.
-/

set_option autoImplicit false

namespace ShapeGrammar

open Attempt

variable {σ α β : Type}

/-! ### The watch -/

/-- The entries behind the innermost one of a name: the scope it was declared in. -/
def Scope.behind (name : String) : Scope → Scope
  | [] => []
  | e :: rest => if e.name = name then rest else behind name rest

namespace Session

/-- What is in sight bears the names of the scope, in its order, and in this scope
the load has looked the occurrence up. -/
def Sees (checks : List (Scope × Expr.Occurrence)) (scope : Scope) (o : Expr.Occurrence)
    (s : Session σ α) : Prop :=
  (s.stack.visible s.view).map Slot.name = scope.map Entry.name ∧ (scope, o) ∈ checks

instance (checks : List (Scope × Expr.Occurrence)) (scope : Scope) (o : Expr.Occurrence)
    (s : Session σ α) : Decidable (s.Sees checks scope o) :=
  inferInstanceAs (Decidable (_ ∧ _))

/-- An action that must not begin in sight of anything else. -/
def watch (checks : List (Scope × Expr.Occurrence)) (alarm : EvalCause) (scope : Scope)
    (o : Expr.Occurrence) (act : Action σ α β) : Action σ α β := do
  let s ← Attempt.state
  if s.Sees checks scope o then act else failEval o.2 alarm

/-- An environment that is watched at every variable, and at every call of what
is no builtin. -/
def watched (checks : List (Scope × Expr.Occurrence)) (alarm : EvalCause) (scope : Scope)
    (env : Env Stop (Session σ α) α) : Env Stop (Session σ α) α :=
  { env with
    lookup := fun name span => watch checks alarm scope (name, span) (env.lookup name span)
    call := fun name args span =>
      if Builtin.namesAny name then env.call name args span
      else watch checks alarm scope (name, span) (env.call name args span) }

/-- The environment of a scope. The body of a define goes on in the scope that
the load has read it in. -/
def watchedAt [Scalar α] (checks : List (Scope × Expr.Occurrence)) (alarm : EvalCause) :
    Nat → Scope → Env Stop (Session σ α) α
  | 0, scope => watched checks alarm scope (environment fun _ _ => Attempt.fail .outOfFuel)
  | fuel + 1, scope => watched checks alarm scope (environment fun d span =>
      (watchedAt checks alarm fuel (d.bodyScope (scope.behind d.name))).evalDefine d span)

variable {checks : List (Scope × Expr.Occurrence)} {alarm : EvalCause}

theorem keeps_watch (scope : Scope) (o : Expr.Occurrence) {act : Action σ α β}
    (h : Action.Keeps act) : Action.Keeps (watch checks alarm scope o act) := by
  refine Action.keeps_of_state fun s => ?_
  split
  · exact h
  · exact keeps_failEval _ _

theorem watched_keeps (scope : Scope) {env : Env Stop (Session σ α) α} (h : env.Keeps) :
    (watched checks alarm scope env).Keeps := fun κ =>
  { h κ with
    lookup := fun name span _ =>
      Action.keeps_iff.mp (keeps_watch scope _ (h.lookup name span)) κ
    call := fun name args span _ => by
      refine Action.keeps_iff.mp ?_ κ
      simp only [watched]
      split
      · exact h.call name args span
      · exact keeps_watch scope _ (h.call name args span) }

theorem watchedAt_keeps [Scalar α] (fuel : Nat) (scope : Scope) :
    (watchedAt checks alarm fuel scope : Env Stop (Session σ α) α).Keeps := by
  induction fuel generalizing scope with
  | zero => exact watched_keeps scope (environment_keeps fun _ _ => Action.keeps_fail nofun)
  | succ fuel ih =>
    exact watched_keeps scope (environment_keeps fun d span => (ih _).evalDefine d span)

end Session

/-- The watch stands aside where the names in sight are those of the scope. -/
theorem Looks.watched {m : Pact σ} {V : List (Slot α)} {checks : List (Scope × Expr.Occurrence)}
    {alarm : EvalCause} {scope : Scope} {asked : Expr.Use → Prop}
    {env env' : Env Stop (Session σ α) α}
    (h : Env.Answers m.parting (Looks m V) asked env env')
    (names : V.map Slot.name = scope.map Entry.name)
    (checked : ∀ u o, asked u → u.occurrence? = some o → (scope, o) ∈ checks) :
    Env.Answers m.parting (Looks m V) asked (Session.watched checks alarm scope env) env' := by
  have aside : ∀ {β : Type} {act act' : Action σ α β} {o : Expr.Occurrence}, (scope, o) ∈ checks →
      InStep m.parting (Looks m V) Eq act act' →
      InStep m.parting (Looks m V) Eq (Session.watch checks alarm scope o act) act' := by
    intro β act act' o ho inStep s s' hs
    have sees : s.Sees checks scope o := ⟨by rw [hs.left.visible, names], ho⟩
    simp only [Session.watch, run_bind, run_state, if_pos sees]
    exact inStep s s' hs
  exact { h with
    lookup := fun name span hu => aside (checked _ _ hu rfl) (h.lookup name span hu)
    call := fun name args span hu => by
      simp only [Session.watched]
      split
      · exact h.call name args span hu
      case isFalse free =>
        exact aside (checked _ _ hu (if_neg free)) (h.call name args span hu) }

/-! ### Slots along a scope -/

/-- The slots in sight come from the entries of the scope, one from each. What a
define needs to find was looked up in the scope of its body. -/
inductive Describes (checks : List (Scope × Expr.Occurrence)) : Scope → List (Slot α) → Prop
  | nil : Describes checks [] []
  | value {scope : Scope} {V : List (Slot α)} (h : Describes checks scope V) (e : Entry)
      (v : Value α) : Describes checks (e :: scope) (⟨e.name, .value v⟩ :: V)
  | define {scope : Scope} {V : List (Slot α)} (h : Describes checks scope V) (d : Define α)
      {b : Binding α} (binds : d.Binds b)
      (checked : ∀ o ∈ d.names, (d.bodyScope scope, o) ∈ checks) :
      Describes checks (d.entry scope :: scope) (⟨d.name, b⟩ :: V)

theorem Define.entry_name (scope : Scope) (d : Define α) : (d.entry scope).name = d.name := by
  unfold entry
  split <;> rfl

namespace Describes

variable {checks : List (Scope × Expr.Occurrence)} {scope : Scope} {V : List (Slot α)}

theorem names (h : Describes checks scope V) : V.map Slot.name = scope.map Entry.name := by
  induction h with
  | nil => rfl
  | value _ e v ih => rw [List.map_cons, List.map_cons, ih]
  | define _ d binds checked ih => rw [List.map_cons, List.map_cons, ih, d.entry_name]

theorem search_ne_none (h : Describes checks scope V) {name : String}
    (bound : scope.binds name = true) : Slot.search name V ≠ none := by
  have inSight : name ∈ V.map Slot.name := by
    rw [h.names]
    obtain ⟨e, he, same⟩ := List.any_eq_true.mp bound
    exact List.mem_map.mpr ⟨e, he, beq_iff_eq.mp same⟩
  clear h
  induction V with
  | nil => cases inSight
  | cons x rest ih =>
    rw [Slot.search]
    split
    · exact Option.some_ne_none _
    case isFalse other =>
      exact ih ((List.mem_cons.mp inSight).resolve_left fun same => other same.symm)

theorem found (h : Describes checks scope V) {name : String} {x : Slot α} {rest : List (Slot α)}
    (search : Slot.search name V = some (x, rest)) : Describes checks (scope.behind name) rest ∧
      ((∃ v, x.binding = .value v) ∨ ∃ (d : Define α) (b : Binding α), x = ⟨d.name, b⟩ ∧
        d.name = name ∧ d.Binds b ∧
        ∀ o ∈ d.names, (d.bodyScope (scope.behind name), o) ∈ checks) := by
  induction h with
  | nil => cases search
  | value inner e v ih =>
    rw [Slot.search] at search
    rw [Scope.behind]
    split at search
    case isTrue same =>
      cases search
      rw [if_pos same]
      exact ⟨inner, .inl ⟨v, rfl⟩⟩
    case isFalse other =>
      rw [if_neg other]
      exact ih search
  | @define scope V inner d b binds checked ih =>
    rw [Slot.search] at search
    rw [Scope.behind, d.entry_name]
    split at search
    case isTrue same =>
      cases search
      rw [if_pos same]
      exact ⟨inner, .inr ⟨d, b, rfl, same, binds, checked⟩⟩
    case isFalse other =>
      rw [if_neg other]
      exact ih search

theorem args (h : Describes checks scope V) (params : List Param) (values : List (Value α))
    (length : values.length = params.length) :
    Describes checks (scope.bind false params) ((Param.slots params values).reverse ++ V) := by
  induction params generalizing values scope V with
  | nil => simpa [Param.slots, Scope.bind] using h
  | cons p params ih =>
    cases values with
    | nil => cases length
    | cons v values =>
      have inner := ih (h.value ⟨p.name, false, false⟩ v) values (Nat.succ.inj length)
      simpa [Param.slots, Scope.bind] using inner

/-- A deferred define goes on in the scope it was declared in. -/
theorem deferred (h : Describes checks scope V) {name : String} {x : Slot α}
    {rest : List (Slot α)} (search : Slot.search name V = some (x, rest)) {d : Define α}
    (binding : x.binding = .deferred d) :
    Describes checks (d.bodyScope (scope.behind d.name)) rest ∧
      ∀ o ∈ d.names, (d.bodyScope (scope.behind d.name), o) ∈ checks := by
  obtain ⟨behind, ⟨v, hv⟩ | ⟨d', b, rfl, rfl, binds, checked⟩⟩ := h.found search
  · rw [hv] at binding
    cases binding
  · cases binds with
    | deferred plain =>
      cases binding
      refine ⟨?_, checked⟩
      rw [Define.bodyScope, plain]
      exact behind
    | _ => cases binding

theorem function (h : Describes checks scope V) {name : String} {x : Slot α}
    {rest : List (Slot α)} (search : Slot.search name V = some (x, rest)) {d : Define α}
    (binding : x.binding = .function d) (values : List (Value α))
    (length : values.length = d.params.length) :
    Describes checks (d.bodyScope (scope.behind d.name))
        ((Param.slots d.params values).reverse ++ x :: rest) ∧
      ∀ o ∈ d.names, (d.bodyScope (scope.behind d.name), o) ∈ checks := by
  obtain ⟨behind, ⟨v, hv⟩ | ⟨d', b, rfl, rfl, binds, checked⟩⟩ := h.found search
  · rw [hv] at binding
    cases binding
  · cases binds with
    | function isFunction =>
      cases binding
      refine ⟨?_, checked⟩
      have visible := (behind.define d (.function isFunction) checked).args d.params values length
      rw [Define.bodyScope, isFunction]
      exact visible
    | _ => cases binding

end Describes

/-! ### Names that are found -/

def Stop.Defined (e : Stop) : Prop :=
  ∀ span name, e ≠ .fault (.eval ⟨span, .undefinedName name⟩)

def Pact.named : Pact σ := .one Stop.Defined fun _ usual => usual.2

/-! ### Statements under watch -/

/-- Whatever a statement asks for was looked up in its scope. -/
theorem Statement.mem_checks_of_use {st : Statement α} {u : Expr.Use} {o : Expr.Occurrence}
    (hu : u ∈ st.uses) (ho : u.occurrence? = some o) (scope : Scope) :
    (scope, o) ∈ st.checks scope := by
  have mem : o ∈ st.uses.filterMap Expr.Use.occurrence? := List.mem_filterMap.mpr ⟨u, hu, ho⟩
  have own : ∀ {names : List Expr.Occurrence}, o ∈ names →
      (scope, o) ∈ names.map fun o => (scope, o) := fun h => List.mem_map.mpr ⟨o, h, rfl⟩
  cases st with
  | define h d =>
    rw [uses, List.filterMap_append, ← h.names_eq_uses] at mem
    rcases List.mem_append.mp mem with mem | mem
    · exact List.mem_append_left _ (own mem)
    · refine List.mem_append_right _ ?_
      cases function : d.isFunction with
      | true => simp [function] at mem
      | false =>
        rw [function, if_neg Bool.false_ne_true, ← d.names_eq_uses] at mem
        rw [bodyChecks, Define.bodyScope, function, if_neg Bool.false_ne_true]
        exact own mem
  | _ =>
    refine List.mem_append_left _ (own ?_)
    simpa only [names, uses, List.filterMap_append, List.filterMap_flatMap, Head.names_eq_uses,
      Expr.names_eq, Symmetry.names_eq, Path.Op.names_eq_uses,
      Path.CommandSpec.names_eq_uses] using mem

def Draft.Covers (d : Draft α) (scope : Scope) (st : Statement α) : Prop :=
  ∀ check ∈ st.checks scope, check ∈ d.checks

theorem Statement.ResolvedFrom.covers {d : Draft α} {placed : List (Scope × Statement α)}
    (h : Statement.ResolvedFrom d.placed placed) : ∀ p ∈ placed, d.Covers p.1 p.2 := by
  intro p hp check hc
  obtain ⟨q, hq, scope, place, resolved⟩ := h p hp
  rw [resolved, Statement.checks_resolve, scope] at hc
  exact List.mem_flatMap.mpr ⟨q, hq, hc⟩

variable [Scalar α]

/-- Under watch every define is evaluated as without it, and finds what it needs. -/
theorem watchedAt_answers {checks : List (Scope × Expr.Occurrence)} {alarm : EvalCause}
    (bound : ∀ check ∈ checks, check.1.binds check.2.1 = true) (n : Nat) {scope : Scope}
    {V : List (Slot α)} {asked : Expr.Use → Prop} (h : Describes checks scope V)
    (checked : ∀ u o, asked u → u.occurrence? = some o → (scope, o) ∈ checks) :
    Env.Answers Pact.named.parting (Looks (Pact.named : Pact σ) V) asked
      (Session.watchedAt checks alarm n scope) (Session.environmentAt n) := by
  have found : ∀ {scope : Scope} {V : List (Slot α)} {asked : Expr.Use → Prop},
      Describes checks scope V →
      (∀ u o, asked u → u.occurrence? = some o → (scope, o) ∈ checks) →
      ∀ name span, asked (.read name span) → Slot.search name V = none →
        (Pact.named : Pact σ).admits (.fault (.eval ⟨span, .undefinedName name⟩)) :=
    fun h checked _ _ hu missing =>
      absurd missing (h.search_ne_none (bound _ (checked _ _ hu rfl)))
  induction n generalizing scope V asked with
  | zero =>
    have out : ∀ W : List (Slot α), InStep Pact.named.parting (Looks (Pact.named : Pact σ) W) Eq
        (Attempt.fail .outOfFuel : Action σ α (Value α)) (Attempt.fail .outOfFuel) := fun W =>
      Pact.fail_leads nofun fun _ _ h => h.toHolds
    exact Looks.watched (Looks.environment (fun _ _ => Action.keeps_fail nofun)
      (fun _ _ => Action.keeps_fail nofun) (found h checked) (fun _ _ _ rest _ _ _ _ => out rest)
      fun _ _ _ _ _ _ _ _ _ _ => out _) h.names checked
  | succ n ih =>
    -- the define finds in its own scope what the load has looked up there
    have body : ∀ (d : Define α) span W,
        Describes checks (d.bodyScope (scope.behind d.name)) W →
        (∀ o ∈ d.names, (d.bodyScope (scope.behind d.name), o) ∈ checks) →
        InStep Pact.named.parting (Looks (Pact.named : Pact σ) W) Eq
          ((Session.watchedAt checks alarm n (d.bodyScope (scope.behind d.name))).evalDefine d span)
          ((Session.environmentAt n).evalDefine d span) := by
      intro d span W describes occurrences
      have checked : ∀ u o, u ∈ d.body.uses → u.occurrence? = some o →
          (d.bodyScope (scope.behind d.name), o) ∈ checks := by
        intro u o hu ho
        rw [d.names_eq_uses] at occurrences
        exact occurrences o (List.mem_filterMap.mpr ⟨u, hu, ho⟩)
      exact (ih describes checked).evalDefine d span fun _ => id
    refine Looks.watched (Looks.environment
      (fun d span => (Session.watchedAt_keeps n _).evalDefine d span)
      (Session.environmentAt_keeps n).evalDefine (found h checked) ?_ ?_) h.names checked
    · intro name span x rest d _ search binding
      exact body d span rest (h.deferred search binding).1 (h.deferred search binding).2
    · intro name span args x rest d _ search binding length
      obtain ⟨describes, occurrences⟩ := h.function search binding args length
      exact body d span _ describes occurrences

namespace Setting

variable {d : Draft α} {g : Grammar α}

/-- The scopes of the load tell what is in sight of a watched run. -/
theorem watched_score (drafted : d.Drafted) (built : d.build = .ok g) (r : Renderer σ α)
    (options : Options) (alarm : EvalCause) :
    Score (Pact.named : Pact σ) (standard g r options) (Describes d.checks) d.Covers d.globalScope
      (Session.watchedAt d.checks alarm) (fun n _ => Session.environmentAt n) where
  keeps := Session.watchedAt_keeps
  keeps' n _ := Session.environmentAt_keeps n
  param _ _ p v fixed h := h.value ⟨p.name, false, fixed⟩ v
  define _ _ _ f _ covers h binds := h.define f binds fun o ho =>
    covers _ (List.mem_append_right _ (List.mem_map.mpr ⟨o, ho, rfl⟩))
  respects := Pact.one_respects r
  fits _ hshape _ hrule := (Draft.rules_resolvedFrom drafted built hshape hrule).covers

/-- A watched run comes to the end of the run, and to no missing name. -/
theorem watched_run (drafted : d.Drafted) (built : d.build = .ok g) (r : Renderer σ α)
    (options : Options) (alarm : EvalCause) (fuel start : Nat) {s : Session σ α} (rest : s.AtRest) :
    Meets Pact.named.parting (Pact.named : Pact σ).Holds Eq
      (((standard g r options).guidedRun (Session.watchedAt d.checks alarm) d.globalScope
        fuel start).run s)
      (((standard g r options).run fuel start).run s) := by
  have score := watched_score drafted built r options alarm
  have agree : ∀ n, score.Agree n n := fun n scope V st covers describes =>
    watchedAt_answers (fun _ h => Draft.binds_of_mem_checks built h) n describes fun u o hu ho =>
      covers _ (Statement.mem_checks_of_use hu ho scope)
  rw [← guidedRun_const (standard g r options) d.globalScope]
  exact score.run (agree fuel) .nil (Draft.scopeAfterAll_globals built)
    (fun p hp => ⟨(Draft.globals_resolvedFrom built).covers p hp,
      Draft.globals_placed_defines drafted built p hp⟩)
    (fun _ hG => score.expand agree nofun hG fuel 0) start rest (.refl rfl fun _ _ _ => trivial)

/-- Whatever a run of a loaded grammar evaluates, each time it comes to a variable
or to a call of what is no builtin, the names in sight are those of the scope in
which the load has looked that occurrence up, in their order: a run that would
raise an alarm of any kind where they are not is the run itself. No run finds a
name undefined. -/
theorem scope_static_eq_dynamic (drafted : d.Drafted) (built : d.build = .ok g)
    (r : Renderer σ α) (options : Options) (fuel start : Nat) {s : Session σ α}
    (rest : s.AtRest) :
    (∀ alarm, ((standard g r options).guidedRun (Session.watchedAt d.checks alarm) d.globalScope
        fuel start).run s = ((standard g r options).run fuel start).run s) ∧
      ∀ span name t, ((standard g r options).run fuel start).run s ≠
        .failed (.fault (.eval ⟨span, .undefinedName name⟩)) t := by
  have watched := fun alarm =>
    Pact.one_meets (watched_run drafted built r options alarm fuel start rest)
  refine ⟨fun alarm => (watched alarm).1, fun span name t failed => ?_⟩
  obtain ⟨same, defined⟩ := watched (.undefinedName name)
  exact defined _ t (same.trans failed) span name rfl

theorem scope_static_eq_dynamic_sample :
    Sample.endless.Drafted ∧ Sample.endless.build = .ok Sample.endless.resolved ∧
      (∀ alarm, ((standard Sample.endless.resolved Sample.renderer Sample.options).guidedRun
          (Session.watchedAt Sample.endless.checks alarm) Sample.endless.globalScope 99 0).run
          (Sample.session .empty) =
        ((standard Sample.endless.resolved Sample.renderer Sample.options).run 99 0).run
          (Sample.session .empty)) ∧
      ∀ span name t,
        ((standard Sample.endless.resolved Sample.renderer Sample.options).run 99 0).run
        (Sample.session .empty) ≠ .failed (.fault (.eval ⟨span, .undefinedName name⟩)) t :=
  ⟨Sample.endless_drafted, Sample.endless_build,
    scope_static_eq_dynamic Sample.endless_drafted Sample.endless_build Sample.renderer
      Sample.options 99 0 (Session.begin_atRest _ _ _)⟩

end Setting

end ShapeGrammar
