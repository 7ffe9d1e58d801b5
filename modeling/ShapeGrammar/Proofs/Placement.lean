import ShapeGrammar.Proofs.Sites
import ShapeGrammar.Proofs.Uses

/-!
# Statements in their scopes

The load reads each statement of a grammar in one scope and looks up every name
that the statement uses there. Here all statements are listed with their scopes,
and all lookups with theirs. The names found undefined are those whose lookup
fails, so a grammar that was loaded has none of them. Resolving a grammar
changes neither its scopes nor what is looked up in them.
-/

set_option autoImplicit false

namespace ShapeGrammar

variable {α : Type}

/-! ### Statements with their scopes -/

mutual

def Body.placed (scope : Scope) (paramsFixed : Bool) : Body α → List (Scope × Statement α)
  | ⟨statements, params, _⟩ => Statement.placedAll (scope.bind paramsFixed params) statements

def Statement.placedInside (scope : Scope) : Statement α → List (Scope × Statement α)
  | .replace _ => []
  | .loop _ spec body last =>
    let rangeFixed := spec.range.isConstantIn scope.isFixed
    body.placed scope rangeFixed ++ last.placed scope rangeFixed
  | .transform _ _ body => body.placed scope false
  | .branch _ _ thenBody elseBody => thenBody.placed scope false ++ elseBody.placed scope false
  | .switch _ _ _ bodies default => Body.placedAll scope bodies ++ default.placed scope false
  | .define _ _ => []
  | .op _ _ => []
  | .command _ _ => []

def Statement.placedAll (scope : Scope) : List (Statement α) → List (Scope × Statement α)
  | [] => []
  | st :: rest =>
    (scope, st) :: (st.placedInside scope ++ Statement.placedAll (st.scopeAfter scope) rest)

def Body.placedAll (scope : Scope) : List (Body α) → List (Scope × Statement α)
  | [] => []
  | b :: rest => b.placed scope false ++ Body.placedAll scope rest

end

theorem Body.placedAll_eq_flatMap (scope : Scope) (bodies : List (Body α)) :
    Body.placedAll scope bodies = bodies.flatMap (Body.placed scope false) := by
  induction bodies with
  | nil => rw [Body.placedAll, List.flatMap_nil]
  | cons b rest ih => rw [Body.placedAll, ih, List.flatMap_cons]

mutual

theorem Body.placed_statements (scope : Scope) (fixed : Bool) :
    ∀ b : Body α, (b.placed scope fixed).map Prod.snd = b.flatten
  | ⟨statements, params, _⟩ => by
    rw [Body.placed, Body.flatten, Statement.placedAll_statements _ statements]

theorem Statement.placedInside_statements (scope : Scope) :
    ∀ st : Statement α, (st.placedInside scope).map Prod.snd = st.inner
  | .replace _ => by rw [Statement.placedInside, Statement.inner, List.map_nil]
  | .loop _ _ body last => by
    rw [Statement.placedInside, Statement.inner, List.map_append, Body.placed_statements _ _ body,
      Body.placed_statements _ _ last]
  | .transform _ _ body => by
    rw [Statement.placedInside, Statement.inner, Body.placed_statements _ _ body]
  | .branch _ _ thenBody elseBody => by
    rw [Statement.placedInside, Statement.inner, List.map_append,
      Body.placed_statements _ _ thenBody, Body.placed_statements _ _ elseBody]
  | .switch _ _ _ bodies default => by
    rw [Statement.placedInside, Statement.inner, List.map_append,
      Body.placedAll_statements _ bodies, Body.placed_statements _ _ default]
  | .define _ _ => by rw [Statement.placedInside, Statement.inner, List.map_nil]
  | .op _ _ => by rw [Statement.placedInside, Statement.inner, List.map_nil]
  | .command _ _ => by rw [Statement.placedInside, Statement.inner, List.map_nil]

theorem Statement.placedAll_statements (scope : Scope) : ∀ statements : List (Statement α),
    (Statement.placedAll scope statements).map Prod.snd = Statement.flattenAll statements
  | [] => by rw [Statement.placedAll, Statement.flattenAll, List.map_nil]
  | st :: rest => by
    rw [Statement.placedAll, Statement.flattenAll, List.map_cons, List.map_append,
      st.placedInside_statements scope, Statement.placedAll_statements _ rest]

theorem Body.placedAll_statements (scope : Scope) : ∀ bodies : List (Body α),
    (Body.placedAll scope bodies).map Prod.snd = Body.flattenAll bodies
  | [] => by rw [Body.placedAll, Body.flattenAll, List.map_nil]
  | b :: rest => by
    rw [Body.placedAll, Body.flattenAll, List.map_append, Body.placed_statements _ _ b,
      Body.placedAll_statements _ rest]

end

/-! ### Lookups with their scopes -/

namespace Statement

def names : Statement α → List Expr.Occurrence
  | .replace h => h.names
  | .loop h spec _ _ => h.names ++ spec.range.names
  | .transform h spec _ => h.names ++ spec.generators.flatMap Symmetry.names
  | .branch h cond _ _ => h.names ++ cond.names
  | .switch h selector _ _ _ => h.names ++ selector.names
  | .define h _ => h.names
  | .op h o => h.names ++ o.names
  | .command h c => h.names ++ c.names

def bodyChecks (scope : Scope) : Statement α → List (Scope × Expr.Occurrence)
  | .define _ d => d.names.map fun o => (d.bodyScope scope, o)
  | _ => []

/-- What the load looks up for a statement, and in which scope. -/
def checks (scope : Scope) (st : Statement α) : List (Scope × Expr.Occurrence) :=
  st.names.map (fun o => (scope, o)) ++ st.bodyChecks scope

end Statement

def Scope.finding (check : Scope × Expr.Occurrence) : Option Diagnostic :=
  if check.1.binds check.2.1 then none else some ⟨check.2.2, .nameUndefined check.2.1⟩

theorem Scope.undefined_eq (scope : Scope) (names : List Expr.Occurrence) :
    scope.undefined names = (names.map fun o => (scope, o)).filterMap finding := by
  rw [List.filterMap_map]
  rfl

def Statement.report (placed : List (Scope × Statement α)) : List Diagnostic :=
  (placed.flatMap fun p => p.2.checks p.1).filterMap Scope.finding

theorem Statement.report_append (xs ys : List (Scope × Statement α)) :
    report (xs ++ ys) = report xs ++ report ys := by
  simp [report]

theorem Statement.report_cons (scope : Scope) (st : Statement α)
    (rest : List (Scope × Statement α)) :
    report ((scope, st) :: rest) = scope.undefined st.names ++
      (st.bodyChecks scope).filterMap Scope.finding ++ report rest := by
  simp [report, checks, Scope.undefined_eq]

theorem Scope.undefined_append (scope : Scope) (xs ys : List Expr.Occurrence) :
    scope.undefined (xs ++ ys) = scope.undefined xs ++ scope.undefined ys :=
  List.filterMap_append

mutual

theorem Body.undefined_eq_report (scope : Scope) (fixed : Bool) :
    ∀ b : Body α, b.undefined scope fixed = Statement.report (b.placed scope fixed)
  | ⟨statements, params, _⟩ => by
    rw [Body.undefined, Body.placed, Statement.undefinedAll_eq_report _ statements]

theorem Statement.undefined_eq_report (scope : Scope) :
    ∀ st : Statement α, st.undefined scope = Statement.report ((scope, st) :: st.placedInside scope)
  | .replace h => by
    rw [Statement.report_cons, Statement.placedInside, Statement.undefined, Statement.names]
    simp [Statement.report, Statement.bodyChecks]
  | .loop h spec body last => by
    rw [Statement.report_cons, Statement.placedInside, Statement.undefined, Statement.names,
      Statement.report_append, Scope.undefined_append, Body.undefined_eq_report _ _ body,
      Body.undefined_eq_report _ _ last]
    simp [Statement.bodyChecks]
  | .transform h spec body => by
    rw [Statement.report_cons, Statement.placedInside, Statement.undefined, Statement.names,
      Scope.undefined_append, Body.undefined_eq_report _ _ body]
    simp [Statement.bodyChecks]
  | .branch h cond thenBody elseBody => by
    rw [Statement.report_cons, Statement.placedInside, Statement.undefined, Statement.names,
      Statement.report_append, Scope.undefined_append, Body.undefined_eq_report _ _ thenBody,
      Body.undefined_eq_report _ _ elseBody]
    simp [Statement.bodyChecks]
  | .switch h selector keys bodies default => by
    rw [Statement.report_cons, Statement.placedInside, Statement.undefined, Statement.names,
      Statement.report_append, Scope.undefined_append, Body.undefinedAll_eq_report _ bodies,
      Body.undefined_eq_report _ _ default]
    simp [Statement.bodyChecks]
  | .define h d => by
    rw [Statement.report_cons, Statement.placedInside, Statement.undefined, Statement.names,
      Statement.bodyChecks, Scope.undefined_eq (d.bodyScope scope)]
    simp [Statement.report]
  | .op h o => by
    rw [Statement.report_cons, Statement.placedInside, Statement.undefined, Statement.names,
      Scope.undefined_append]
    simp [Statement.report, Statement.bodyChecks]
  | .command h c => by
    rw [Statement.report_cons, Statement.placedInside, Statement.undefined, Statement.names,
      Scope.undefined_append]
    simp [Statement.report, Statement.bodyChecks]

theorem Statement.undefinedAll_eq_report (scope : Scope) : ∀ statements : List (Statement α),
    Statement.undefinedAll scope statements =
      Statement.report (Statement.placedAll scope statements)
  | [] => by
    rw [Statement.undefinedAll, Statement.placedAll]
    rfl
  | st :: rest => by
    rw [Statement.undefinedAll, Statement.placedAll, ← List.cons_append, Statement.report_append,
      st.undefined_eq_report scope, Statement.undefinedAll_eq_report _ rest]

theorem Body.undefinedAll_eq_report (scope : Scope) : ∀ bodies : List (Body α),
    Body.undefinedAll scope bodies = Statement.report (Body.placedAll scope bodies)
  | [] => by
    rw [Body.undefinedAll, Body.placedAll]
    rfl
  | b :: rest => by
    rw [Body.undefinedAll, Body.placedAll, Statement.report_append, Body.undefined_eq_report _ _ b,
      Body.undefinedAll_eq_report _ rest]

end

namespace Draft

def placed (d : Draft α) : List (Scope × Statement α) :=
  Statement.placedAll [] d.globals.statements ++
    d.bodies.flatMap (Body.placed d.globalScope false)

theorem mem_flatten_of_placed {d : Draft α} {p : Scope × Statement α} (h : p ∈ d.placed) :
    ∃ b ∈ d.globals :: d.bodies, p.2 ∈ b.flatten := by
  rcases List.mem_append.mp h with h | h
  · refine ⟨d.globals, List.mem_cons_self, ?_⟩
    generalize d.globals = b at h ⊢
    obtain ⟨statements, params, slots⟩ := b
    rw [Body.flatten, ← Statement.placedAll_statements [] statements]
    exact List.mem_map.mpr ⟨p, h, rfl⟩
  · obtain ⟨b, hb, h⟩ := List.mem_flatMap.mp h
    refine ⟨b, List.mem_cons_of_mem _ hb, ?_⟩
    rw [← Body.placed_statements d.globalScope false b]
    exact List.mem_map.mpr ⟨p, h, rfl⟩

/-- Every occurrence of a name that the load looks up, with the scope it is
looked up in. -/
def checks (d : Draft α) : List (Scope × Expr.Occurrence) :=
  d.placed.flatMap fun p => p.2.checks p.1

/-- The names found undefined are those whose lookup fails. -/
theorem undefinedNames_eq_checks (d : Draft α) :
    d.undefinedNames = d.checks.filterMap Scope.finding := by
  have bodies : ∀ bs : List (Body α), bs.flatMap (Body.undefined d.globalScope false) =
      Statement.report (bs.flatMap (Body.placed d.globalScope false)) := by
    intro bs
    induction bs with
    | nil => rfl
    | cons b rest ih =>
      rw [List.flatMap_cons, List.flatMap_cons, Statement.report_append, ih,
        Body.undefined_eq_report]
  rw [undefinedNames, bodies, Statement.undefinedAll_eq_report, ← Statement.report_append]
  rfl

/-- What a loaded grammar looks up is there. -/
theorem binds_of_mem_checks [Scalar α] {d : Draft α} {g : Grammar α} (hg : d.build = .ok g)
    {scope : Scope} {o : Expr.Occurrence} (h : (scope, o) ∈ d.checks) : scope.binds o.1 = true := by
  by_cases bound : scope.binds o.1 = true
  · exact bound
  · have finding : Scope.finding (scope, o) = some ⟨o.2, .nameUndefined o.1⟩ := if_neg bound
    have reported : ⟨o.2, .nameUndefined o.1⟩ ∈ d.undefinedNames := by
      rw [undefinedNames_eq_checks]
      exact List.mem_filterMap.mpr ⟨_, h, finding⟩
    have error := no_problem hg (p := ⟨o.2, .nameUndefined o.1⟩) (by simp [allProblems, reported])
    cases error

end Draft

/-! ### Resolved statements -/

namespace Define

variable (scope other : Scope) (place : Address) (d : Define α)

@[simp] theorem resolve_body : (d.resolve other place).body = d.body := by
  unfold resolve
  split <;> rfl

@[simp] theorem resolve_params : (d.resolve other place).params = d.params := by
  unfold resolve
  split <;> rfl

@[simp] theorem resolve_entry : (d.resolve other place).entry scope = d.entry scope := by
  simp [entry]

@[simp] theorem resolve_bodyScope :
    (d.resolve other place).bodyScope scope = d.bodyScope scope := by
  simp [bodyScope]

end Define

theorem Statement.scopeAfter_resolve (scope other : Scope) (place : Address) (st : Statement α) :
    (st.resolve other place).scopeAfter scope = st.scopeAfter scope := by
  cases st <;> simp [Statement.resolve, Statement.scopeAfter]

theorem Statement.checks_resolve (scope other : Scope) (place : Address) (st : Statement α) :
    (st.resolve other place).checks scope = st.checks scope := by
  cases st with
  | define h d =>
    simp only [checks, names, bodyChecks, Statement.resolve, Define.resolve_bodyScope, Define.names,
      Define.resolve_body]
  | _ => rfl

def Statement.ResolvedFrom (original placed : List (Scope × Statement α)) : Prop :=
  ∀ p ∈ placed, ∃ q ∈ original, p.1 = q.1 ∧ ∃ place, p.2 = q.2.resolve q.1 place

namespace Statement.ResolvedFrom

variable {original original' placed placed' : List (Scope × Statement α)}

theorem append (h : ResolvedFrom original placed) (h' : ResolvedFrom original' placed') :
    ResolvedFrom (original ++ original') (placed ++ placed') := by
  intro p hp
  rcases List.mem_append.mp hp with hp | hp
  · obtain ⟨q, hq, resolved⟩ := h p hp
    exact ⟨q, List.mem_append_left _ hq, resolved⟩
  · obtain ⟨q, hq, resolved⟩ := h' p hp
    exact ⟨q, List.mem_append_right _ hq, resolved⟩

theorem cons (scope : Scope) (st : Statement α) (place : Address)
    (h : ResolvedFrom original placed) :
    ResolvedFrom ((scope, st) :: original) ((scope, st.resolve scope place) :: placed) := by
  intro p hp
  rcases List.mem_cons.mp hp with rfl | hp
  · exact ⟨(scope, st), List.mem_cons_self, rfl, place, rfl⟩
  · obtain ⟨q, hq, resolved⟩ := h p hp
    exact ⟨q, List.mem_cons_of_mem _ hq, resolved⟩

theorem nil : ResolvedFrom original [] := nofun

end Statement.ResolvedFrom

mutual

theorem Body.placed_resolve (scope : Scope) (fixed : Bool) (place : Address) : ∀ b : Body α,
    Statement.ResolvedFrom (b.placed scope fixed)
      ((b.resolve scope fixed place).placed scope fixed)
  | ⟨statements, params, _⟩ => by
    rw [Body.resolve, Body.placed, Body.placed]
    exact Statement.placedAll_resolve _ place 0 statements

theorem Statement.placedInside_resolve (scope : Scope) (place : Address) : ∀ st : Statement α,
    Statement.ResolvedFrom (st.placedInside scope) ((st.resolve scope place).placedInside scope)
  | .replace _ => by
    rw [Statement.resolve, Statement.placedInside]
    exact .nil
  | .loop _ _ body last => by
    rw [Statement.resolve, Statement.placedInside, Statement.placedInside]
    exact (body.placed_resolve scope _ _).append (last.placed_resolve scope _ _)
  | .transform _ _ body => by
    rw [Statement.resolve, Statement.placedInside, Statement.placedInside]
    exact body.placed_resolve scope _ _
  | .branch _ _ thenBody elseBody => by
    rw [Statement.resolve, Statement.placedInside, Statement.placedInside]
    exact (thenBody.placed_resolve scope _ _).append (elseBody.placed_resolve scope _ _)
  | .switch _ _ _ bodies default => by
    rw [Statement.resolve, Statement.placedInside, Statement.placedInside]
    exact (Body.placedAll_resolve scope place 1 bodies).append (default.placed_resolve scope _ _)
  | .define _ _ => by
    rw [Statement.resolve, Statement.placedInside, Statement.placedInside]
    exact .nil
  | .op _ _ => by
    rw [Statement.resolve, Statement.placedInside]
    exact .nil
  | .command _ _ => by
    rw [Statement.resolve, Statement.placedInside]
    exact .nil

theorem Statement.placedAll_resolve (scope : Scope) (place : Address) (i : Nat) :
    ∀ statements : List (Statement α), Statement.ResolvedFrom (Statement.placedAll scope statements)
      (Statement.placedAll scope (Statement.resolveAll scope place i statements))
  | [] => by
    rw [Statement.resolveAll, Statement.placedAll]
    exact .nil
  | st :: rest => by
    rw [Statement.resolveAll, Statement.placedAll, Statement.placedAll,
      Statement.scopeAfter_resolve]
    exact .cons _ _ _ ((st.placedInside_resolve scope _).append
      (Statement.placedAll_resolve _ place (i + 1) rest))

theorem Body.placedAll_resolve (scope : Scope) (place : Address) (i : Nat) :
    ∀ bodies : List (Body α), Statement.ResolvedFrom (Body.placedAll scope bodies)
      (Body.placedAll scope (Body.resolveAll scope place i bodies))
  | [] => by
    rw [Body.resolveAll, Body.placedAll]
    exact .nil
  | b :: rest => by
    rw [Body.resolveAll, Body.placedAll, Body.placedAll]
    exact (b.placed_resolve scope _ _).append (Body.placedAll_resolve scope place (i + 1) rest)

end

/-! ### Loaded grammars -/

namespace Draft

variable [Scalar α] {d : Draft α} {g : Grammar α}

/-- The globals of a loaded grammar stand where the draft has them. -/
theorem globals_resolvedFrom (hg : d.build = .ok g) :
    Statement.ResolvedFrom d.placed (Statement.placedAll [] g.globals.statements) := by
  obtain ⟨-, rfl⟩ := build_eq_ok.mp hg
  intro p hp
  obtain ⟨q, hq, resolved⟩ := Statement.placedAll_resolve [] [] 0 d.globals.statements p hp
  exact ⟨q, List.mem_append_left _ hq, resolved⟩

/-- So does the body of every rule. -/
theorem RuleOf.resolvedFrom {i j : Nat} {shape : Shape α} {rule : Rule α} {b : Body α}
    (h : RuleOf d i j shape rule b) :
    Statement.ResolvedFrom d.placed (rule.body.placed d.globalScope false) := by
  intro p hp
  rw [h.body] at hp
  obtain ⟨q, hq, resolved⟩ := b.placed_resolve d.globalScope false [i, j] p hp
  refine ⟨q, List.mem_append_right _ ?_, resolved⟩
  exact List.mem_flatMap.mpr ⟨b, h.mem_bodies, hq⟩

theorem rules_resolvedFrom (hd : d.Drafted) (hg : d.build = .ok g) {shape : Shape α}
    (hshape : shape ∈ g.shapes) {rule : Rule α} (hrule : rule ∈ shape.rules) :
    Statement.ResolvedFrom d.placed (rule.body.placed d.globalScope false) := by
  obtain ⟨i, hi⟩ := List.mem_iff_getElem?.mp hshape
  obtain ⟨j, hj⟩ := List.mem_iff_getElem?.mp hrule
  obtain ⟨b, hb⟩ := build_rule hd hg hi hj
  exact hb.resolvedFrom

/-- Among the globals stands nothing but defines. -/
theorem globals_placed_defines (hd : d.Drafted) (hg : d.build = .ok g) :
    ∀ p ∈ Statement.placedAll [] g.globals.statements, ∃ head f, p.2 = .define head f := by
  have defines := hd.globals hg
  generalize g.globals.statements = statements at defines ⊢
  generalize ([] : Scope) = scope
  induction statements generalizing scope with
  | nil =>
    rw [Statement.placedAll]
    exact nofun
  | cons st rest ih =>
    obtain ⟨head, f, rfl⟩ := defines st List.mem_cons_self
    rw [Statement.placedAll, Statement.placedInside, List.nil_append]
    intro p hp
    rcases List.mem_cons.mp hp with rfl | hp
    · exact ⟨head, f, rfl⟩
    · exact ih (fun st hst => defines st (List.mem_cons_of_mem _ hst)) _ p hp

/-- The globals of a loaded grammar leave the scope that the load has left. -/
theorem scopeAfterAll_globals (hg : d.build = .ok g) :
    Statement.scopeAfterAll [] g.globals.statements = d.globalScope := by
  obtain ⟨-, rfl⟩ := build_eq_ok.mp hg
  rw [globalScope]
  change Statement.scopeAfterAll [] (Statement.resolveAll [] [] 0 d.globals.statements) = _
  generalize d.globals.statements = statements
  generalize ([] : Scope) = scope
  generalize 0 = i
  induction statements generalizing scope i with
  | nil => rw [Statement.resolveAll]
  | cons st rest ih =>
    rw [Statement.resolveAll, Statement.scopeAfterAll, Statement.scopeAfterAll,
      Statement.scopeAfter_resolve]
    exact ih _ _

end Draft

end ShapeGrammar
