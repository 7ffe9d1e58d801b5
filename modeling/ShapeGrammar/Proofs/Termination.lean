import ShapeGrammar.Proofs.SameSight.Runs
import ShapeGrammar.Proofs.Sample

/-!
# Runs come to an end

A deferred define sees only what lies behind it, and so does a function that
does not call itself, apart from its arguments. Evaluation therefore nests at
most as deep as there are slots in sight, and shapes nest as deep as the
renderer lets them. With fuel for both no run is cut short, and more fuel
changes nothing.
-/

set_option autoImplicit false

namespace ShapeGrammar

open Attempt

variable {σ α : Type}

/-! ### Functions that call themselves -/

def Expr.Use.calls (name : String) : Expr.Use → Bool
  | .read _ _ => false
  | .call callee _ => callee == name

def Define.callsItself (d : Define α) : Bool :=
  d.isFunction && d.body.uses.any (Expr.Use.calls d.name)

def Statement.callsItself : Statement α → Bool
  | .define _ d => d.callsItself
  | _ => false

def Draft.NoSelfCalls (d : Draft α) : Prop :=
  ∀ b ∈ d.globals :: d.bodies, ∀ st ∈ b.flatten, st.callsItself = false

theorem Define.not_mem_uses {d : Define α} (function : d.isFunction = true)
    (h : d.callsItself = false) (span : Span) : Expr.Use.call d.name span ∉ d.body.uses := by
  intro mem
  have calls : d.body.uses.any (Expr.Use.calls d.name) = true :=
    List.any_eq_true.mpr ⟨_, mem, beq_self_eq_true d.name⟩
  rw [callsItself, function, calls] at h
  cases h

/-- A function in this slot bears its name and does not call itself. -/
def Slot.Mild (x : Slot α) : Prop :=
  ∀ d, x.binding = .function d →
    d.name = x.name ∧ d.isFunction = true ∧ d.callsItself = false

/-! ### How deep evaluation nests -/

theorem Slot.length_search {name : String} {xs rest : List (Slot α)} {x : Slot α}
    (h : search name xs = some (x, rest)) : rest.length < xs.length := by
  induction xs with
  | nil => cases h
  | cons y ys ih =>
    rw [search] at h
    split at h
    · cases h
      exact Nat.lt_succ_self _
    · exact Nat.lt_succ_of_lt (ih h)

theorem Slot.search_args {name : String} {args rest : List (Slot α)} {x : Slot α}
    (values : ∀ y ∈ args, ∃ v, y.binding = .value v) {y : Slot α} {behind : List (Slot α)}
    (h : search name (args ++ x :: rest) = some (y, behind)) (other : ∀ v, y.binding ≠ .value v) :
    (x = y ∧ x.name = name) ∨ search name rest = some (y, behind) := by
  induction args with
  | nil =>
    rw [List.nil_append, search] at h
    split at h
    case isTrue same =>
      cases h
      exact .inl ⟨rfl, same⟩
    case isFalse => exact .inr h
  | cons z args ih =>
    rw [List.cons_append, search] at h
    split at h
    · cases h
      obtain ⟨v, hv⟩ := values y List.mem_cons_self
      exact absurd hv (other v)
    · exact ih (fun w hw => values w (List.mem_cons_of_mem _ hw)) h

/-- Whatever is asked for leads to defines with fewer than `n` slots behind them. -/
structure Slot.Within (n : Nat) (V : List (Slot α)) (asked : Expr.Use → Prop) : Prop where
  deferred : ∀ name span x rest d, asked (.read name span) → search name V = some (x, rest) →
    x.binding = .deferred d → rest.length < n
  function : ∀ name span x rest d, asked (.call name span) → search name V = some (x, rest) →
    x.binding = .function d → rest.length < n

theorem Slot.Within.of_length {n : Nat} {V : List (Slot α)} (h : V.length ≤ n)
    (asked : Expr.Use → Prop) : Within n V asked where
  deferred _ _ _ _ _ _ search _ := Nat.lt_of_lt_of_le (length_search search) h
  function _ _ _ _ _ _ search _ := Nat.lt_of_lt_of_le (length_search search) h

theorem Slot.Within.body {n : Nat} {x : Slot α} {rest args : List (Slot α)} {d : Define α}
    (mild : x.Mild) (binding : x.binding = .function d) (h : rest.length ≤ n)
    (values : ∀ y ∈ args, ∃ v, y.binding = .value v) :
    Within n (args ++ x :: rest) (· ∈ d.body.uses) where
  deferred name span y behind f _ found deferred := by
    rcases search_args values found (by simp [deferred]) with ⟨rfl, -⟩ | search
    · rw [binding] at deferred
      cases deferred
    · exact Nat.lt_of_lt_of_le (length_search search) h
  function name span y behind f hu found function := by
    rcases search_args values found (by simp [function]) with ⟨rfl, same⟩ | search
    · obtain ⟨own, isFunction, others⟩ := mild d binding
      rw [← same, ← own] at hu
      exact absurd hu (d.not_mem_uses isFunction others span)
    · exact Nat.lt_of_lt_of_le (length_search search) h

/-! ### What the scope tells of it -/

theorem Define.callsItself_resolve (scope : Scope) (place : Address) (d : Define α) :
    (d.resolve scope place).callsItself = d.callsItself := by
  unfold callsItself resolve
  split <;> rfl

theorem Statement.callsItself_resolve (scope : Scope) (place : Address) (st : Statement α) :
    (st.resolve scope place).callsItself = st.callsItself := by
  cases st with
  | define h d => exact d.callsItself_resolve scope place
  | _ => rfl

/-- The scope has an entry for each slot, and no function in sight calls itself. -/
structure Scope.Measures (scope : Scope) (V : List (Slot α)) : Prop where
  length : V.length = scope.length
  mild : ∀ x ∈ V, x.Mild

theorem Scope.Measures.cons {scope : Scope} {V : List (Slot α)} (h : scope.Measures V) (e : Entry)
    {x : Slot α} (mild : x.Mild) : Scope.Measures (e :: scope) (x :: V) where
  length := congrArg (· + 1) h.length
  mild := List.forall_mem_cons.mpr ⟨mild, h.mild⟩

theorem Slot.mild_value (name : String) (v : Value α) : Slot.Mild ⟨name, .value v⟩ := nofun

theorem Define.Binds.mild {d : Define α} {b : Binding α} (h : d.Binds b)
    (others : d.callsItself = false) : Slot.Mild ⟨d.name, b⟩ := by
  intro f hf
  cases h with
  | function isFunction =>
    cases hf
    exact ⟨rfl, isFunction, others⟩
  | _ => cases hf

/-- A statement that is read in a scope of limited length and is no function that
calls itself. -/
structure Statement.Shallow (bound : Nat) (scope : Scope) (st : Statement α) : Prop where
  length : scope.length ≤ bound
  others : st.callsItself = false

def Draft.extent (d : Draft α) : Nat := d.placed.foldr (fun p n => p.1.length + n) 0

theorem Draft.length_le_extent {d : Draft α} {p : Scope × Statement α} (h : p ∈ d.placed) :
    p.1.length ≤ d.extent := by
  unfold extent
  generalize d.placed = placed at h
  induction placed with
  | nil => cases h
  | cons q rest ih =>
    rw [List.foldr_cons]
    rcases List.mem_cons.mp h with rfl | h
    · exact Nat.le_add_right _ _
    · exact Nat.le_trans (ih h) (Nat.le_add_left _ _)

theorem Draft.NoSelfCalls.shallow {d : Draft α} (h : d.NoSelfCalls)
    {placed : List (Scope × Statement α)} (resolved : Statement.ResolvedFrom d.placed placed) :
    ∀ p ∈ placed, p.2.Shallow d.extent p.1 := by
  intro p hp
  obtain ⟨q, hq, scope, place, same⟩ := resolved p hp
  obtain ⟨b, hb, mem⟩ := Draft.mem_flatten_of_placed hq
  refine ⟨?_, ?_⟩
  · rw [scope]
    exact Draft.length_le_extent hq
  · rw [same, Statement.callsItself_resolve]
    exact h b hb q.2 mem

variable [Scalar α]

/-! ### Fuel enough -/

def Session.bodyAt : Nat → Define α → Span → Action σ α (Value α)
  | 0, _, _ => Attempt.fail .outOfFuel
  | n + 1, d, span => (environmentAt n).evalDefine d span

theorem Session.environmentAt_eq_bodyAt (n : Nat) :
    (environmentAt n : Env Stop (Session σ α) α) = environment (bodyAt n) := by
  cases n <;> rfl

theorem Session.keeps_bodyAt (n : Nat) (d : Define α) (span : Span) :
    Action.Keeps (bodyAt n d span : Action σ α (Value α)) := by
  cases n with
  | zero => exact Action.keeps_fail nofun
  | succ n => exact (environmentAt_keeps n).evalDefine d span

def Pact.unbroken : Pact σ := .one (· ≠ .outOfFuel) fun _ usual => usual.1

/-- Evaluation with fuel enough on both sides comes to the same. -/
theorem environmentAt_answers {n n' : Nat} {V : List (Slot α)} {asked : Expr.Use → Prop}
    (mild : ∀ x ∈ V, x.Mild) (within : Slot.Within n V asked) (within' : Slot.Within n' V asked) :
    Env.Answers Pact.unbroken.parting (Looks (Pact.unbroken : Pact σ) V) asked
      (Session.environmentAt n) (Session.environmentAt n') := by
  -- What is found has fewer slots behind it than there are in sight, so that evaluation may
  -- go on with one level less. With none left nothing but values can be found.
  induction n generalizing n' V asked with
  | zero =>
    rw [Session.environmentAt_eq_bodyAt, Session.environmentAt_eq_bodyAt]
    refine Looks.environment (Session.keeps_bodyAt 0) (Session.keeps_bodyAt n')
      (fun _ _ _ _ => nofun) ?_ ?_
    · intro name span x rest d hu search binding
      exact absurd (within.deferred name span x rest d hu search binding) (Nat.not_lt_zero _)
    · intro name span args x rest d hu search binding _
      exact absurd (within.function name span x rest d hu search binding) (Nat.not_lt_zero _)
  | succ n ih =>
    have rests : ∀ {name x rest}, Slot.search name V = some (x, rest) → ∀ y ∈ rest, y.Mild :=
      fun search y hy => mild y ((Slot.search_mem search).2.2 hy)
    rw [Session.environmentAt_eq_bodyAt, Session.environmentAt_eq_bodyAt n']
    refine Looks.environment (Session.keeps_bodyAt _) (Session.keeps_bodyAt n')
      (fun _ _ _ _ => nofun) ?_ ?_
    · intro name span x rest d hu search binding
      have lower := within.deferred name span x rest d hu search binding
      have lower' := within'.deferred name span x rest d hu search binding
      match n', lower' with
      | n' + 1, lower' =>
        exact (ih (rests search) (.of_length (Nat.le_of_lt_succ lower) fun _ => True)
          (.of_length (Nat.le_of_lt_succ lower') _)).evalDefine d span fun _ _ => trivial
    · intro name span args x rest d hu search binding _
      have lower := within.function name span x rest d hu search binding
      have lower' := within'.function name span x rest d hu search binding
      have values : ∀ y ∈ (Param.slots d.params args).reverse, ∃ v, y.binding = .value v :=
        fun y hy => Param.slots_values d.params args y (List.mem_reverse.mp hy)
      have here : x.Mild := mild x (Slot.search_mem search).2.1
      have sight : ∀ y ∈ (Param.slots d.params args).reverse ++ x :: rest, y.Mild := by
        intro y hy
        rcases List.mem_append.mp hy with hy | hy
        · obtain ⟨v, hv⟩ := values y hy
          intro f hf
          rw [hv] at hf
          cases hf
        · rcases List.mem_cons.mp hy with rfl | hy
          · exact here
          · exact rests search y hy
      match n', lower' with
      | n' + 1, lower' =>
        exact (ih sight (.body here binding (Nat.le_of_lt_succ lower) values)
          (.body here binding (Nat.le_of_lt_succ lower') values)).evalDefine d span fun _ => id

/-- Evaluation nests no deeper than there are slots in sight. -/
theorem Session.eval_enough {s : Session σ α} (proper : s.view.Proper s.stack)
    (mild : ∀ x ∈ s.stack.visible s.view, x.Mild) (e : Expr α) {n : Nat}
    (hn : (s.stack.visible s.view).length ≤ n) :
    ((environmentAt n).eval e).run s =
        ((environmentAt (s.stack.visible s.view).length).eval e).run s ∧
      ∀ t, ((environmentAt n).eval e).run s ≠ .failed .outOfFuel t := by
  have answers := environmentAt_answers (σ := σ) mild (.of_length hn fun _ => True)
    (.of_length (Nat.le_refl _) _)
  have looks : Looks (Pact.unbroken : Pact σ) (s.stack.visible s.view) s s :=
    ⟨⟨fun _ => rfl, .refl rfl fun _ _ _ => trivial⟩, ⟨rfl, proper⟩, ⟨rfl, proper⟩⟩
  have meets := answers.eval e (fun _ _ => trivial) s s looks
  obtain ⟨same, unbroken⟩ := Pact.one_meets
    (meets.weaken (.refl _) (fun _ _ later => later.toHolds) fun _ _ => id)
  exact ⟨same, fun t failed => unbroken _ t failed rfl⟩

namespace Setting

variable {d : Draft α} {g : Grammar α}

theorem measured_score (drafted : d.Drafted) (built : d.build = .ok g) (others : d.NoSelfCalls)
    (r : Renderer σ α) (options : Options) :
    Score (Pact.unbroken : Pact σ) (standard g r options) Scope.Measures
      (fun scope st => st.Shallow d.extent scope) d.globalScope
      (fun n _ => Session.environmentAt n) (fun n _ => Session.environmentAt n) where
  keeps n _ := Session.environmentAt_keeps n
  keeps' n _ := Session.environmentAt_keeps n
  param _ _ p v _ h := h.cons _ (Slot.mild_value p.name v)
  define _ _ _ _ _ shallow h binds := h.cons _ (binds.mild shallow.others)
  respects := Pact.one_respects r
  fits _ hshape _ hrule := others.shallow (Draft.rules_resolvedFrom drafted built hshape hrule)

theorem measured_agree (drafted : d.Drafted) (built : d.build = .ok g) (others : d.NoSelfCalls)
    (r : Renderer σ α) (options : Options) {n n' : Nat} (hn : d.extent ≤ n) (hn' : d.extent ≤ n') :
    (measured_score drafted built others r options).Agree n n' := by
  intro scope V st shallow measures
  have length : V.length ≤ d.extent := measures.length ▸ shallow.length
  exact environmentAt_answers measures.mild (.of_length (Nat.le_trans length hn) _)
    (.of_length (Nat.le_trans length hn') _)

/-- At a depth below which the renderer lets shapes nest by `k` levels at most, fuel
for these and for evaluation is enough. -/
theorem expand_enough (drafted : d.Drafted) (built : d.build = .ok g) (others : d.NoSelfCalls)
    {r : Renderer σ α} {deepest : Nat}
    (cut : ∀ i depth ρ, deepest < depth → (r.cutoff i depth ρ).1 ≠ .expand) (options : Options)
    {G : List (Slot α)} (hG : d.globalScope.Measures G) (k : Nat) {δ n n' : Nat}
    (low : deepest ≤ δ + k) (hn : d.extent + k ≤ n) (hn' : d.extent + k ≤ n') (i : Instance α) :
    InStep Pact.unbroken.parting (Afoot (Pact.unbroken : Pact σ) G δ) Eq
      ((standard g r options).guidedExpand (fun n _ => Session.environmentAt n) d.globalScope
        (n + 1) i)
      ((standard g r options).guidedExpand (fun n _ => Session.environmentAt n) d.globalScope
        (n' + 1) i) := by
  have agree := measured_agree drafted built others r options (Nat.le_of_add_right_le hn)
    (Nat.le_of_add_right_le hn')
  induction k generalizing δ n n' i with
  | zero =>
    refine (measured_score drafted built others r options).expand_succ agree hG ?_ i
    rintro ⟨i, ρ, expands⟩
    exact absurd expands (cut i (δ + 1) ρ (Nat.lt_succ_of_le low))
  | succ k ih =>
    match n, n', hn, hn' with
    | n + 1, n' + 1, hn, hn' =>
      have lower : d.extent + k ≤ n := Nat.le_of_succ_le_succ hn
      have lower' : d.extent + k ≤ n' := Nat.le_of_succ_le_succ hn'
      refine (measured_score drafted built others r options).expand_succ agree hG (fun _ i => ?_) i
      exact ih (by omega) lower lower' i (measured_agree drafted built others r options
        (Nat.le_of_add_right_le lower) (Nat.le_of_add_right_le lower'))

/-- Two runs with fuel for all that may nest are one. -/
theorem run_enough (drafted : d.Drafted) (built : d.build = .ok g) (others : d.NoSelfCalls)
    {r : Renderer σ α} {deepest : Nat}
    (cut : ∀ i depth ρ, deepest < depth → (r.cutoff i depth ρ).1 ≠ .expand) (options : Options)
    {n n' : Nat} (hn : d.extent + deepest ≤ n) (hn' : d.extent + deepest ≤ n') (start : Nat)
    {s : Session σ α} (rest : s.AtRest) :
    Meets Pact.unbroken.parting (Pact.unbroken : Pact σ).Holds Eq
      (((standard g r options).run (n + 1) start).run s)
      (((standard g r options).run (n' + 1) start).run s) := by
  have agree := measured_agree drafted built others r options
    (Nat.le_succ_of_le (Nat.le_of_add_right_le hn)) (Nat.le_succ_of_le (Nat.le_of_add_right_le hn'))
  rw [← guidedRun_const (standard g r options) d.globalScope (n + 1),
    ← guidedRun_const (standard g r options) d.globalScope (n' + 1)]
  exact (measured_score drafted built others r options).run agree ⟨rfl, nofun⟩
    (Draft.scopeAfterAll_globals built)
    (fun p hp => ⟨others.shallow (Draft.globals_resolvedFrom built) p hp,
      Draft.globals_placed_defines drafted built p hp⟩)
    (fun _ hG => expand_enough drafted built others cut options hG deepest (Nat.le_add_left _ _)
      hn hn') start rest (.refl rfl fun _ _ _ => trivial)

/-- Where no function calls itself and the renderer lets nothing be expanded beyond
some depth, every run comes to an end: there is fuel that cuts no run short, and
more of it changes nothing. In particular evaluation ends, since it nests no deeper
than there are slots in sight. -/
theorem run_terminates (drafted : d.Drafted) (built : d.build = .ok g) (others : d.NoSelfCalls)
    {r : Renderer σ α} {deepest : Nat}
    (cut : ∀ i depth ρ, deepest < depth → (r.cutoff i depth ρ).1 ≠ .expand) :
    (∃ enough, ∀ (options : Options) (start : Nat) (s : Session σ α), s.AtRest →
      ∀ fuel, enough ≤ fuel →
        ((standard g r options).run fuel start).run s =
            ((standard g r options).run enough start).run s ∧
          ∀ t, ((standard g r options).run fuel start).run s ≠ .failed .outOfFuel t) ∧
      ∀ s : Session σ α, s.view.Proper s.stack → (∀ x ∈ s.stack.visible s.view, x.Mild) →
        ∀ (e : Expr α) (n : Nat), (s.stack.visible s.view).length ≤ n →
          ((Session.environmentAt n).eval e).run s =
              ((Session.environmentAt (s.stack.visible s.view).length).eval e).run s ∧
            ∀ t, ((Session.environmentAt n).eval e).run s ≠ .failed .outOfFuel t := by
  refine ⟨⟨d.extent + deepest + 1, fun options start s rest fuel enough => ?_⟩,
    fun s proper mild e n hn => Session.eval_enough proper mild e hn⟩
  obtain ⟨n, rfl⟩ := Nat.exists_eq_add_of_le' (Nat.le_of_add_left_le enough)
  obtain ⟨same, unbroken⟩ := Pact.one_meets (run_enough drafted built others cut options
    (Nat.le_of_succ_le_succ enough) (Nat.le_refl _) start rest)
  exact ⟨same, fun t failed => unbroken _ t failed rfl⟩

end Setting

theorem Sample.endless_noSelfCalls : endless.NoSelfCalls := by
  change ∀ b ∈ endless.globals :: endless.bodies, ∀ st ∈ b.flatten, st.callsItself = false
  decide +kernel

/-- The recorder lets nothing be expanded that is too deep. -/
theorem Recorder.cutoff_ne_expand (limits : Limits α) (i : Instance α) (depth : Nat)
    (r : Recorder α) (deep : limits.maxDepth < depth) :
    ((Recorder.renderer limits).cutoff i depth r).1 ≠ .expand := by
  simp only [renderer, cutoff]
  split
  · simp
  · rw [if_pos (.inl deep)]
    simp

def Sample.bound : Session (Recorder Rat × Array (Call Rat)) Rat :=
  { session .empty with
    stack := ⟨#[⟨"half", .function half⟩, ⟨"drift", .deferred drift⟩], #[0], 1⟩ }

theorem Sample.bound_mild : ∀ x ∈ bound.stack.visible bound.view, x.Mild := by
  have drifts : Slot.Mild ⟨"drift", .deferred drift⟩ := nofun
  have halves : Slot.Mild ⟨"half", .function half⟩ := by
    rintro d ⟨⟩
    exact ⟨rfl, rfl, by decide⟩
  rintro x (_ | ⟨_, _ | ⟨_, ⟨⟩⟩⟩)
  · exact drifts
  · exact halves

theorem Setting.run_terminates_sample :
    Sample.endless.Drafted ∧ Sample.endless.build = .ok Sample.endless.resolved ∧
      Sample.endless.NoSelfCalls ∧
      (∃ enough, ∀ fuel, enough ≤ fuel →
        ((standard Sample.endless.resolved Sample.renderer Sample.options).run fuel 0).run
            (Sample.session .empty) =
          ((standard Sample.endless.resolved Sample.renderer Sample.options).run enough 0).run
            (Sample.session .empty) ∧
        ∀ t, ((standard Sample.endless.resolved Sample.renderer Sample.options).run fuel 0).run
          (Sample.session .empty) ≠ .failed .outOfFuel t) ∧
      ∀ t, ((Session.environmentAt 2).eval (Sample.var "drift")).run Sample.bound ≠
        .failed .outOfFuel t := by
  have cut : ∀ i depth ρ, 64 < depth → (Sample.renderer.cutoff i depth ρ).1 ≠ .expand :=
    fun i depth ρ deep => Recorder.cutoff_ne_expand .standard i depth ρ.1 deep
  obtain ⟨⟨enough, ends⟩, evaluates⟩ :=
    run_terminates Sample.endless_drafted Sample.endless_build Sample.endless_noSelfCalls cut
  exact ⟨Sample.endless_drafted, Sample.endless_build, Sample.endless_noSelfCalls,
    ⟨enough, fun fuel enoughFuel => ends Sample.options 0 (Sample.session .empty)
      (Session.begin_atRest _ _ _) fuel enoughFuel⟩,
    (evaluates Sample.bound .full Sample.bound_mild (Sample.var "drift") 2 (by decide)).2⟩

end ShapeGrammar
