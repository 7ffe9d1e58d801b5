import ShapeGrammar.Expansion.Replica
import ShapeGrammar.Expansion.Environment
import ShapeGrammar.Proofs.InStep

/-!
# What evaluation asks for

An expression turns to its environment for the variables it reads and the
functions it calls, and for nothing else. Two environments that answer these
uses alike evaluate the expression alike, whatever they make of other names.
Evaluation itself never finds a name undefined: only a lookup can.
-/

set_option autoImplicit false

namespace ShapeGrammar

open Attempt

/-! ### Uses -/

namespace Expr

variable {α : Type}

inductive Use where
  | read (name : String) (span : Span)
  | call (name : String) (span : Span)

/-- The occurrence that must be defined where it stands; a builtin needs no
definition. -/
def Use.occurrence? : Use → Option Occurrence
  | .read name span => some (name, span)
  | .call name span => if Builtin.namesAny name then none else some (name, span)

mutual

def uses : Expr α → List Use
  | .number _ _ => []
  | .flag _ _ => []
  | .var name span => [.read name span]
  | .tuple items _ => allUses items
  | .unary _ operand _ => operand.uses
  | .binary left _ right _ => left.uses ++ right.uses
  | .call callee args span => .call callee span :: allUses args

def allUses : List (Expr α) → List Use
  | [] => []
  | e :: rest => e.uses ++ allUses rest

end

theorem allUses_eq_flatMap (items : List (Expr α)) : allUses items = items.flatMap uses := by
  induction items with
  | nil => rfl
  | cons e rest ih => rw [allUses, ih, List.flatMap_cons]

mutual

/-- The names that are checked are those of the uses. -/
theorem names_eq_uses : ∀ e : Expr α, e.names = e.uses.filterMap Use.occurrence?
  | .number _ _ => rfl
  | .flag _ _ => rfl
  | .var _ _ => rfl
  | .tuple items _ => allNames_eq_allUses items
  | .unary _ operand _ => operand.names_eq_uses
  | .binary left _ right _ => by
    rw [names, uses, List.filterMap_append, left.names_eq_uses, right.names_eq_uses]
  | .call callee args span => by
    rw [names, uses, List.filterMap_cons, allNames_eq_allUses args, Use.occurrence?]
    split <;> rfl

theorem allNames_eq_allUses : ∀ items : List (Expr α),
    allNames items = (allUses items).filterMap Use.occurrence?
  | [] => rfl
  | e :: rest => by
    rw [allNames, allUses, List.filterMap_append, e.names_eq_uses, allNames_eq_allUses rest]

end

theorem names_eq : (names : Expr α → List Occurrence) = fun e => e.uses.filterMap Use.occurrence? :=
  funext names_eq_uses

end Expr

section Parts

variable {α : Type}

def Bundle.uses (b : Bundle α) : List Expr.Use := b.terms.flatMap fun t => t.args.flatMap Expr.uses

def DefineBody.uses : DefineBody α → List Expr.Use
  | .expr e => e.uses
  | .mods b => b.uses

def Symmetry.uses : Symmetry α → List Expr.Use
  | .mods b => b.uses
  | _ => []

def Head.uses (h : Head α) : List Expr.Use := h.mods.uses ++ h.args.flatMap Expr.uses

def Path.Op.uses (o : Path.Op α) : List Expr.Use := o.args.flatMap fun arg => arg.2.uses

def Path.CommandSpec.uses (c : Path.CommandSpec α) : List Expr.Use := c.exprs.flatMap Expr.uses

/-- What a statement itself asks for, apart from the bodies inside it. The body
of a function is asked for by its calls. -/
def Statement.uses : Statement α → List Expr.Use
  | .replace h => h.uses
  | .loop h spec _ _ => h.uses ++ spec.range.uses
  | .transform h spec _ => h.uses ++ spec.generators.flatMap Symmetry.uses
  | .branch h cond _ _ => h.uses ++ cond.uses
  | .switch h selector _ _ _ => h.uses ++ selector.uses
  | .define h d => h.uses ++ (if d.isFunction then [] else d.body.uses)
  | .op h o => h.uses ++ o.uses
  | .command h c => h.uses ++ c.uses

theorem Bundle.names_eq_uses (b : Bundle α) :
    b.names = b.uses.filterMap Expr.Use.occurrence? := by
  simp only [names, uses, List.filterMap_flatMap, Expr.names_eq]

theorem Define.names_eq_uses (d : Define α) :
    d.names = d.body.uses.filterMap Expr.Use.occurrence? := by
  unfold names
  cases d.body with
  | expr e => exact e.names_eq_uses
  | mods b => exact b.names_eq_uses

theorem Symmetry.names_eq : (names : Symmetry α → List Expr.Occurrence) =
    fun s => s.uses.filterMap Expr.Use.occurrence? := by
  funext s
  cases s with
  | mods b => exact b.names_eq_uses
  | _ => rfl

theorem Head.names_eq_uses (h : Head α) :
    h.names = h.uses.filterMap Expr.Use.occurrence? := by
  simp only [names, uses, List.filterMap_append, List.filterMap_flatMap, Bundle.names_eq_uses,
    Expr.names_eq]

theorem Path.Op.names_eq_uses (o : Path.Op α) :
    o.names = o.uses.filterMap Expr.Use.occurrence? := by
  simp only [names, uses, List.filterMap_flatMap, Expr.names_eq]

theorem Path.CommandSpec.names_eq_uses (c : Path.CommandSpec α) :
    c.names = c.uses.filterMap Expr.Use.occurrence? := by
  simp only [names, uses, List.filterMap_flatMap, Expr.names_eq]

/-- Sorting by rank brings in no term of its own. -/
theorem Bundle.mem_terms_of_mem_sequence {b : Bundle α} {t : Term α} (h : t ∈ b.sequence) :
    t ∈ b.terms := by
  unfold sequence at h
  split at h
  · exact h
  · obtain ⟨r, _, ht⟩ := List.mem_flatMap.mp h
    exact (List.mem_filter.mp ht).1

end Parts

/-! ### Causes -/

def Ordinary {β : Type} (result : Except EvalCause β) : Prop :=
  ∀ name, result ≠ .error (.undefinedName name)

section Ordinary

variable {α : Type}

theorem Value.number?_ordinary (v : Value α) : Ordinary v.number? := by
  cases v <;> exact nofun

theorem Value.allNumbers_ordinary (vs : List (Value α)) : Ordinary (vs.mapM Value.number?) := by
  intro name
  induction vs with
  | nil => exact nofun
  | cons v rest ih =>
    rw [List.mapM_cons]
    cases v with
    | number x =>
      cases h : rest.mapM Value.number? with
      | ok xs => exact nofun
      | error cause =>
        rw [h] at ih
        simpa [Value.number?, bind, Except.bind] using ih
    | _ => exact nofun

theorem Value.numbersOr_ordinary {cause : Found → EvalCause}
    (hc : ∀ found name, cause found ≠ .undefinedName name) (v : Value α) :
    Ordinary (v.numbersOr cause) := by
  intro name
  unfold numbersOr
  split
  · exact nofun
  · exact fun same => hc _ name (Except.error.inj same)

theorem Value.conforms_ordinary (v : Value α) (kind : Kind) (width : Nat) (what : String) :
    Ordinary (v.conforms kind width what) := by
  intro name
  unfold conforms
  split <;> exact nofun

theorem Param.accept_ordinary (params : List Param) (values : List (Value α)) :
    Ordinary (Param.accept params values) := by
  fun_induction Param.accept params values with
  | case1 p params v values h ih => exact ih
  | case2 p params v values cause h =>
    have ordinary := v.conforms_ordinary p.kind p.width p.name
    rw [h] at ordinary
    exact ordinary
  | case3 => exact nofun

variable [Scalar α]

theorem Value.truth_ordinary (v : Value α) : Ordinary v.truth := by
  cases v <;> exact nofun

theorem UnaryOp.apply_ordinary (op : UnaryOp) (v : Value α) : Ordinary (op.apply v) := by
  cases op <;> cases v <;> exact nofun

theorem BinaryOp.onNumbers_ordinary (op : BinaryOp) (a b : α) : Ordinary (op.onNumbers a b) := by
  intro name
  cases op with
  | div | mod =>
    simp only [onNumbers]
    split <;> exact nofun
  | _ => exact nofun

theorem BinaryOp.onRows_ordinary (op : BinaryOp) (l r : Value α) : Ordinary (op.onRows l r) := by
  intro name
  unfold onRows
  simp only
  split
  any_goals split
  all_goals exact nofun

theorem BinaryOp.apply_ordinary (op : BinaryOp) (l r : Value α) : Ordinary (op.apply l r) := by
  intro name
  unfold apply
  split
  · exact nofun
  · exact nofun
  · split
    · exact onNumbers_ordinary op _ _ name
    · exact onRows_ordinary op l r name

theorem Builtin.run_ordinary (f : Builtin) (name : String) (xs : List α) :
    Ordinary (f.run name xs) := by
  have unary : ∀ {g : α → Except EvalCause α}, (∀ x, Ordinary (g x)) →
      Ordinary (unaryCall name xs g) := by
    intro g hg other
    unfold unaryCall
    split
    case h_1 x =>
      have ordinary := hg x other
      cases h : g x with
      | ok y => exact nofun
      | error cause =>
        rw [h] at ordinary
        simpa [Except.map] using ordinary
    case h_2 => exact nofun
  cases f with
  | sin | cos | tan | atan | abs | floor | ceil | exp => exact unary fun _ => nofun
  | sqrt | log =>
    refine unary fun x other => ?_
    split <;> exact nofun
  | atan2 | min | max | rand | randint =>
    intro other
    simp only [run]
    split <;> exact nofun

theorem TermKind.adjustment_ordinary (kind : TermKind) (xs : List α) :
    Ordinary (kind.adjustment xs) := by
  intro name
  unfold adjustment
  split <;> exact nofun

end Ordinary

/-! ### Environments side by side -/

/-- Two environments that answer certain uses alike. Draws matter only if one of
these uses is a random builtin. -/
structure Env.Answers {ε ε' ω ω' α : Type} (d : Parting ε ε' ω ω') (P : ω → ω' → Prop)
    (asked : Expr.Use → Prop) (env : Env ε ω α) (env' : Env ε' ω' α) : Prop where
  lookup : ∀ name span, asked (.read name span) →
    Attempt.InStep d P Eq (env.lookup name span) (env'.lookup name span)
  call : ∀ name args span, asked (.call name span) →
    Attempt.InStep d P Eq (env.call name args span) (env'.call name args span)
  draw : ∀ name span, asked (.call name span) → Builtin.namesRandom name = true →
    ∀ s s', P s s' →
      Option.Rel (fun a b => a.1 = b.1 ∧ P a.2 b.2) (env.draw s) (env'.draw s')
  raise : ∀ span cause, (∀ name, cause ≠ .undefinedName name) → ∀ s s', P s s' →
    d.together (env.raise ⟨span, cause⟩) (env'.raise ⟨span, cause⟩) s s'

namespace Env.Answers

section Settling

variable {ε ε' ω ω' α β : Type} {d : Parting ε ε' ω ω'} {P : ω → ω' → Prop}
  {asked : Expr.Use → Prop} {env : Env ε ω α} {env' : Env ε' ω' α}

theorem mono (h : Env.Answers d P asked env env') {asked' : Expr.Use → Prop}
    (less : ∀ u, asked' u → asked u) : Env.Answers d P asked' env env' where
  lookup name span hu := h.lookup name span (less _ hu)
  call name args span hu := h.call name args span (less _ hu)
  draw name span hu := h.draw name span (less _ hu)
  raise := h.raise

theorem fail (h : Env.Answers d P asked env env') {same : β → β → Prop} (span : Span)
    {cause : EvalCause} (hc : ∀ name, cause ≠ .undefinedName name) :
    Attempt.InStep d P same (env.fail span cause) (env'.fail span cause) :=
  Leads.fail fun s s' state => h.raise span cause hc s s' state

/-- What follows a step that needs no environment, with the result it comes from. -/
theorem settled (h : Env.Answers d P asked env env') {γ : Type} {same : γ → γ → Prop}
    (span : Span) {result : Except EvalCause β} (ordinary : Ordinary result)
    {f : β → Attempt ε ω γ} {g : β → Attempt ε' ω' γ}
    (hf : ∀ b, result = .ok b → Attempt.InStep d P same (f b) (g b)) :
    Attempt.InStep d P same (env.settle span result >>= f) (env'.settle span result >>= g) := by
  have settles : Attempt.InStep d P (fun b b' => b = b' ∧ result = .ok b)
      (env.settle span result) (env'.settle span result) := by
    cases result with
    | ok b => exact Leads.pure ⟨rfl, rfl⟩
    | error cause => exact h.fail span fun name same => ordinary name (congrArg Except.error same)
  refine Leads.bind settles ?_
  rintro b _ ⟨rfl, hb⟩
  exact hf b hb

theorem settle (h : Env.Answers d P asked env env') (span : Span) {result : Except EvalCause β}
    (ordinary : Ordinary result) :
    Attempt.InStep d P Eq (env.settle span result) (env'.settle span result) := by
  cases result with
  | ok b => exact Leads.pure rfl
  | error cause => exact h.fail span fun name same => ordinary name (congrArg Except.error same)

end Settling

end Env.Answers

variable {ε ε' ω ω' α : Type} [Scalar α]

/-- A builtin that is not random asks for no draw. -/
theorem Builtin.run_value {f : Builtin} (hf : f.isRandom = false) {name : String} {xs : List α}
    {result : Result α} (h : f.run name xs = .ok result) : ∃ x, result = .value x := by
  have unary : ∀ {g : α → Except EvalCause α}, unaryCall name xs g = .ok result →
      ∃ x, result = .value x := by
    intro g hg
    unfold unaryCall at hg
    split at hg
    case h_1 x =>
      cases hgx : g x with
      | error cause =>
        rw [hgx] at hg
        cases hg
      | ok y =>
        rw [hgx] at hg
        cases hg
        exact ⟨y, rfl⟩
    case h_2 => cases hg
  cases f with
  | sin | cos | tan | atan | sqrt | abs | floor | ceil | exp | log => exact unary h
  | atan2 | min | max =>
    simp only [run] at h
    split at h <;> cases h
    exact ⟨_, rfl⟩
  | rand | randint => cases hf

namespace Env.Answers

section Expressions

variable {d : Parting ε ε' ω ω'} {P : ω → ω' → Prop} {asked : Expr.Use → Prop}
  {env : Env ε ω α} {env' : Env ε' ω' α}

theorem finish (h : Env.Answers d P asked env env') {name : String} {span : Span}
    (hu : asked (.call name span)) {f : Builtin} (hf : Builtin.ofName? name = some f)
    {xs : List α} {result : Builtin.Result α} (hr : f.run name xs = .ok result) :
    Attempt.InStep d P Eq (env.finish name span result) (env'.finish name span result) := by
  cases result with
  | value x => exact Leads.pure rfl
  | drawn lo hi whole =>
    have random : f.isRandom = true := by
      rw [← Bool.not_eq_false]
      intro pure
      obtain ⟨x, hx⟩ := Builtin.run_value pure hr
      cases hx
    intro s s' state
    have draws := h.draw name span hu (by simp [Builtin.namesRandom, hf, random]) s s' state
    simp only [Env.finish]
    generalize env.draw s = a at draws ⊢
    generalize env'.draw s' = b at draws ⊢
    cases draws with
    | none => exact .together (h.raise span (.randomInConstant name) nofun s s' state)
    | @some a b both =>
      obtain ⟨u, t⟩ := a
      obtain ⟨u', t'⟩ := b
      obtain ⟨rfl, hs⟩ := both
      exact .ok rfl hs

theorem builtin (h : Env.Answers d P asked env env') {name : String} {span : Span}
    (hu : asked (.call name span)) (args : List (Value α)) :
    Attempt.InStep d P Eq (env.builtin name args span) (env'.builtin name args span) := by
  refine h.settled span (Value.allNumbers_ordinary args) fun xs _ => ?_
  cases hf : Builtin.ofName? name with
  | none => exact h.fail span nofun
  | some f => exact h.settled span (f.run_ordinary name xs) fun result hr => h.finish hu hf hr

mutual

theorem eval (h : Env.Answers d P asked env env') :
    ∀ e : Expr α, (∀ u ∈ e.uses, asked u) → Attempt.InStep d P Eq (env.eval e) (env'.eval e)
  | .number x _, _ => Leads.pure rfl
  | .flag b _, _ => Leads.pure rfl
  | .var name span, hu => h.lookup name span (hu _ (by simp [Expr.uses]))
  | .tuple items span, hu => by
    refine Leads.andThen (h.evalNumbers .tupleElement (fun _ => nofun) span items hu) fun xs => ?_
    exact Leads.pure rfl
  | .unary op operand span, hu => by
    refine Leads.andThen (h.eval operand hu) fun v => ?_
    exact h.settle span (op.apply_ordinary v)
  | .binary left op right span, hu => by
    have hl : ∀ u ∈ left.uses, asked u := fun u h => hu u (List.mem_append_left _ h)
    have hr : ∀ u ∈ right.uses, asked u := fun u h => hu u (List.mem_append_right _ h)
    have truth : Attempt.InStep d P (@Eq (Value α))
        (do return Value.flag (← env.settle span (← env.eval right).truth))
        (do return Value.flag (← env'.settle span (← env'.eval right).truth)) := by
      refine Leads.andThen (h.eval right hr) fun r => ?_
      exact h.settled span r.truth_ordinary fun b _ => Leads.pure rfl
    refine Leads.andThen (h.eval left hl) fun l => ?_
    cases op with
    | and =>
      refine h.settled span l.truth_ordinary fun b _ => ?_
      cases b
      · exact Leads.pure rfl
      · exact truth
    | or =>
      refine h.settled span l.truth_ordinary fun b _ => ?_
      cases b
      · exact truth
      · exact Leads.pure rfl
    | _ =>
      refine Leads.andThen (h.eval right hr) fun r => ?_
      exact h.settle span (BinaryOp.apply_ordinary _ l r)
  | .call callee args span, hu => by
    have hc : asked (.call callee span) := hu _ (by simp [Expr.uses])
    have ha : ∀ u ∈ Expr.allUses args, asked u := fun u h => hu u (List.mem_cons_of_mem _ h)
    refine Leads.andThen (h.evalAll args ha) fun values => ?_
    refine Leads.andThen (h.call callee values span hc) fun answer => ?_
    cases answer with
    | some v => exact Leads.pure rfl
    | none => exact h.builtin hc values

theorem evalNumbers (h : Env.Answers d P asked env env') (cause : Found → EvalCause)
    (hc : ∀ found name, cause found ≠ .undefinedName name) (span : Span) :
    ∀ items : List (Expr α), (∀ u ∈ Expr.allUses items, asked u) →
      Attempt.InStep d P Eq (env.evalNumbers cause span items) (env'.evalNumbers cause span items)
  | [], _ => Leads.pure rfl
  | e :: rest, hu => by
    refine Leads.andThen (h.eval e fun u h => hu u (List.mem_append_left _ h)) fun v => ?_
    refine h.settled span (v.numbersOr_ordinary hc) fun xs _ => ?_
    have hr : ∀ u ∈ Expr.allUses rest, asked u := fun u h => hu u (List.mem_append_right _ h)
    exact Leads.andThen (h.evalNumbers cause hc span rest hr) fun ys => Leads.pure rfl

theorem evalAll (h : Env.Answers d P asked env env') :
    ∀ items : List (Expr α), (∀ u ∈ Expr.allUses items, asked u) →
      Attempt.InStep d P Eq (env.evalAll items) (env'.evalAll items)
  | [], _ => Leads.pure rfl
  | e :: rest, hu => by
    refine Leads.andThen (h.eval e fun u h => hu u (List.mem_append_left _ h)) fun v => ?_
    have hr : ∀ u ∈ Expr.allUses rest, asked u := fun u h => hu u (List.mem_append_right _ h)
    exact Leads.andThen (h.evalAll rest hr) fun vs => Leads.pure rfl

end

theorem evalNumber (h : Env.Answers d P asked env env') (e : Expr α) (hu : ∀ u ∈ e.uses, asked u) :
    Attempt.InStep d P Eq (env.evalNumber e) (env'.evalNumber e) :=
  Leads.andThen (h.eval e hu) fun v => h.settle e.span v.number?_ordinary

theorem evalSplice (h : Env.Answers d P asked env env') (span : Span) (args : List (Expr α))
    (hu : ∀ u ∈ args.flatMap Expr.uses, asked u) :
    Attempt.InStep d P Eq (env.evalSplice span args) (env'.evalSplice span args) := by
  match args with
  | [] => exact h.fail span nofun
  | [e] =>
    refine Leads.andThen (h.eval e fun u h => hu u (by simpa using h)) fun v => ?_
    cases v with
    | adjustment m => exact Leads.pure rfl
    | number x => exact h.fail span nofun
    | flag b => exact h.fail span nofun
    | tuple xs => exact h.fail span nofun
  | _ :: _ :: _ => exact h.fail span nofun

theorem evalTerm (h : Env.Answers d P asked env env') (t : Term α)
    (hu : ∀ u ∈ t.args.flatMap Expr.uses, asked u) :
    Attempt.InStep d P Eq (env.evalTerm t) (env'.evalTerm t) := by
  unfold Env.evalTerm
  split
  · exact h.evalSplice t.span t.args hu
  · rw [← Expr.allUses_eq_flatMap] at hu
    refine Leads.andThen (h.evalNumbers .notNumber (fun _ => nofun) t.span t.args hu) fun xs => ?_
    exact h.settle t.span (t.kind.adjustment_ordinary xs)

theorem evalTerms (h : Env.Answers d P asked env env') (terms : List (Term α))
    (hu : ∀ t ∈ terms, ∀ u ∈ t.args.flatMap Expr.uses, asked u) (m : Adjustment α) :
    Attempt.InStep d P Eq (env.evalTerms terms m) (env'.evalTerms terms m) := by
  induction terms generalizing m with
  | nil => exact Leads.pure rfl
  | cons t rest ih =>
    exact Leads.andThen (h.evalTerm t (hu t (by simp))) fun f =>
      ih (fun t ht => hu t (by simp [ht])) (m.andThen f)

theorem evalBundle (h : Env.Answers d P asked env env') (b : Bundle α)
    (hu : ∀ u ∈ b.uses, asked u) :
    Attempt.InStep d P Eq (env.evalBundle b) (env'.evalBundle b) := by
  refine h.evalTerms b.sequence (fun t ht u h => hu u ?_) _
  exact List.mem_flatMap.mpr ⟨t, Bundle.mem_terms_of_mem_sequence ht, h⟩

end Expressions

section Defines

variable {d : Parting Stop Stop ω ω'} {P : ω → ω' → Prop} {asked : Expr.Use → Prop}
  {env : Env Stop ω α} {env' : Env Stop ω' α}

theorem evalBody (h : Env.Answers d P asked env env') (b : DefineBody α)
    (hu : ∀ u ∈ b.uses, asked u) :
    Attempt.InStep d P Eq (env.evalBody b) (env'.evalBody b) := by
  cases b with
  | expr e => exact h.eval e hu
  | mods b => exact Leads.andThen (h.evalBundle b hu) fun _ => Leads.pure rfl

theorem evalDefine (h : Env.Answers d P asked env env') (f : Define α) (span : Span)
    (hu : ∀ u ∈ f.body.uses, asked u) :
    Attempt.InStep d P Eq (env.evalDefine f span) (env'.evalDefine f span) :=
  Leads.andThen (h.evalBody f.body hu) fun v =>
    h.settled span (v.conforms_ordinary f.kind f.width f.name) fun _ _ => Leads.pure rfl

end Defines

section Replicas

variable {σ σ' : Type} {d : Parting Stop Stop (Session σ α) (Session σ' α)}
  {P : Session σ α → Session σ' α → Prop} {asked : Expr.Use → Prop}
  {env : Env Stop (Session σ α) α} {env' : Env Stop (Session σ' α) α}

theorem factors (h : Env.Answers d P asked env env') (g : Symmetry α)
    (hu : ∀ u ∈ g.uses, asked u) : Attempt.InStep d P Eq (g.factors env) (g.factors env') := by
  cases g with
  | mods b => exact Leads.andThen (h.evalBundle b hu) fun _ => Leads.pure rfl
  | cyclic n => exact Leads.pure rfl
  | dihedral n => exact Leads.pure rfl

theorem productFrom (h : Env.Answers d P asked env env') (generators : List (Symmetry α))
    (hu : ∀ g ∈ generators, ∀ u ∈ g.uses, asked u) (product : List (Adjustment α)) :
    Attempt.InStep d P Eq (Symmetry.productFrom env generators product)
      (Symmetry.productFrom env' generators product) := by
  induction generators generalizing product with
  | nil => exact Leads.pure rfl
  | cons g rest ih =>
    exact Leads.andThen (h.factors g (hu g (by simp))) fun fs =>
      ih (fun g hr => hu g (by simp [hr])) _

end Replicas

end Env.Answers

end ShapeGrammar
