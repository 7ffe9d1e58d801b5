import ShapeGrammar.Proofs.Sample
import ShapeGrammar.Proofs.Naming

/-!
# The width of a value

A row of one number is the number itself, wherever it comes from: of a tuple it is made
so, and the operators make no other. So what an expression comes to has one form, given
that names and functions come to such values, as they do in a session. How many numbers
it is can be read off the syntax of tuples and signs, and evaluation bears this out.
-/

set_option autoImplicit false

namespace ShapeGrammar

open Attempt

variable {ε ω α β γ : Type}

/-! ### Values in one form -/

namespace Value

/-- No row of one number. -/
def Canonical : Value α → Prop
  | .tuple xs => xs.length ≠ 1
  | _ => True

theorem canonical_iff {v : Value α} : v.Canonical ↔ ∀ x, v ≠ .tuple [x] := by
  cases v with
  | tuple xs => simp [Canonical, List.length_eq_one_iff]
  | _ => simp [Canonical]

theorem canonical_ofNumbers (xs : List α) : (ofNumbers xs).Canonical := by
  unfold ofNumbers
  split
  · trivial
  · case h_2 other => exact fun single => (List.length_eq_one_iff.mp single).elim other

theorem width_ofNumbers (xs : List α) : (ofNumbers xs).width = xs.length := by
  unfold ofNumbers
  split <;> rfl

theorem length_of_numbers? {v : Value α} {xs : List α} (h : v.numbers? = some xs) :
    xs.length = v.width := by
  cases v with
  | number x => cases h; rfl
  | tuple ys => cases h; rfl
  | flag b => cases h
  | adjustment m => cases h

theorem length_of_numbersOr [Scalar α] {v : Value α} {cause : Found → EvalCause} {xs : List α}
    (h : v.numbersOr cause = .ok xs) : xs.length = v.width := by
  unfold numbersOr at h
  split at h
  case h_1 found =>
    cases h
    exact length_of_numbers? found
  case h_2 => cases h

theorem Canonical.eq_number {v : Value α} (h : v.Canonical) (numeric : v.kind = .number)
    (single : v.width = 1) : ∃ x, v = .number x := by
  cases v with
  | number x => exact ⟨x, rfl⟩
  | tuple xs => exact absurd single h
  | flag b => cases numeric
  | adjustment m => cases numeric

theorem conforms_single_iff {v : Value α} (h : v.Canonical) (what : String) :
    v.conforms .number 1 what = .ok () ↔ ∃ x, v = .number x := by
  unfold conforms
  constructor
  · intro accepted
    split at accepted
    case isTrue declared => exact h.eq_number declared.1 declared.2
    case isFalse => cases accepted
  · rintro ⟨x, rfl⟩
    rfl

variable [Scalar α]

/-- Values in this form are the same just when their numbers are. -/
theorem Canonical.same_eq {v w : Value α} (hv : v.Canonical) (hw : w.Canonical) {xs ys : List α}
    (left : v.numbers? = some xs) (right : w.numbers? = some ys) : v.same w = (xs == ys) := by
  have apart : ∀ (x : α) (zs : List α), zs.length ≠ 1 →
      ([x] == zs) = false ∧ (zs == [x]) = false := by
    intro x zs other
    match zs with
    | [] => exact ⟨rfl, rfl⟩
    | [_] => exact absurd rfl other
    | _ :: _ :: _ => simp
  cases v with
  | number x =>
    cases left
    cases w with
    | number y => cases right; simp [same]
    | tuple zs => cases right; exact (apart x _ hw).1.symm
    | _ => cases right
  | tuple zs =>
    cases left
    cases w with
    | number y => cases right; exact (apart y _ hv).2.symm
    | tuple zs' => cases right; rfl
    | _ => cases right
  | _ => cases left

end Value

/-! ### Operators -/

section Operators

variable [Scalar α]

theorem UnaryOp.apply_width {op : UnaryOp} {v w : Value α} (h : op.apply v = .ok w) :
    w.width = v.width := by
  cases op <;> cases v <;> cases h <;> simp [Value.width]

theorem UnaryOp.apply_canonical {op : UnaryOp} {v w : Value α} (h : op.apply v = .ok w)
    (hv : v.Canonical) : w.Canonical := by
  cases op <;> cases v <;> cases h
  case neg.tuple xs => simpa [Value.Canonical] using hv
  all_goals trivial

theorem BinaryOp.onNumbers_canonical {op : BinaryOp} {a b : α} {v : Value α}
    (h : op.onNumbers a b = .ok v) : v.Canonical := by
  cases op with
  | div | mod =>
    simp only [onNumbers] at h
    split at h <;> cases h
    trivial
  | eq | ne | and | or => cases h
  | _ => cases h; trivial

theorem BinaryOp.onRows_canonical {op : BinaryOp} {l r v : Value α} (h : op.onRows l r = .ok v)
    (hl : l.Canonical) (hr : r.Canonical) : v.Canonical := by
  unfold onRows at h
  simp only at h
  split at h
  case h_1 | h_2 =>
    split at h <;> cases h
    simp_all [Value.Canonical]
  case h_3 => cases h; simpa [Value.Canonical] using hr
  case h_4 => cases h; simpa [Value.Canonical] using hl
  case h_5 =>
    split at h <;> cases h
    simpa [Value.Canonical] using hl
  case h_6 => cases h

theorem BinaryOp.apply_canonical {op : BinaryOp} {l r v : Value α} (h : op.apply l r = .ok v)
    (hl : l.Canonical) (hr : r.Canonical) : v.Canonical := by
  unfold apply at h
  split at h
  · cases h; trivial
  · cases h; trivial
  · split at h
    · exact onNumbers_canonical h
    · exact onRows_canonical h hl hr

end Operators

/-! ### Evaluation -/

namespace Attempt

/-- Where `I` holds, the attempt succeeds with such values only, and `I` holds again. -/
def Gives (I : ω → Prop) (K : β → Prop) (x : Attempt ε ω β) : Prop :=
  ∀ s b t, I s → x.run s = .ok b t → K b ∧ I t

variable {I : ω → Prop} {K K' : β → Prop} {L : γ → Prop}

theorem gives_pure {b : β} (h : K b) : Gives I K (pure b : Attempt ε ω β) := by
  rintro s _ _ hs ⟨⟩
  exact ⟨h, hs⟩

theorem gives_fail {e : ε} : Gives I K (Attempt.fail e : Attempt ε ω β) := by
  rintro s _ _ hs ⟨⟩

theorem Gives.imp {x : Attempt ε ω β} (hx : Gives I K x) (h : ∀ b, K b → K' b) : Gives I K' x :=
  fun s b t hs ran => ⟨h b (hx s b t hs ran).1, (hx s b t hs ran).2⟩

theorem Gives.bind {x : Attempt ε ω β} {f : β → Attempt ε ω γ} (hx : Gives I K x)
    (hf : ∀ b, K b → Gives I L (f b)) : Gives I L (x >>= f) := by
  intro s c u hs ran
  rw [run_bind] at ran
  cases first : x.run s with
  | ok b t =>
    rw [first] at ran
    obtain ⟨hb, ht⟩ := hx s b t hs first
    exact hf b hb t c u ht ran
  | failed e t =>
    rw [first] at ran
    cases ran

theorem gives_settled {env : Env ε ω α} {span : Span} {result : Except EvalCause β}
    {f : β → Attempt ε ω γ} (hf : ∀ b, result = .ok b → Gives I L (f b)) :
    Gives I L (env.settle span result >>= f) := by
  cases result with
  | ok b => exact hf b rfl
  | error cause => rintro s _ _ _ ⟨⟩

theorem gives_settle {env : Env ε ω α} {span : Span} {result : Except EvalCause β}
    (h : ∀ b, result = .ok b → K b) : Gives I K (env.settle span result) := by
  cases result with
  | ok b => exact gives_pure (h b rfl)
  | error cause => exact gives_fail

theorem Gives.wrap {J : ω → Prop} {before : ω → ω} {after : ω → ω → ω} {w x : Attempt ε ω β}
    (hx : Gives J K x) (hw : Wraps before after w x) (enter : ∀ s, I s → J (before s))
    (leave : ∀ s t, I s → J t → I (after s t)) : Gives I K w := by
  intro s b t hs ran
  rw [hw s] at ran
  have inner := hx (before s)
  generalize x.run (before s) = o at ran inner
  cases o with
  | ok c u =>
    cases ran
    obtain ⟨hb, hu⟩ := inner _ _ (enter s hs) rfl
    exact ⟨hb, leave s u hs hu⟩
  | failed e u => cases ran

theorem gives_of_state {f : ω → Attempt ε ω β} (h : ∀ s, I s → Gives I K (f s)) :
    Gives I K (Attempt.state >>= f) :=
  fun s b t hs ran => h s hs s b t hs ran

end Attempt

structure Expr.Fits (e : Expr α) (v : Value α) : Prop where
  canonical : v.Canonical
  width : ∀ n, e.staticWidth = some n → v.width = n

namespace Env

/-- From states of which `I` holds on, no name and no function comes to a row of one
number, provided that no function is given one. -/
structure Canonical (I : ω → Prop) (env : Env ε ω α) : Prop where
  lookup : ∀ name span, Gives I Value.Canonical (env.lookup name span)
  call : ∀ name args span, (∀ v ∈ args, v.Canonical) →
    Gives I (fun answer => ∀ v, answer = some v → v.Canonical) (env.call name args span)
  draw : ∀ s u t, I s → env.draw s = some (u, t) → I t

namespace Canonical

variable [Scalar α] {I : ω → Prop} {env : Env ε ω α}

theorem finish (h : env.Canonical I) (name : String) (span : Span) (result : Builtin.Result α) :
    Gives I Value.Canonical (env.finish name span result) := by
  cases result with
  | value x => exact gives_pure trivial
  | drawn lo hi whole =>
    intro s v t hs ran
    simp only [Env.finish] at ran
    cases drawn : env.draw s with
    | none =>
      simp only [drawn] at ran
      cases ran
    | some found =>
      simp only [drawn] at ran
      cases ran
      exact ⟨trivial, h.draw s _ _ hs drawn⟩

theorem builtin (h : env.Canonical I) (name : String) (args : List (Value α)) (span : Span) :
    Gives I Value.Canonical (env.builtin name args span) := by
  refine gives_settled fun xs _ => ?_
  cases Builtin.ofName? name with
  | none => exact gives_fail
  | some f => exact gives_settled fun result _ => h.finish name span result

theorem binary {left right : Expr α} (hl : Gives I Value.Canonical (env.eval left))
    (hr : Gives I Value.Canonical (env.eval right)) (op : BinaryOp) (span : Span) :
    Gives I Value.Canonical (env.eval (.binary left op right span)) := by
  have truth : Gives I Value.Canonical
      (do return .flag (← env.settle span (← env.eval right).truth) : Attempt ε ω (Value α)) :=
    hr.bind fun r _ => gives_settled fun b _ => gives_pure trivial
  refine hl.bind fun l canonical => ?_
  -- The connectives may end before the right side is evaluated at all.
  cases op with
  | and =>
    refine gives_settled fun b _ => ?_
    cases b
    · exact gives_pure trivial
    · exact truth
  | or =>
    refine gives_settled fun b _ => ?_
    cases b
    · exact truth
    · exact gives_pure trivial
  | _ =>
    exact hr.bind fun r canonical' => gives_settle fun v applied =>
      BinaryOp.apply_canonical applied canonical canonical'

mutual

/-- What an expression comes to fits it. -/
theorem eval (h : env.Canonical I) : ∀ e : Expr α, Gives I e.Fits (env.eval e)
  | .number x _ => gives_pure ⟨trivial, by rintro _ ⟨⟩; rfl⟩
  | .flag b _ => gives_pure ⟨trivial, by rintro _ ⟨⟩; rfl⟩
  | .var name span => (h.lookup name span).imp fun v canonical => ⟨canonical, nofun⟩
  | .tuple items span => by
    refine (h.evalNumbers .tupleElement span items).bind fun xs length => gives_pure ?_
    refine ⟨Value.canonical_ofNumbers xs, fun n static => ?_⟩
    rw [Value.width_ofNumbers]
    exact length n static
  | .unary op operand span => by
    refine (h.eval operand).bind fun v fits => gives_settle fun w applied => ?_
    refine ⟨UnaryOp.apply_canonical applied fits.canonical, fun n static => ?_⟩
    rw [UnaryOp.apply_width applied]
    exact fits.width n static
  | .binary left op right span => by
    have hl := (h.eval left).imp fun _ => Expr.Fits.canonical
    have hr := (h.eval right).imp fun _ => Expr.Fits.canonical
    exact (binary hl hr op span).imp fun v canonical => ⟨canonical, nofun⟩
  | .call callee args span => by
    refine (h.evalAll args).bind fun values all => ?_
    refine (h.call callee values span all).bind fun answer found => ?_
    cases answer with
    | some v => exact gives_pure ⟨found v rfl, nofun⟩
    | none => exact (h.builtin callee values span).imp fun v canonical => ⟨canonical, nofun⟩

theorem evalNumbers (h : env.Canonical I) (cause : Found → EvalCause) (span : Span) :
    ∀ items : List (Expr α), Gives I (fun xs => ∀ n, Expr.totalWidth items = some n → xs.length = n)
      (env.evalNumbers cause span items)
  | [] => gives_pure (by rintro _ ⟨⟩; rfl)
  | e :: rest => by
    refine (h.eval e).bind fun v fits => gives_settled fun xs numeric => ?_
    refine (h.evalNumbers cause span rest).bind fun ys length => gives_pure fun n static => ?_
    obtain ⟨a, front, b, back, rfl⟩ : ∃ a, e.staticWidth = some a ∧
        ∃ b, Expr.totalWidth rest = some b ∧ a + b = n := by
      simpa [Expr.totalWidth, Option.bind_eq_some_iff] using static
    rw [List.length_append, Value.length_of_numbersOr numeric, fits.width a front, length b back]

theorem evalAll (h : env.Canonical I) : ∀ items : List (Expr α),
    Gives I (fun vs => ∀ v ∈ vs, v.Canonical) (env.evalAll items)
  | [] => gives_pure nofun
  | e :: rest => by
    refine (h.eval e).bind fun v fits => ?_
    refine (h.evalAll rest).bind fun vs all => gives_pure ?_
    exact List.forall_mem_cons.mpr ⟨fits.canonical, all⟩

end

end Canonical

/-- No expression comes to a row of one number. So a single number has one form, the one
that a declared kind accepts and equality compares, and what the syntax tells of the
width of an expression is borne out by its value. -/
theorem eval_fits [Scalar α] {I : ω → Prop} {env : Env ε ω α} (canonical : env.Canonical I)
    {e : Expr α} {s t : ω} {v : Value α} (start : I s) (ran : (env.eval e).run s = .ok v t) :
    (∀ x, v ≠ .tuple [x]) ∧
    (∀ what, v.conforms .number 1 what = .ok () ↔ ∃ x, v = .number x) ∧
    (∀ w : Value α, (∀ x, w ≠ .tuple [x]) → ∀ xs ys, v.numbers? = some xs →
      w.numbers? = some ys → v.same w = (xs == ys)) ∧
    (∀ n, e.staticWidth = some n → v.width = n) := by
  have fits := (canonical.eval e s v t start ran).1
  exact ⟨Value.canonical_iff.mp fits.canonical, Value.conforms_single_iff fits.canonical,
    fun w single xs ys => fits.canonical.same_eq (Value.canonical_iff.mpr single), fits.width⟩

end Env

/-! ### Sessions -/

def Session.Canonical {σ : Type} (s : Session σ α) : Prop :=
  ∀ slot ∈ s.stack.slots, ∀ v, slot.binding = .value v → v.Canonical

theorem Session.begin_canonical {σ : Type} (seed : UInt64) (store : Store α) (renderer : σ) :
    (Session.begin seed store renderer).Canonical := by
  rintro slot ⟨⟨⟩⟩

namespace Action

variable {σ : Type} {K : β → Prop}

theorem gives_underView (view : View) {x : Action σ α β} (h : Gives Session.Canonical K x) :
    Gives Session.Canonical K (underView view x) :=
  h.wrap (wraps_underView view x) (fun _ hs => hs) fun _ _ _ ht => ht

theorem gives_inFrame {x : Action σ α β}
    (hx : ∀ s, ∃ extra, (x.run s).state.stack = s.stack.extend extra)
    (h : Gives Session.Canonical K x) : Gives Session.Canonical K (inFrame x) :=
  h.wrap (wraps_inFrame hx) (fun _ hs => hs) fun _ _ hs _ => hs

theorem gives_bindName (name : String) {v : Value α} (canonical : v.Canonical) (span : Span) :
    Gives Session.Canonical (fun _ => True) (bindName name (.value v) span : Action σ α Unit) := by
  intro s b t hs ran
  rw [bindName_run] at ran
  split at ran
  · cases ran
  · cases ran
    refine ⟨trivial, fun slot mem w bound => ?_⟩
    rcases Array.mem_append.mp mem with mem | mem
    · exact hs slot mem w bound
    · obtain rfl : slot = ⟨name, .value v⟩ := by simpa using mem
      cases bound
      exact canonical

theorem gives_bindParams (params : List Param) (values : List (Value α))
    (canonical : ∀ v ∈ values, v.Canonical) :
    Gives Session.Canonical (fun _ => True) (bindParams params values : Action σ α Unit) := by
  induction params generalizing values with
  | nil => exact gives_pure trivial
  | cons p params ih =>
    cases values with
    | nil => exact gives_pure trivial
    | cons v values =>
      obtain ⟨hv, rest⟩ := List.forall_mem_cons.mp canonical
      exact (gives_bindName p.name hv p.span).bind fun _ _ => ih values rest

end Action

namespace Session

variable {σ : Type} [Scalar α]

theorem gives_evalBundle {env : Env Stop (Session σ α) α} (keeps : env.Keeps) (b : Bundle α) :
    Gives Session.Canonical (fun _ => True) (env.evalBundle b) := by
  have kept : Action.Keeps (env.evalBundle b) :=
    Action.keeps_iff.mpr fun κ => (keeps κ).free.evalBundle b fun _ _ => trivial
  intro s m t hs ran
  have control := kept s
  rw [ran] at control
  have stack : t.stack = s.stack := congrArg Control.stack control
  refine ⟨trivial, ?_⟩
  rw [Session.Canonical, stack]
  exact hs

theorem environment_canonical {body : Define α → Span → Action σ α (Value α)}
    (keeps : ∀ d span, Action.Keeps (body d span))
    (h : ∀ d span, Gives Session.Canonical Value.Canonical (body d span)) :
    (environment body).Canonical Session.Canonical where
  lookup name span := by
    refine gives_of_state fun s hs => ?_
    split
    · exact gives_fail
    case h_2 i v found =>
      obtain ⟨slot, mem, bound⟩ := Stack.mem_of_lookup found
      exact gives_pure (hs slot mem v bound)
    · exact Action.gives_underView _ (h _ span)
    · exact gives_fail
  call name args span canonical := by
    refine gives_of_state fun s hs => ?_
    simp only
    split
    case h_1 slot d found =>
      split
      · exact gives_fail
      · split
        · exact gives_fail
        · refine Action.gives_inFrame
            (Action.pushes_calling d.params args _ (keeps d span)).stack ?_
          refine (Action.gives_bindParams d.params args canonical).bind fun _ _ => ?_
          refine gives_of_state fun t ht => (Action.gives_underView _ (h d span)).bind ?_
          exact fun v hv => gives_pure (by rintro _ ⟨⟩; exact hv)
    case h_2 => exact gives_pure nofun
  draw := by
    rintro s _ _ hs ⟨⟩
    exact hs

/-- Defines and functions come to the values of their bodies, and adjustments are no
numbers at all. -/
theorem environmentAt_canonical (fuel : Nat) :
    (environmentAt fuel : Env Stop (Session σ α) α).Canonical Session.Canonical := by
  induction fuel with
  | zero => exact environment_canonical (fun _ _ => Action.keeps_fail nofun) fun _ _ => gives_fail
  | succ fuel ih =>
    refine environment_canonical (environmentAt_keeps fuel).evalDefine fun d span => ?_
    have body : Gives Session.Canonical Value.Canonical
        ((environmentAt fuel : Env Stop (Session σ α) α).evalBody d.body) := by
      cases d.body with
      | expr e => exact (ih.eval e).imp fun _ => Expr.Fits.canonical
      -- An adjustment is in the one form anyway; what its terms come to is not looked at.
      | mods b =>
        exact (gives_evalBundle (environmentAt_keeps fuel) b).bind fun m _ => gives_pure trivial
    exact body.bind fun v hv => gives_settled fun _ _ => gives_pure hv

end Session

namespace Sample

def row (items : List (Expr Rat)) : Expr Rat := .tuple items .none

def negated (e : Expr Rat) : Expr Rat := .unary .neg e .none

def nested : Expr Rat := negated (row [number 1, negated (row [number 2, row [number 3]])])

end Sample

theorem Env.eval_fits_nested :
    Sample.nested.staticWidth = some 3 ∧
    ∃ v, ((Session.environmentAt 0).eval Sample.nested).run (Session.begin 7 .empty ()) =
        .ok v (Session.begin 7 .empty ()) ∧
      (∀ x, v ≠ .tuple [x]) ∧ v.width = 3 := by
  have static : Sample.nested.staticWidth = some 3 := rfl
  have start := Session.begin_canonical 7 (.empty : Store Rat) ()
  have ran : ((Session.environmentAt 0).eval Sample.nested).run (Session.begin 7 .empty ()) =
      .ok (.tuple [-1, 2, 3]) (Session.begin 7 .empty ()) := rfl
  obtain ⟨single, -, -, width⟩ := Env.eval_fits (Session.environmentAt_canonical 0) start ran
  exact ⟨static, _, ran, single, width 3 static⟩

end ShapeGrammar
