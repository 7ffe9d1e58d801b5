import Mathlib.Data.List.Forall2
import ShapeGrammar.Proofs.Visible

/-!
# What is known before a run

A constant define has its value before any run: it can be evaluated in an
environment that knows the constant names in scope and nothing else. A session
whose visible slots carry these values evaluates such a define to the same
value, in any state and without a draw, as long as no function bears the name
of a pure builtin. What is folded when a statement is made is the special case
with no names at all.
-/

set_option autoImplicit false

namespace ShapeGrammar

open Attempt

variable {σ α : Type}

abbrev Known (α : Type) := List (String × Option (Value α))

namespace Known

/-- Only the innermost entry of a name counts. -/
def value? (k : Known α) (name : String) : Option (Value α) :=
  (k.find? fun e => e.1 == name).bind Prod.snd

def knows (k : Known α) (name : String) : Bool := (k.value? name).isSome

def bind (k : Known α) : List Param → Known α
  | [] => k
  | p :: rest => bind ((p.name, none) :: k) rest

end Known

/-- A function never bears the name of a pure builtin. -/
def Slot.Plain (x : Slot α) : Prop :=
  ∀ d, x.binding = .function d → Builtin.namesPure x.name = false

theorem Slot.plain_value (name : String) (v : Value α) : Plain ⟨name, .value v⟩ := by
  intro d same
  cases same

theorem Slot.plain_deferred (name : String) (d : Define α) : Plain ⟨name, .deferred d⟩ := by
  intro d same
  cases same

structure Slot.Bears (e : String × Option (Value α)) (x : Slot α) : Prop where
  name : x.name = e.1
  value : ∀ v, e.2 = some v → x.binding = .value v
  plain : x.Plain

abbrev Known.Matches (k : Known α) (xs : List (Slot α)) : Prop := List.Forall₂ Slot.Bears k xs

theorem Known.Matches.search {k : Known α} {xs : List (Slot α)} (h : k.Matches xs) {name : String}
    {v : Value α} (hv : k.value? name = some v) :
    ∃ x rest, Slot.search name xs = some (x, rest) ∧ x.binding = .value v := by
  induction h with
  | nil => cases hv
  | @cons e x rest xs bears _ ih =>
    rw [Slot.search]
    simp only [Known.value?, List.find?_cons] at hv
    rw [bears.name]
    split
    case isTrue same =>
      simp only [same, beq_self_eq_true, Option.bind_some] at hv
      exact ⟨x, xs, rfl, bears.value v hv⟩
    case isFalse differs =>
      simp only [beq_eq_false_iff_ne.mpr differs] at hv
      exact ih hv

theorem Known.Matches.plain {k : Known α} {xs : List (Slot α)} (h : k.Matches xs) :
    ∀ x ∈ xs, x.Plain := by
  induction h with
  | nil => simp
  | cons bears _ ih => simpa using ⟨bears.plain, ih⟩

/-- What a search leaves behind it is a part of what it went through. -/
theorem Slot.search_mem {name : String} {xs rest : List (Slot α)} {x : Slot α}
    (h : search name xs = some (x, rest)) : x.name = name ∧ x ∈ xs ∧ rest ⊆ xs := by
  induction xs with
  | nil => cases h
  | cons y ys ih =>
    rw [search] at h
    split at h
    case isTrue same =>
      cases h
      exact ⟨same, by simp, fun z hz => by simp [hz]⟩
    case isFalse =>
      obtain ⟨name, mem, sub⟩ := ih h
      exact ⟨name, by simp [mem], fun z hz => by simp [sub hz]⟩

/-- No visible function bears the name of a pure builtin. -/
def Session.Unspoilt (s : Session σ α) : Prop :=
  ∀ name i d, Builtin.namesPure name = true → s.stack.lookup name s.view ≠ some (i, .function d)

theorem Session.unspoilt_of_plain {s : Session σ α}
    (h : ∀ x ∈ s.stack.visible s.view, x.Plain) : s.Unspoilt := by
  intro name i d pure found
  have search := s.stack.lookup_eq_search name s.view
  rw [found] at search
  cases hx : Slot.search name (s.stack.visible s.view) with
  | none => simp [hx] at search
  | some found =>
    simp only [hx, Option.map_some, Option.some.injEq, Prod.mk.injEq] at search
    obtain ⟨same, mem, -⟩ := Slot.search_mem hx
    have impure := h _ mem d search.1.symm
    rw [same, pure] at impure
    cases impure

theorem Session.unspoilt_of_matches {s : Session σ α} {k : Known α}
    (h : k.Matches (s.stack.visible s.view)) : s.Unspoilt :=
  unspoilt_of_plain h.plain

theorem Session.lookup_of_matches {s : Session σ α} {k : Known α}
    (h : k.Matches (s.stack.visible s.view)) {name : String} {v : Value α}
    (hv : k.value? name = some v) : ∃ i, s.stack.lookup name s.view = some (i, .value v) := by
  obtain ⟨x, rest, hx, hb⟩ := h.search hv
  obtain ⟨i, found, -⟩ := Stack.lookup_of_search hx
  exact ⟨i, hb ▸ found⟩

/-! ### Evaluation without a session -/

variable [Scalar α]

def Env.known (k : Known α) : Env Stop Unit α where
  lookup name span :=
    match k.value? name with
    | some v => pure v
    | none => Attempt.fail (.fault (.eval ⟨span, .notConstant name⟩))
  call _ _ _ := pure none
  draw _ := none
  raise fault := .fault (.eval fault)

/-- Evaluation that leaves a session as it is and fails as told. -/
def Session.still {ε ω : Type} (s : Session σ α) (raised : ε → Stop) :
    Parting ε Stop ω (Session σ α) where
  together e e' _ s' := e' = raised e ∧ s' = s
  alone _ := False

theorem Session.call_unspoilt {s : Session σ α} (h : s.Unspoilt)
    (body : Define α → Span → Action σ α (Value α)) {name : String}
    (pure : Builtin.namesPure name = true) (args : List (Value α)) (span : Span) :
    ((Session.environment body).call name args span).run s = .ok none s := by
  simp only [Session.environment, run_bind, run_state]
  split
  case h_1 slot d found => exact absurd found (h name slot d pure)
  case h_2 => rfl

theorem Session.known_inStep {s : Session σ α} {k : Known α}
    (h : k.Matches (s.stack.visible s.view)) (body : Define α → Span → Action σ α (Value α)) :
    Env.InStep (s.still id) (fun _ t => t = s) False k.knows (Env.known k)
      (Session.environment body) where
  lookup name span := by
    rintro (impossible | known) _ _ rfl
    · exact impossible.elim
    obtain ⟨v, hv⟩ := Option.isSome_iff_exists.mp known
    obtain ⟨i, found⟩ := lookup_of_matches h hv
    simp only [Env.known, hv, Session.environment, run_bind, run_state, found]
    exact .ok rfl rfl
  call name args span := by
    rintro (impossible | pure) _ _ rfl
    · exact impossible.elim
    rw [call_unspoilt (unspoilt_of_matches h) body pure]
    exact .ok rfl rfl
  draw impossible := impossible.elim
  raise _ _ _ same := ⟨rfl, same⟩

theorem Session.constant_inStep {s : Session σ α} (h : s.Unspoilt)
    (body : Define α → Span → Action σ α (Value α)) :
    Env.InStep (s.still fun fault => .fault (.eval fault)) (fun _ t => t = s) False
      (fun _ => false) Env.constant (Session.environment body) where
  lookup name span := by
    rintro (impossible | known)
    · exact impossible.elim
    · cases known
  call name args span := by
    rintro (impossible | pure) _ _ rfl
    · exact impossible.elim
    rw [call_unspoilt h body pure]
    exact .ok rfl rfl
  draw impossible := impossible.elim
  raise _ _ _ same := ⟨rfl, same⟩

def Define.outcome (k : Known α) (d : Define α) (span : Span) : Outcome Stop Unit (Value α) :=
  ((Env.known k).evalDefine d span).run ()

theorem Session.environmentAt_eq (fuel : Nat) :
    ∃ body, (Session.environmentAt fuel : Env Stop (Session σ α) α) = Session.environment body := by
  cases fuel <;> exact ⟨_, rfl⟩

theorem Session.evalDefine_known {s : Session σ α} {k : Known α}
    (h : k.Matches (s.stack.visible s.view)) (fuel : Nat) {d : Define α}
    (hd : d.isConstantIn k.knows = true) (span : Span) :
    ((Session.environmentAt fuel).evalDefine d span).run s =
      (d.outcome k span).mapState fun _ => s := by
  obtain ⟨body, same⟩ := environmentAt_eq (σ := σ) (α := α) fuel
  have ends := (known_inStep h body).evalDefine d span (.inr hd) () s rfl
  rw [same, Define.outcome]
  generalize ((Env.known k).evalDefine d span).run () = o at ends ⊢
  generalize ((Session.environment body).evalDefine d span).run s = o' at ends ⊢
  cases ends with
  | ok value state =>
    cases value
    cases state
    rfl
  | together parted =>
    obtain ⟨rfl, rfl⟩ := parted
    rfl
  | alone impossible => exact impossible.elim

/-! ### Folding -/

theorem Session.eval_constant {s : Session σ α} (h : s.Unspoilt) (fuel : Nat) {e : Expr α}
    (he : e.isConstant = true) :
    ((Session.environmentAt fuel).eval e).run s =
      match e.constantValue with
      | .ok v => .ok v s
      | .error fault => .failed (.fault (.eval fault)) s := by
  obtain ⟨body, same⟩ := environmentAt_eq (σ := σ) (α := α) fuel
  have ends := (constant_inStep h body).eval e (.inr he) () s rfl
  rw [same, Expr.constantValue]
  generalize (Env.constant.eval e).run () = o at ends ⊢
  generalize ((Session.environment body).eval e).run s = o' at ends ⊢
  cases ends with
  | ok value state =>
    cases value
    cases state
    rfl
  | together parted =>
    obtain ⟨rfl, rfl⟩ := parted
    rfl
  | alone impossible => exact impossible.elim

def LoopSpec.Folded (spec : LoopSpec α) : Prop :=
  ∀ range, spec.constant = some range → LoopSpec.constantRange spec.range = .ok (some range)

def Path.Op.Folded (o : Path.Op α) : Prop :=
  ∀ args, o.constant = some args → Path.Op.constantArgs o.args = .ok (some args)

namespace Context

def afresh (c : Context σ α) : Context σ α :=
  { c with strategy := { c.strategy with reuse := false } }

theorem loopRange_afresh {c : Context σ α} {fuel : Nat} (hc : c.env = Session.environmentAt fuel)
    {s : Session σ α} (hs : s.Unspoilt) {spec : LoopSpec α} (hf : spec.Folded) :
    (c.loopRange spec).run s = (c.afresh.loopRange spec).run s := by
  unfold loopRange
  cases hr : (if c.strategy.reuse then spec.constant else none) with
  | none => rfl
  | some range =>
    have constant : spec.constant = some range := by
      split at hr
      · exact hr
      · cases hr
    have folded := hf range constant
    unfold LoopSpec.constantRange at folded
    split at folded
    case isFalse => cases folded
    case isTrue hconstant =>
      have value := Session.eval_constant hs fuel hconstant
      cases hv : spec.range.constantValue with
      | error fault =>
        rw [hv] at folded
        cases folded
      | ok v =>
        simp only [hv] at folded value
        cases hrange : LoopRange.ofValue v with
        | error p =>
          rw [hrange] at folded
          cases folded
        | ok other =>
          rw [hrange] at folded
          cases folded
          simp [afresh, hc, value, hrange]

theorem evalArgs_afresh (c : Context σ α) (given : List (Path.ArgName × Expr α))
    (args : Path.Args α) : c.afresh.evalArgs given args = c.evalArgs given args := by
  induction given generalizing args with
  | nil => rfl
  | cons arg rest ih =>
    simp only [evalArgs, ih]
    rfl

theorem evalArgs_of_foldArgs {c : Context σ α} {fuel : Nat}
    (hc : c.env = Session.environmentAt fuel) {s : Session σ α} (hs : s.Unspoilt)
    {given : List (Path.ArgName × Expr α)} (hg : ∀ arg ∈ given, arg.2.isConstant = true)
    {start args : Path.Args α} (h : Path.Op.foldArgs start given = .ok args) :
    (c.evalArgs given start).run s = .ok args s := by
  induction given generalizing start with
  | nil =>
    cases h
    rfl
  | cons arg rest ih =>
    obtain ⟨name, e⟩ := arg
    have value := Session.eval_constant hs fuel (hg (name, e) (by simp))
    rw [Path.Op.foldArgs] at h
    split at h
    case h_1 => cases h
    case h_2 v hv =>
      rw [hv] at value
      have rest := ih (fun arg harg => hg arg (by simp [harg])) h
      simp [evalArgs, Env.evalNumber, Env.settle, hc, value, Value.number?, rest]
    case h_3 => cases h

theorem opArgs_afresh {c : Context σ α} {fuel : Nat} (hc : c.env = Session.environmentAt fuel)
    {s : Session σ α} (hs : s.Unspoilt) {o : Path.Op α} (hf : o.Folded) :
    (c.opArgs o).run s = (c.afresh.opArgs o).run s := by
  have fresh : c.afresh.opArgs o = c.evalArgs o.args .zero := c.evalArgs_afresh o.args .zero
  rw [fresh, opArgs]
  cases hr : (if c.strategy.reuse then o.constant else none) with
  | none => rfl
  | some args =>
    have constant : o.constant = some args := by
      split at hr
      · exact hr
      · cases hr
    have folded := hf args constant
    unfold Path.Op.constantArgs at folded
    split at folded
    case isFalse => cases folded
    case isTrue hconstant =>
      cases hargs : Path.Op.foldArgs .zero o.args with
      | error p =>
        rw [hargs] at folded
        cases folded
      | ok other =>
        rw [hargs] at folded
        cases folded
        exact (evalArgs_of_foldArgs hc hs
          (fun arg harg => List.all_eq_true.mp hconstant arg harg) hargs).symm

end Context

end ShapeGrammar
