import ShapeGrammar.Proofs.Agreement
import ShapeGrammar.Proofs.Loaded

/-!
# Where values are kept

The value that a constant define comes to can be read off the grammar: a walk
along its address collects the values known on the way. What the store keeps
for an address is this value and no other.

A statement is considered here as it was made, at the address and in the scope
in which it is resolved.
-/

set_option autoImplicit false

namespace ShapeGrammar

variable {α : Type}

/-! ### Function names -/

def Statement.shadows : Statement α → Bool
  | .define _ d => d.isFunction && Builtin.namesPure d.name
  | _ => false

def Body.Clear (b : Body α) : Prop := ∀ st ∈ b.flatten, st.shadows = false

def Draft.Clear (d : Draft α) : Prop := ∀ b ∈ d.globals :: d.bodies, b.Clear

theorem Statement.mem_flattenAll {statements : List (Statement α)} {st : Statement α}
    (h : st ∈ statements) : st ∈ Statement.flattenAll statements := by
  induction statements with
  | nil => cases h
  | cons other rest ih =>
    rw [Statement.flattenAll]
    rcases List.mem_cons.mp h with rfl | h
    · exact List.mem_cons_self
    · exact List.mem_cons_of_mem _ (List.mem_append_right _ (ih h))

theorem Body.mem_flattenAll {bodies : List (Body α)} {b : Body α} (h : b ∈ bodies) :
    b.flatten ⊆ Body.flattenAll bodies := by
  induction bodies with
  | nil => cases h
  | cons other rest ih =>
    rw [Body.flattenAll]
    rcases List.mem_cons.mp h with rfl | h
    · exact fun st hst => List.mem_append_left _ hst
    · exact fun st hst => List.mem_append_right _ (ih h hst)

theorem Body.allFixed_mem {scope : Scope} {bodies : List (Body α)} {b : Body α} (hb : b ∈ bodies)
    (h : Body.allFixed scope bodies = true) : b.isFixed scope false = true := by
  induction bodies with
  | nil => cases hb
  | cons other rest ih =>
    obtain ⟨head, tail⟩ := Bool.and_eq_true_iff.mp h
    rcases List.mem_cons.mp hb with rfl | hb
    · exact head
    · exact ih hb tail

theorem Body.yieldAll_mem {bodies : List (Body α)} {b : Body α} (hb : b ∈ bodies)
    (h : (Body.yieldAll bodies).replacement = false) : b.yield.replacement = false := by
  induction bodies with
  | nil => cases hb
  | cons other rest ih =>
    obtain ⟨head, tail⟩ := Bool.or_eq_false_iff.mp h
    rcases List.mem_cons.mp hb with rfl | hb
    · exact head
    · exact ih hb tail

/-! ### Resolved parts -/

theorem Body.mem_resolveAll {scope : Scope} {place : Address} {i : Nat} {bodies : List (Body α)}
    {b : Body α} (h : b ∈ Body.resolveAll scope place i bodies) :
    ∃ (j : Nat) (other : Body α), bodies[j]? = some other ∧
      b = other.resolve scope false (place ++ [i + j]) := by
  induction bodies generalizing i with
  | nil => cases h
  | cons other rest ih =>
    rw [Body.resolveAll] at h
    rcases List.mem_cons.mp h with rfl | h
    · exact ⟨0, other, rfl, rfl⟩
    · obtain ⟨j, found, hj, rfl⟩ := ih h
      exact ⟨j + 1, found, hj, by rw [Nat.add_right_comm i 1 j]; rfl⟩

namespace Define

variable (scope : Scope) (place : Address) (d : Define α)

@[simp] theorem resolve_name : (d.resolve scope place).name = d.name := by
  unfold resolve
  split <;> rfl

@[simp] theorem resolve_isFunction : (d.resolve scope place).isFunction = d.isFunction := by
  unfold resolve
  split <;> rfl

@[simp] theorem resolve_isConstantIn (known : String → Bool) :
    (d.resolve scope place).isConstantIn known = d.isConstantIn known := by
  unfold resolve
  split <;> rfl

theorem resolve_cell (h : d.isFunction = false) :
    (d.resolve scope place).cell = if d.isConstantIn scope.isCached then some place else none := by
  simp [resolve, h]

end Define

/-! ### Values along an address -/

/-- Known names and scope entries that stand for the same bindings. -/
abbrev Known.Charts (k : Known α) (scope : Scope) : Prop :=
  List.Forall₂ (fun e entry => e.1 = entry.name ∧ e.2.isSome = entry.cached) k scope

theorem Known.Charts.knows {k : Known α} {scope : Scope} (h : k.Charts scope) :
    k.knows = scope.isCached := by
  funext name
  induction h with
  | nil => rfl
  | @cons e entry rest scope both _ ih =>
    obtain ⟨same, cached⟩ := both
    simp only [Known.knows, Known.value?, Scope.isCached, Scope.holds, List.find?_cons, same]
      at ih ⊢
    cases entry.name == name with
    | true => simpa using cached
    | false => exact ih

/-- Two sessions that see the known values agree where all that is fixed is
known. -/
theorem Known.Charts.agree {k : Known α} {scope : Scope} (h : k.Charts scope)
    (fixed : ∀ e ∈ scope, e.fixed = e.cached) {xs xs' : List (Slot α)} (hx : k.Matches xs)
    (hx' : k.Matches xs') : scope.Agree xs xs' := by
  induction h generalizing xs xs' with
  | nil =>
    cases hx
    cases hx'
    exact .nil
  | @cons e entry rest scope charted _ ih =>
    cases hx with
    | cons bears hx =>
      cases hx' with
      | cons bears' hx' =>
        refine .cons (bears.name.trans charted.1) (bears'.name.trans charted.1) ?_
          (ih (fun e he => fixed e (by simp [he])) hx hx')
        intro isFixed
        have cached : e.2.isSome = true := by
          rw [charted.2, ← fixed entry (by simp), isFixed]
        obtain ⟨v, value⟩ := Option.isSome_iff_exists.mp cached
        rw [bears.value v value, bears'.value v value]
        exact ⟨rfl, trivial⟩

theorem Scope.isFixed_eq_isCached {scope : Scope} (h : ∀ e ∈ scope, e.fixed = e.cached) :
    scope.isFixed = scope.isCached := by
  funext name
  unfold isFixed isCached holds
  cases found : scope.find? fun e => e.name == name with
  | none => rfl
  | some e => exact h e (List.mem_of_find?_eq_some found)

/-- In a scope of defines alone, what is fixed is cached. -/
theorem Scope.fixed_eq_cached {scope : Scope} {statements : List (Statement α)}
    (hs : ∀ e ∈ scope, e.fixed = e.cached)
    (defines : ∀ st ∈ statements, ∃ head d, st = .define head d) :
    ∀ e ∈ Statement.scopeAfterAll scope statements, e.fixed = e.cached := by
  induction statements generalizing scope with
  | nil => exact hs
  | cons st rest ih =>
    obtain ⟨head, d, rfl⟩ := defines st (by simp)
    refine ih ?_ fun st hst => defines st (by simp [hst])
    intro e he
    rcases List.mem_cons.mp he with rfl | he
    · unfold Define.entry
      rw [isFixed_eq_isCached hs]
      split <;> rfl
    · exact hs e he

variable [Scalar α]

def Define.known (k : Known α) (d : Define α) (span : Span) : Option (Value α) :=
  if !d.isFunction && d.isConstantIn k.knows then
    match d.outcome k span with
    | .ok v _ => some v
    | .failed _ _ => none
  else none

@[simp] theorem Define.resolve_known (scope : Scope) (place : Address) (d : Define α) (k : Known α)
    (span : Span) : (d.resolve scope place).known k span = d.known k span := by
  unfold resolve
  split <;> rfl

def Statement.known (k : Known α) : Statement α → Known α
  | .define h d => (d.name, d.known k h.span) :: k
  | _ => k

def Statement.knownAll (k : Known α) : List (Statement α) → Known α
  | [] => k
  | st :: rest => knownAll (st.known k) rest

mutual

def Body.site (k : Known α) : Body α → Address → Option (Value α)
  | ⟨statements, params, _⟩, a => Statement.siteAll (k.bind params) statements a

def Statement.site (k : Known α) : Statement α → Address → Option (Value α)
  | .loop _ _ body last, i :: a => if i = 0 then body.site k a else last.site k a
  | .transform _ _ body, _ :: a => body.site k a
  | .branch _ _ thenBody elseBody, i :: a =>
    if i = 0 then thenBody.site k a else elseBody.site k a
  | .switch _ _ _ _ default, 0 :: a => default.site k a
  | .switch _ _ _ bodies _, (i + 1) :: a => Body.siteAll k bodies i a
  | .define h d, [] => d.known k h.span
  | _, _ => none

def Statement.siteAll (k : Known α) : List (Statement α) → Address → Option (Value α)
  | st :: _, 0 :: a => st.site k a
  | st :: rest, (i + 1) :: a => Statement.siteAll (st.known k) rest (i :: a)
  | _, _ => none

def Body.siteAll (k : Known α) : List (Body α) → Nat → Address → Option (Value α)
  | b :: _, 0, a => b.site k a
  | _ :: rest, i + 1, a => Body.siteAll k rest i a
  | [], _, _ => none

end

/-! ### Statements where they stand -/

/-- On what footing two expansions are compared. -/
structure Footing (α : Type) where
  /-- The sessions look the same to evaluation. Where they do not, only fixed
  names are agreed upon. -/
  free : Prop
  /-- Shapes may be drawn. -/
  draws : Prop
  /-- The sessions have the same number. -/
  numbered : Prop
  /-- What is known of the globals. -/
  globals : Known α
  /-- The value of the define at each address. -/
  values : Address → Option (Value α)

/-- A statement where it stands in a grammar, and what may be asked of it. -/
structure Statement.Sited (f : Footing α) (k : Known α) (scope : Scope) (place : Address)
    (st : Statement α) : Prop where
  made : st.Made
  clear : ∀ x ∈ st :: st.inner, x.shadows = false
  site : ∀ a, f.values (place ++ a) = st.site k a
  fixed : f.free ∨ st.isFixed scope = true
  draws : f.draws ∨ st.yield.replacement = false

structure Statement.AllSited (f : Footing α) (k : Known α) (scope : Scope) (place : Address)
    (i : Nat) (statements : List (Statement α)) : Prop where
  made : ∀ st ∈ statements, st.Made
  clear : ∀ x ∈ Statement.flattenAll statements, x.shadows = false
  site : ∀ j a, f.values (place ++ (i + j) :: a) = Statement.siteAll k statements (j :: a)
  fixed : f.free ∨ Statement.allFixed scope statements = true
  draws : f.draws ∨ (Statement.yieldAll statements).replacement = false

structure Body.Sited (f : Footing α) (k : Known α) (scope : Scope) (paramsFixed : Bool)
    (place : Address) (b : Body α) : Prop where
  made : ∀ st ∈ b.statements, st.Made
  clear : b.Clear
  site : ∀ a, f.values (place ++ a) = b.site k a
  fixed : f.free ∨ b.isFixed scope paramsFixed = true
  draws : f.draws ∨ b.yield.replacement = false

theorem Body.Sited.statements {f : Footing α} {k : Known α} {scope : Scope} {paramsFixed : Bool}
    {place : Address} {statements : List (Statement α)} {params : List Param} {slots : Nat}
    (h : Body.Sited f k scope paramsFixed place ⟨statements, params, slots⟩) :
    Statement.AllSited f (k.bind params) (scope.bind paramsFixed params) place 0 statements where
  made := h.made
  clear := h.clear
  site j a := by
    rw [h.site, Body.site, Nat.zero_add]
  fixed := h.fixed
  draws := h.draws

namespace Statement

variable {f : Footing α} {k : Known α} {scope : Scope} {place : Address}

theorem AllSited.head {i : Nat} {st : Statement α} {rest : List (Statement α)}
    (h : AllSited f k scope place i (st :: rest)) : st.Sited f k scope (place ++ [i]) where
  made := h.made st (by simp)
  clear x hx := by
    refine h.clear x ?_
    rw [flattenAll]
    rcases List.mem_cons.mp hx with rfl | hx
    · exact List.mem_cons_self
    · exact List.mem_cons_of_mem _ (List.mem_append_left _ hx)
  site a := by
    have here := h.site 0 a
    rw [siteAll] at here
    simpa using here
  fixed := h.fixed.imp_right fun all => (Bool.and_eq_true_iff.mp all).1
  draws := h.draws.imp_right fun none => (Bool.or_eq_false_iff.mp none).1

theorem AllSited.tail {i : Nat} {st : Statement α} {rest : List (Statement α)}
    (h : AllSited f k scope place i (st :: rest)) :
    AllSited f (st.known k) (st.scopeAfter scope) place (i + 1) rest where
  made x hx := h.made x (by simp [hx])
  clear x hx := by
    refine h.clear x ?_
    rw [flattenAll]
    exact List.mem_cons_of_mem _ (List.mem_append_right _ hx)
  site j a := by
    have next := h.site (j + 1) a
    rw [siteAll] at next
    rw [Nat.add_right_comm i 1 j]
    exact next
  fixed := h.fixed.imp_right fun all => (Bool.and_eq_true_iff.mp all).2
  draws := h.draws.imp_right fun none => (Bool.or_eq_false_iff.mp none).2

theorem Sited.body {st : Statement α} (h : st.Sited f k scope place) {b : Body α}
    {paramsFixed : Bool} {i : Nat} (made : ∀ x ∈ b.statements, x.Made)
    (inside : b.flatten ⊆ st.inner) (site : ∀ a, st.site k (i :: a) = b.site k a)
    (fixed : f.free ∨ b.isFixed scope paramsFixed = true)
    (draws : f.draws ∨ b.yield.replacement = false) :
    b.Sited f k scope paramsFixed (place ++ [i]) where
  made := made
  clear x hx := h.clear x (List.mem_cons_of_mem _ (inside hx))
  site a := by
    rw [List.append_assoc]
    exact (h.site (i :: a)).trans (site a)
  fixed := fixed
  draws := draws

/-- The parts of a loop. Both bodies bind the variable, which is as fixed as the
range. -/
structure LoopSited (f : Footing α) (k : Known α) (scope : Scope) (place : Address)
    (head : Head α) (spec : LoopSpec α) (body last : Body α) : Prop where
  folded : spec.Folded
  mods : f.free ∨ head.mods.isConstantIn scope.isFixed = true
  range : f.free ∨ spec.range.isConstantIn scope.isFixed = true
  body : body.Sited f k scope (spec.range.isConstantIn scope.isFixed) (place ++ [0])
  last : last.Sited f k scope (spec.range.isConstantIn scope.isFixed) (place ++ [1])

theorem Sited.loop {head : Head α} {spec : LoopSpec α} {body last : Body α}
    (h : Sited f k scope place (.loop head spec body last)) :
    LoopSited f k scope place head spec body last := by
  obtain ⟨folded, -, hbody, hlast⟩ := h.made.loop_inv
  have fixed := h.fixed
  simp only [isFixed, Bool.and_eq_true] at fixed
  have draws := h.draws
  simp only [yield, Yield.join, Bool.or_eq_false_iff] at draws
  refine ⟨fun range same => same ▸ folded, fixed.imp_right fun all => all.1.1.1,
    fixed.imp_right fun all => all.1.1.2, ?_, ?_⟩
  · exact h.body hbody (by simp [inner]) (by simp [Statement.site])
      (fixed.imp_right fun all => all.1.2) (draws.imp_right fun none => none.1)
  · exact h.body hlast (by simp [inner]) (by simp [Statement.site])
      (fixed.imp_right fun all => all.2) (draws.imp_right fun none => none.2)

structure TransformSited (f : Footing α) (k : Known α) (scope : Scope) (place : Address)
    (head : Head α) (spec : TransformSpec α) (body : Body α) : Prop where
  mods : f.free ∨ head.mods.isConstantIn scope.isFixed = true
  generators : ∀ g ∈ spec.generators, f.free ∨ g.isConstantIn scope.isFixed = true
  body : body.Sited f k scope false (place ++ [0])

theorem Sited.transform {head : Head α} {spec : TransformSpec α} {body : Body α}
    (h : Sited f k scope place (.transform head spec body)) :
    TransformSited f k scope place head spec body := by
  have fixed := h.fixed
  simp only [isFixed, Bool.and_eq_true] at fixed
  refine ⟨fixed.imp_right fun all => all.1.1, ?_, ?_⟩
  · exact fun g hg => fixed.imp_right fun all => List.all_eq_true.mp all.1.2 g hg
  · exact h.body h.made.transform_inv (by simp [inner]) (by simp [Statement.site])
      (fixed.imp_right fun all => all.2) h.draws

structure BranchSited (f : Footing α) (k : Known α) (scope : Scope) (place : Address)
    (cond : Expr α) (thenBody elseBody : Body α) : Prop where
  cond : f.free ∨ cond.isConstantIn scope.isFixed = true
  thenBody : thenBody.Sited f k scope false (place ++ [0])
  elseBody : elseBody.Sited f k scope false (place ++ [1])

theorem Sited.branch {head : Head α} {cond : Expr α} {thenBody elseBody : Body α}
    (h : Sited f k scope place (.branch head cond thenBody elseBody)) :
    BranchSited f k scope place cond thenBody elseBody := by
  obtain ⟨hthen, helse⟩ := h.made.branch_inv
  have fixed := h.fixed
  simp only [isFixed, Bool.and_eq_true] at fixed
  have draws := h.draws
  simp only [yield, Yield.join, Bool.or_eq_false_iff] at draws
  refine ⟨fixed.imp_right fun all => all.1.1, ?_, ?_⟩
  · exact h.body hthen (by simp [inner]) (by simp [Statement.site])
      (fixed.imp_right fun all => all.1.2) (draws.imp_right fun none => none.1)
  · exact h.body helse (by simp [inner]) (by simp [Statement.site])
      (fixed.imp_right fun all => all.2) (draws.imp_right fun none => none.2)

end Statement

theorem Body.siteAll_getElem? {k : Known α} {bodies : List (Body α)} {i : Nat} {b : Body α}
    (h : bodies[i]? = some b) (a : Address) : Body.siteAll k bodies i a = b.site k a := by
  induction bodies generalizing i with
  | nil => cases h
  | cons other rest ih =>
    cases i with
    | zero =>
      cases h
      rw [Body.siteAll]
    | succ i =>
      rw [Body.siteAll]
      exact ih h

namespace Statement

variable {f : Footing α} {k : Known α} {scope : Scope} {place : Address}

structure SwitchSited (f : Footing α) (k : Known α) (scope : Scope) (place : Address)
    (selector : Expr α) (bodies : List (Body α)) (default : Body α) : Prop where
  selector : f.free ∨ selector.isConstantIn scope.isFixed = true
  bodies : ∀ (i : Nat) (b : Body α), bodies[i]? = some b →
    b.Sited f k scope false (place ++ [i + 1])
  default : default.Sited f k scope false (place ++ [0])

theorem Sited.switch {head : Head α} {selector : Expr α} {keys : List (Int × Nat)}
    {bodies : List (Body α)} {default : Body α}
    (h : Sited f k scope place (.switch head selector keys bodies default)) :
    SwitchSited f k scope place selector bodies default := by
  obtain ⟨hbodies, hdefault⟩ := h.made.switch_inv
  have fixed := h.fixed
  simp only [isFixed, Bool.and_eq_true] at fixed
  have draws := h.draws
  simp only [yield, Yield.join, Bool.or_eq_false_iff] at draws
  refine ⟨fixed.imp_right fun all => all.1.1, ?_, ?_⟩
  · intro i b hb
    have mem := List.mem_of_getElem? hb
    refine h.body (hbodies b mem) (fun x hx => List.mem_append_left _ (Body.mem_flattenAll mem hx))
      (fun a => ?_) (fixed.imp_right fun all => Body.allFixed_mem mem all.1.2)
      (draws.imp_right fun none => Body.yieldAll_mem mem none.1)
    simp [Statement.site, Body.siteAll_getElem? hb]
  · exact h.body hdefault (by simp [inner]) (by simp [Statement.site])
      (fixed.imp_right fun all => all.2) (draws.imp_right fun none => none.2)

end Statement

/-! ### Grammars -/

namespace Draft

def known (d : Draft α) : Known α := Statement.knownAll [] d.globals.statements

/-- The value of the define at an address. Globals have one index, and the
statements of rules at least three. -/
def values (d : Draft α) : Address → Option (Value α)
  | [i] => Statement.siteAll [] d.globals.statements [i]
  | i :: j :: a => (d.shapes[i]?.bind fun s => s.rules[j]?).bind fun r => r.body.site d.known a
  | [] => none

/-- A grammar and the draft it was loaded from, without functions in the way of
builtins. -/
structure Loads (d : Draft α) (g : Grammar α) : Prop where
  drafted : d.Drafted
  built : d.build = .ok g
  clear : d.Clear

theorem Loads.defines {d : Draft α} {g : Grammar α} (h : d.Loads g) :
    ∀ st ∈ d.globals.statements, ∃ head f, st = .define head f := by
  intro st hst
  obtain ⟨span, f, rfl⟩ := h.drafted.regular.globals st hst
  exact ⟨_, f, rfl⟩

theorem Loads.fixed_eq_cached {d : Draft α} {g : Grammar α} (h : d.Loads g) :
    ∀ e ∈ d.globalScope, e.fixed = e.cached :=
  Scope.fixed_eq_cached (by simp) h.defines

theorem Loads.globals {d : Draft α} {g : Grammar α} (h : d.Loads g) :
    g.globals.statements = Statement.resolveAll [] [] 0 d.globals.statements := by
  obtain ⟨-, rfl⟩ := build_eq_ok.mp h.built
  rfl

theorem Loads.globals_clear {d : Draft α} {g : Grammar α} (h : d.Loads g) :
    ∀ st ∈ d.globals.statements, st.shadows = false := by
  intro st hst
  refine h.clear d.globals List.mem_cons_self st ?_
  generalize d.globals = b at hst ⊢
  obtain ⟨statements, params, slots⟩ := b
  rw [Body.flatten]
  exact Statement.mem_flattenAll hst

theorem RuleOf.sited {d : Draft α} {i j : Nat} {shape : Shape α} {rule : Rule α} {b : Body α}
    (h : RuleOf d i j shape rule b) (clear : d.Clear) {f : Footing α} (values : f.values = d.values)
    (fixed : f.free ∨ b.isFixed d.globalScope false = true)
    (draws : f.draws ∨ b.yield.replacement = false) :
    b.Sited f d.known d.globalScope false [i, j] where
  made := h.made
  clear := clear b (by simp [h.mem_bodies])
  site a := by
    obtain ⟨s, r, hs, hr, -, rfl⟩ := h.drafted
    simp [values, Draft.values, hs, hr]
  fixed := fixed
  draws := draws

end Draft

end ShapeGrammar
