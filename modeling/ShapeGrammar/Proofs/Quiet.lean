import ShapeGrammar.Proofs.Naming
import ShapeGrammar.Proofs.SameStack.Evaluation

/-!
# Grammars that draw nothing

A grammar is quiet if it never comes to a choice: no shape has two rules, and no
expression calls a random builtin, not even in a function that may never be called.
Evaluation among quiet definitions leaves the session as it is, the random source
included, and does not look at that source either.
-/

set_option autoImplicit false

namespace ShapeGrammar

open Attempt

variable {σ α β γ : Type}

/-! ### Quiet grammars -/

def Expr.Use.isQuiet : Expr.Use → Bool
  | .read _ _ => true
  | .call name _ => !Builtin.namesRandom name

def DefineBody.Quiet (b : DefineBody α) : Prop := ∀ u ∈ b.uses, u.isQuiet = true

def Statement.allUses : Statement α → List Expr.Use
  | .define h d => h.uses ++ d.body.uses
  | st => st.uses

def Statement.Quiet (st : Statement α) : Prop := ∀ u ∈ st.allUses, u.isQuiet = true

def Body.Quiet (b : Body α) : Prop := ∀ st ∈ b.flatten, st.Quiet

structure Grammar.Quiet (g : Grammar α) : Prop where
  single : ∀ shape ∈ g.shapes, shape.rules.length ≤ 1
  globals : g.globals.Quiet
  rules : ∀ shape ∈ g.shapes, ∀ rule ∈ shape.rules, rule.body.Quiet

instance (b : Body α) : Decidable b.Quiet :=
  inferInstanceAs (Decidable (∀ st ∈ b.flatten, ∀ u ∈ st.allUses, u.isQuiet = true))

instance (g : Grammar α) : Decidable g.Quiet :=
  decidable_of_iff ((∀ shape ∈ g.shapes, shape.rules.length ≤ 1) ∧ g.globals.Quiet ∧
    ∀ shape ∈ g.shapes, ∀ rule ∈ shape.rules, rule.body.Quiet)
    ⟨fun h => ⟨h.1, h.2.1, h.2.2⟩, fun h => ⟨h.single, h.globals, h.rules⟩⟩

/-- A statement is quiet together with those inside it. -/
theorem Body.Quiet.statement {b : Body α} (h : b.Quiet) {st : Statement α}
    (hst : st ∈ b.statements) : st.Quiet ∧ ∀ x ∈ st.inner, x.Quiet := by
  obtain ⟨statements, params, slots⟩ := b
  constructor
  · exact h st (Statement.mem_flattenAll hst)
  · exact fun x hx => h x (Statement.inner_subset hst hx)

theorem Statement.Quiet.uses {st : Statement α} (h : st.Quiet) :
    ∀ u ∈ st.uses, u.isQuiet = true := by
  intro u hu
  cases st with
  | define head d =>
    rcases List.mem_append.mp hu with hu | hu
    · exact h u (List.mem_append_left _ hu)
    · split at hu
      · cases hu
      · exact h u (List.mem_append_right _ hu)
  | _ => exact h u hu

theorem Statement.Quiet.body {head : Head α} {d : Define α} (h : (Statement.define head d).Quiet) :
    d.body.Quiet :=
  fun u hu => h u (List.mem_append_right _ hu)

/-! ### Quiet sessions -/

def Binding.Quiet : Binding α → Prop
  | .value _ => True
  | .deferred d => d.body.Quiet
  | .function d => d.body.Quiet

def Stack.Quiet (s : Stack α) : Prop := ∀ x ∈ s.slots, x.binding.Quiet

theorem Stack.Quiet.extend {s : Stack α} (h : s.Quiet) {x : Slot α} (hx : x.binding.Quiet) :
    (s.extend [x]).Quiet := by
  intro y hy
  rcases Array.mem_append.mp hy with hy | hy
  · exact h y hy
  · obtain rfl : y = x := by simpa using hy
    exact hx

theorem Stack.Quiet.lookup {s : Stack α} (h : s.Quiet) {name : String} {view : View} {i : Nat}
    {binding : Binding α} (found : s.lookup name view = some (i, binding)) : binding.Quiet := by
  obtain ⟨x, mem, rfl⟩ := Stack.mem_of_lookup found
  exact h x mem

def Parting.alike {ω ω' : Type} (P : ω → ω' → Prop) : Parting Stop Stop ω ω' where
  together e e' s s' := e = e' ∧ P s s'
  alone _ := False

/-- Sessions with the same quiet definitions in sight, whatever their random
sources, with `D` for all the rest. -/
structure Muted (numbered : Prop) (D : Session σ α → Session σ α → Prop)
    (s s' : Session σ α) : Prop where
  slots : s.stack.slots = s'.stack.slots
  frames : s.stack.frames = s'.stack.frames
  view : s.view = s'.view
  session : numbered → s.stack.session = s'.stack.session
  quiet : s.stack.Quiet
  rest : D s s'

/-- The relation does not look at the stack or the view. -/
def Unmoved (D : Session σ α → Session σ α → Prop) : Prop :=
  ∀ s s', D s s' → ∀ stack stack' view view',
    D { s with stack := stack, view := view } { s' with stack := stack', view := view' }

namespace Muted

variable {numbered : Prop} {D : Session σ α → Session σ α → Prop} {s s' : Session σ α}

abbrev Level (numbered : Prop) (D : Session σ α → Session σ α → Prop) (x : Action σ α β) : Prop :=
  InStep (Parting.alike (Muted numbered D)) (Muted numbered D) Eq x x

theorem twins (h : Muted numbered D s s') :
    Twins numbered (fun _ _ => True) s { s' with random := s.random } :=
  ⟨h.slots, h.frames, h.view, rfl, h.session, trivial⟩

theorem quiet' (h : Muted numbered D s s') : s'.stack.Quiet := by
  intro x hx
  rw [← h.slots] at hx
  exact h.quiet x hx

theorem height (h : Muted numbered D s s') : s.stack.height = s'.stack.height := h.twins.height

theorem level_fail (e : Stop) : Level numbered D (Attempt.fail e : Action σ α β) :=
  Leads.fail fun _ _ h => ⟨rfl, h⟩

theorem level_of_state {f : Session σ α → Action σ α β}
    (h : ∀ s s', Muted numbered D s s' → InStep (Parting.alike (Muted numbered D))
      (Muted numbered D) Eq (f s) (f s')) :
    Level numbered D (Attempt.state >>= f) :=
  Leads.bind Leads.state h

theorem withView (unmoved : Unmoved D) (h : Muted numbered D s s') (view : View) :
    Muted numbered D { s with view := view } { s' with view := view } :=
  { h with view := rfl, rest := unmoved _ _ h.rest _ _ _ _ }

theorem backView (unmoved : Unmoved D) (h : Muted numbered D s s') {t t' : Session σ α}
    (ht : Muted numbered D t t') :
    Muted numbered D { t with view := s.view } { t' with view := s'.view } :=
  { ht with view := h.view, rest := unmoved _ _ ht.rest _ _ _ _ }

theorem pushFrame (unmoved : Unmoved D) (h : Muted numbered D s s') :
    Muted numbered D { s with stack := s.stack.pushFrame }
      { s' with stack := s'.stack.pushFrame } := by
  have frames : s.stack.pushFrame.frames = s'.stack.pushFrame.frames := by
    simp [Stack.pushFrame, h.frames, h.height]
  exact { h with frames := frames, rest := unmoved _ _ h.rest _ _ _ _ }

theorem backStack (unmoved : Unmoved D) (h : Muted numbered D s s') {t t' : Session σ α}
    (ht : Muted numbered D t t') :
    Muted numbered D { t with stack := s.stack } { t' with stack := s'.stack } :=
  { h with view := ht.view, rest := unmoved _ _ ht.rest _ _ _ _ }

theorem level_underView (unmoved : Unmoved D) (view : View) {x : Action σ α β}
    (h : Level numbered D x) : Level numbered D (Action.underView view x) := by
  refine Leads.wrap h (Action.wraps_underView view x) (Action.wraps_underView view x) ?_ ?_ ?_
    fun _ => id
  · exact fun _ _ hs => hs.withView unmoved view
  · exact fun _ _ _ _ hs ht => hs.backView unmoved ht
  · exact fun _ _ _ _ _ _ hs parted => ⟨parted.1, hs.backView unmoved parted.2⟩

theorem level_inFrame (unmoved : Unmoved D) {x : Action σ α β}
    (hx : ∀ s, ∃ extra, (x.run s).state.stack = s.stack.extend extra) (h : Level numbered D x) :
    Level numbered D (Action.inFrame x) := by
  refine Leads.wrap h (Action.wraps_inFrame hx) (Action.wraps_inFrame hx) ?_ ?_ ?_ fun _ => id
  · exact fun _ _ hs => hs.pushFrame unmoved
  · exact fun _ _ _ _ hs ht => hs.backStack unmoved ht
  · exact fun _ _ _ _ _ _ hs parted => ⟨parted.1, hs.backStack unmoved parted.2⟩

theorem level_bindName (unmoved : Unmoved D) (name : String) {binding : Binding α}
    (quiet : binding.Quiet) (span : Span) :
    Level numbered D (Action.bindName name binding span : Action σ α Unit) := by
  intro s s' hs
  have taken : s.stack.isTaken name = s'.stack.isTaken name := hs.twins.isTaken name
  rw [Action.bindName_run, Action.bindName_run, taken]
  split
  · exact .together ⟨rfl, hs⟩
  · exact .ok rfl { hs with
      slots := congrArg (· ++ _) hs.slots
      quiet := hs.quiet.extend quiet
      rest := unmoved _ _ hs.rest _ _ _ _ }

theorem level_bindParams (unmoved : Unmoved D) (params : List Param) (values : List (Value α)) :
    Level numbered D (Action.bindParams params values : Action σ α Unit) := by
  induction params generalizing values with
  | nil => exact Leads.pure rfl
  | cons p params ih =>
    cases values with
    | nil => exact Leads.pure rfl
    | cons v values =>
      have quiet : (Binding.value v).Quiet := trivial
      exact Leads.andThen (level_bindName unmoved _ quiet _) fun _ => ih values

variable [Scalar α]

/-! ### Evaluation -/

theorem environment_answers (unmoved : Unmoved D) {body : Define α → Span → Action σ α (Value α)}
    (keeps : ∀ d span, Action.Keeps (body d span))
    (h : ∀ d span, d.body.Quiet → Level numbered D (body d span)) :
    Env.Answers (Parting.alike (Muted numbered D)) (Muted numbered D) (·.isQuiet = true)
      (Session.environment body) (Session.environment body) where
  lookup name span _ := by
    refine level_of_state fun s s' hs => ?_
    rw [← Stack.lookup_congr hs.slots, ← hs.view]
    split
    · exact level_fail _
    · exact Leads.pure rfl
    case h_3 found => exact level_underView unmoved _ (h _ span (hs.quiet.lookup found))
    · exact level_fail _
  call name args span _ := by
    refine level_of_state fun s s' hs => ?_
    simp only [← Stack.lookup_congr hs.slots, ← hs.view, ← hs.height]
    split
    case h_1 slot d found =>
      split
      · exact level_fail _
      · split
        · exact level_fail _
        · refine level_inFrame unmoved (Action.pushes_calling d.params args _ (keeps d span)).stack ?_
          refine Leads.andThen (level_bindParams unmoved d.params args) fun _ => ?_
          refine level_of_state fun t t' ht => ?_
          rw [← ht.height]
          refine Leads.andThen (level_underView unmoved _ (h d span (hs.quiet.lookup found))) ?_
          exact fun v => Leads.pure rfl
    case h_2 => exact Leads.pure rfl
  draw name span quiet random := by
    simp [Expr.Use.isQuiet, random] at quiet
  raise _ _ _ _ _ hs := ⟨rfl, hs⟩

/-- Quiet uses are answered without a look at the random source. -/
theorem environmentAt_answers (unmoved : Unmoved D) (fuel : Nat) :
    Env.Answers (Parting.alike (Muted numbered D)) (Muted numbered D) (·.isQuiet = true)
      (Session.environmentAt fuel) (Session.environmentAt fuel) := by
  induction fuel with
  | zero =>
    exact environment_answers unmoved (fun _ _ => Action.keeps_fail nofun) fun _ _ _ => level_fail _
  | succ fuel ih =>
    exact environment_answers unmoved (Session.environmentAt_keeps fuel).evalDefine
      fun d span quiet => ih.evalDefine d span quiet

omit [Scalar α] in
/-- What leaves the stack and the view in place, and all the rest alone, leaves the
session as it is. -/
theorem still {x : Action σ α β} (keeps : Action.Keeps x)
    (level : ∀ D : Session σ α → Session σ α → Prop, Unmoved D → Level False D x)
    (quiet : s.stack.Quiet) : (x.run s).state = s := by
  let D (u _ : Session σ α) : Prop := u = { s with stack := u.stack, view := u.view }
  have unmoved : Unmoved D := by
    intro u u' same stack stack' view view'
    change { u with stack := stack, view := view } = { s with stack := stack, view := view }
    rw [same]
  have ends := level D unmoved s s ⟨rfl, rfl, rfl, fun _ => rfl, quiet, rfl⟩
  have control := keeps s
  generalize x.run s = o at ends control ⊢
  have alone : ∀ t : Session σ α, D t t → t.control = s.control → t = s := by
    intro t same control
    have stack : t.stack = s.stack := congrArg Control.stack control
    have view : t.view = s.view := congrArg Control.view control
    calc t = { s with stack := t.stack, view := t.view } := same
      _ = s := by rw [stack, view]
  cases ends with
  | ok _ state => exact alone _ state.rest control
  | together parted => exact alone _ parted.2.rest control.2
  | alone never => exact never.elim

theorem evalDefine_still (fuel : Nat) {d : Define α} (quiet : d.body.Quiet) (span : Span)
    (hs : s.stack.Quiet) : (((Session.environmentAt fuel).evalDefine d span).run s).state = s :=
  still ((Session.environmentAt_keeps fuel).evalDefine d span)
    (fun _ unmoved => (environmentAt_answers unmoved fuel).evalDefine d span quiet) hs

/-- A quiet define comes to the same on both sides, and nothing else comes of it. -/
theorem evalDefine_alike (unmoved : Unmoved D) (fuel : Nat) {d : Define α} (quiet : d.body.Quiet)
    (span : Span) (hs : Muted numbered D s s') :
    let x : Action σ α (Value α) := (Session.environmentAt fuel).evalDefine d span
    (∃ v, x.run s = .ok v s ∧ x.run s' = .ok v s') ∨
      ∃ e, x.run s = .failed e s ∧ x.run s' = .failed e s' := by
  intro x
  have level := (environmentAt_answers unmoved fuel).evalDefine d span quiet s s' hs
  have still := evalDefine_still fuel quiet span hs.quiet
  have still' := evalDefine_still fuel quiet span hs.quiet'
  change Meets _ _ _ (x.run s) (x.run s') at level
  change (x.run s).state = s at still
  change (x.run s').state = s' at still'
  generalize x.run s = o at level still ⊢
  generalize x.run s' = o' at level still' ⊢
  cases level with
  | ok value _ =>
    cases value
    cases still
    cases still'
    exact .inl ⟨_, rfl, rfl⟩
  | together parted =>
    obtain ⟨rfl, -⟩ := parted
    cases still
    cases still'
    exact .inr ⟨_, rfl, rfl⟩
  | alone never => exact never.elim

end Muted

end ShapeGrammar
