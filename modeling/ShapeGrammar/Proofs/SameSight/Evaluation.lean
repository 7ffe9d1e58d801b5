import Mathlib.Data.List.Induction
import ShapeGrammar.Proofs.SamePlace.Sessions
import ShapeGrammar.Proofs.Rendering

/-!
# Evaluation with the same slots in sight

Evaluation reaches the stack through a view and in no other way. Two sessions
whose views show the same slots evaluate alike, however high their stacks are
and whatever else lies on them: a deferred define goes on with the slots behind
it, and a function with its arguments in front of these.
-/

set_option autoImplicit false

namespace ShapeGrammar

open Attempt

variable {σ α β γ : Type}

/-! ### Views during evaluation -/

/-- A view that an evaluation may have: the arguments in front are values, and
the globals are all there. -/
inductive View.Proper (s : Stack α) : View → Prop
  | full : Proper s .full
  | lexical {args scope : Window} {globalsEnd : Nat}
      (values : ∀ x ∈ s.window args, ∃ v, x.binding = .value v)
      (below : globalsEnd ≤ s.height) : Proper s (.lexical args scope (some globalsEnd))

theorem View.Open.proper {s : Stack α} {v : View} (h : v.Open s.height) : v.Proper s := by
  cases h with
  | full => exact .full
  | rule _ below =>
    refine .lexical ?_ below
    rw [Stack.window_empty]
    exact nofun

namespace Stack

theorem below_succ {slots : Array (Slot α)} {x : Slot α} {first i : Nat}
    (hslot : slots[i]? = some x) (lower : first ≤ i) :
    below slots first (i + 1) = x :: below slots first i := by
  rw [below, if_neg (by omega), hslot]
  rfl

theorem below_pushed (s : Stack α) (xs : List (Slot α)) :
    below (s.extend xs).slots s.height (s.extend xs).height = xs.reverse := by
  induction xs using List.reverseRecOn with
  | nil =>
    rw [extend_nil]
    exact below_self s.slots s.height
  | append_singleton xs x ih =>
    have lower : s.height ≤ (s.extend xs).height := by
      rw [height_extend]
      exact Nat.le_add_right _ _
    rw [← extend_extend, height_extend _ [x], List.reverse_append]
    exact (below_push (s.extend xs) x lower).trans (congrArg (x :: ·) ih)

end Stack

/-- Where a binding that is no value is found, the view is cut either in the
globals or in the slots of the rule. -/
theorem View.Proper.cut {s : Stack α} {v : View} (h : v.Proper s) {name : String} {i : Nat}
    {x : Slot α} (found : s.find name v = some i) (hslot : s.slots[i]? = some x)
    (other : ∀ u, x.binding ≠ .value u) :
    (∀ stop ≤ i + 1, v.cut (some i) (some stop) = .lexical .empty .empty (some stop)) ∨
      ∃ first globalsEnd, first ≤ i ∧ globalsEnd ≤ s.height ∧ ∀ stop : Nat,
        v.cut (some i) (some stop) = .lexical .empty ⟨first, some stop⟩ (some globalsEnd) := by
  cases h with
  | full => exact .inl fun _ _ => rfl
  | @lexical args scope globalsEnd values below =>
    simp only [Stack.find] at found
    cases hargs : s.findIn name args with
    | some j =>
      rw [hargs] at found
      cases found
      obtain ⟨-, -, slot, hj, -, search⟩ := Stack.findIn_some hargs
      rw [hslot] at hj
      cases hj
      obtain ⟨v, hv⟩ := values x (Slot.search_mem search).2.1
      exact absurd hv (other v)
    | none =>
      rw [hargs, Option.none_or] at found
      cases hscope : s.findIn name scope with
      | some j =>
        rw [hscope] at found
        cases found
        obtain ⟨contains, -, slot, hj, hname, -⟩ := Stack.findIn_some hscope
        have lower : scope.first ≤ i := by
          simp only [Window.contains, Bool.and_eq_true, decide_eq_true_eq] at contains
          exact contains.1
        refine .inr ⟨scope.first, globalsEnd, lower, below, fun stop => ?_⟩
        simp [View.cut, Stack.not_contains_of_findIn hargs hj hname, contains]
      | none =>
        rw [hscope, Option.none_or] at found
        obtain ⟨contains, -, slot, hj, hname, -⟩ := Stack.findIn_some found
        have inside : i < globalsEnd := by
          simpa [Window.contains] using contains
        refine .inl fun stop hstop => ?_
        have lower : Position.lower (some stop) (some globalsEnd) = some stop :=
          congrArg some (Nat.min_eq_left (by omega))
        simp [View.cut, Stack.not_contains_of_findIn hargs hj hname,
          Stack.not_contains_of_findIn hscope hj hname, lower]

/-! ### What a stack shows -/

structure Stack.Shows (s : Stack α) (v : View) (V : List (Slot α)) : Prop where
  visible : s.visible v = V
  proper : v.Proper s

namespace Stack.Shows

variable {s : Stack α} {v : View} {V rest : List (Slot α)} {name : String} {x : Slot α} {i : Nat}

theorem lookup_none (h : s.Shows v V) (missing : Slot.search name V = none) :
    s.lookup name v = none := by
  have search := s.lookup_eq_search name v
  rw [h.visible, missing] at search
  exact Option.map_eq_none_iff.mp search

theorem find (h : s.Shows v V) (found : Slot.search name V = some (x, rest)) :
    ∃ i, s.find name v = some i ∧ s.slots[i]? = some x ∧ s.visible (v.before (some i)) = rest := by
  rw [← h.visible] at found
  exact find_of_search found

/-- A binding that is no value was declared in sight of what lies behind it. -/
theorem before (h : s.Shows v V) (found : s.find name v = some i) (hslot : s.slots[i]? = some x)
    (other : ∀ u, x.binding ≠ .value u) :
    s.Shows (v.before (some i)) (s.visible (v.before (some i))) := by
  have top : i < s.height := (Array.getElem?_eq_some_iff.mp hslot).1
  have none : ∀ y ∈ s.window .empty, ∃ u, y.binding = .value u := nofun
  refine ⟨rfl, ?_⟩
  rcases h.proper.cut found hslot other with cut | ⟨first, globalsEnd, -, below, cut⟩
  · rw [View.before, cut i (Nat.le_succ i)]
    exact .lexical none (Nat.le_of_lt top)
  · rw [View.before, cut i]
    exact .lexical none below

/-- Arguments go in front of a function, which is still in sight. -/
theorem withArgs (h : s.Shows v V) (found : s.find name v = some i) (hslot : s.slots[i]? = some x)
    (other : ∀ u, x.binding ≠ .value u) {args : List (Slot α)}
    (values : ∀ y ∈ args, ∃ u, y.binding = .value u) :
    (s.pushFrame.extend args).Shows
      ((v.through (some i)).withArgs ⟨s.height, some (s.pushFrame.extend args).height⟩)
      (args.reverse ++ x :: s.visible (v.before (some i))) := by
  let t := s.pushFrame.extend args
  have top : i < s.height := (Array.getElem?_eq_some_iff.mp hslot).1
  have height : s.height ≤ t.height := by
    simp only [t, height_extend]
    exact Nat.le_add_right _ _
  have front : t.window ⟨s.height, some t.height⟩ = args.reverse := by
    rw [window_stop t _ (Nat.le_refl _)]
    exact s.pushFrame.below_pushed args
  have inFront : ∀ y ∈ t.window ⟨s.height, some t.height⟩, ∃ u, y.binding = .value u := by
    rw [front]
    exact fun y hy => values y (List.mem_reverse.mp hy)
  have low : ∀ first {stop : Nat}, stop ≤ s.height →
      t.window ⟨first, some stop⟩ = s.window ⟨first, some stop⟩ := by
    intro first stop hstop
    rw [window_stop t first (Nat.le_trans hstop height), window_stop s first hstop]
    exact s.pushFrame.below_extend args first hstop
  have next : ∀ first, first ≤ i →
      s.window ⟨first, some (i + 1)⟩ = x :: s.window ⟨first, some i⟩ := by
    intro first hfirst
    rw [window_stop _ first top, window_stop _ first (Nat.le_of_lt top)]
    exact below_succ hslot hfirst
  rcases h.proper.cut found hslot other with cut | ⟨first, globalsEnd, lower, below, cut⟩
  · simp only [View.through, View.before, Position.next, Option.map_some,
      cut (i + 1) (Nat.le_refl _), cut i (Nat.le_succ i), View.withArgs]
    refine ⟨?_, .lexical inFront (Nat.le_trans top height)⟩
    simp only [Stack.visible, window_empty, List.nil_append]
    rw [front, low 0 top, next 0 (Nat.zero_le i)]
  · simp only [View.through, View.before, Position.next, Option.map_some, cut (i + 1), cut i,
      View.withArgs]
    refine ⟨?_, .lexical inFront (Nat.le_trans below height)⟩
    simp only [Stack.visible, window_empty, List.nil_append]
    rw [front, low first top, low 0 below, next first lower, List.cons_append]

end Stack.Shows

/-! ### What two sessions share -/

/-- A stop other than a missing name or want of fuel. -/
def Stop.Usual (e : Stop) : Prop :=
  e ≠ .outOfFuel ∧ ∀ span name, e ≠ .fault (.eval ⟨span, .undefinedName name⟩)

theorem Stop.Usual.broken (what : Broken) : (Stop.fault (.broken what)).Usual := ⟨nofun, nofun⟩

theorem Stop.Usual.grammar (p : Diagnostic) : (Stop.fault (.grammar p)).Usual := ⟨nofun, nofun⟩

theorem Stop.Usual.aborted : (Stop.fault .aborted).Usual := ⟨nofun, nofun⟩

theorem Stop.Usual.eval {span : Span} {cause : EvalCause}
    (h : ∀ name, cause ≠ .undefinedName name) :
    (Stop.fault (.eval ⟨span, cause⟩)).Usual := by
  refine ⟨nofun, fun span name same => ?_⟩
  cases same
  exact h name rfl

/-- The terms on which two sessions are compared. -/
structure Pact (σ : Type) where
  /-- Both stand on one stack. -/
  level : Prop
  /-- Paths of these identities were begun on one stack. -/
  old : Nat → Prop
  like : σ → σ → Prop
  admits : Stop → Prop
  usual : ∀ e, e.Usual → admits e

/-- Paths that were begun at different heights, unless they are old. -/
structure Path.Compiled.Twin (old : Nat → Prop) (p p' : Path.Compiled α) : Prop where
  same : p.Same p'
  session : p.frame.session = p'.frame.session
  frame : (∀ uid ∈ p.uid, old uid) → p.frame = p'.frame

structure Cargo.Alike (m : Pact σ) (c c' : Cargo σ α) : Prop where
  building : c.building.map Path.Compiled.erased = c'.building.map Path.Compiled.erased
  random : c.random = c'.random
  values : c.store.values = c'.store.values
  paths : List.Forall₂ (fun a a' => a.1 = a'.1 ∧ a.2.Twin m.old a'.2) c.store.paths c'.store.paths
  nextUid : c.store.nextUid = c'.store.nextUid
  sessions : c.store.sessions = c'.store.sessions
  renderer : m.like c.renderer c'.renderer
  fresh : ∀ uid, c.store.nextUid ≤ uid → m.old uid → m.level

namespace Pact

/-- The sessions may differ in what evaluation cannot see. -/
structure Holds (m : Pact σ) (s s' : Session σ α) : Prop where
  level : m.level → s.control = s'.control
  cargo : s.cargo.Alike m s'.cargo

def parting (m : Pact σ) : Parting Stop Stop (Session σ α) (Session σ α) where
  together e e' s s' := e = e' ∧ m.admits e ∧ m.Holds s s'
  alone _ := False

variable {m : Pact σ}

theorem Holds.map {s s' : Session σ α} (h : m.Holds s s') (f f' : Session σ α → Session σ α)
    (control : m.level → s.control = s'.control → (f s).control = (f' s').control)
    (cargo : (f s).cargo = s.cargo) (cargo' : (f' s').cargo = s'.cargo) :
    m.Holds (f s) (f' s') where
  level level := control level (h.level level)
  cargo := by
    rw [cargo, cargo']
    exact h.cargo

theorem Holds.view {s s' : Session σ α} (h : m.Holds s s') {v v' : View}
    (same : m.level → v = v') : m.Holds { s with view := v } { s' with view := v' } :=
  h.map (fun s => { s with view := v }) (fun s => { s with view := v' })
    (fun level control => same level ▸ congrArg (fun κ : Control α => { κ with view := v }) control)
    rfl rfl

theorem Holds.stack {s s' : Session σ α} (h : m.Holds s s') {stack stack' : Stack α}
    (same : m.level → stack = stack') :
    m.Holds { s with stack := stack } { s' with stack := stack' } :=
  h.map (fun s => { s with stack := stack }) (fun s => { s with stack := stack' })
    (fun level control =>
      same level ▸ congrArg (fun κ : Control α => { κ with stack := stack }) control)
    rfl rfl

theorem mapState {same : β → γ → Prop} {o : Outcome Stop (Session σ α) β}
    {o' : Outcome Stop (Session σ α) γ} (h : Meets m.parting m.Holds same o o')
    {f f' : Session σ α → Session σ α} (holds : ∀ t t', m.Holds t t' → m.Holds (f t) (f' t')) :
    Meets m.parting m.Holds same (o.mapState f) (o'.mapState f') :=
  h.mapState holds (fun _ _ t t' parted => ⟨parted.1, parted.2.1, holds t t' parted.2.2⟩)
    fun _ => id

theorem underView {same : β → γ → Prop} {x : Action σ α β} {y : Action σ α γ}
    {s s' : Session σ α} (holds : m.Holds s s') {v v' : View}
    (h : Meets m.parting m.Holds same (x.run { s with view := v }) (y.run { s' with view := v' })) :
    Meets m.parting m.Holds same ((Action.underView v x).run s)
      ((Action.underView v' y).run s') := by
  rw [Action.wraps_underView v x s, Action.wraps_underView v' y s']
  exact mapState h fun t t' ht => ht.view fun level => congrArg Control.view (holds.level level)

theorem inFrame {same : β → γ → Prop} {x : Action σ α β} {y : Action σ α γ}
    {names names' : List String} (hx : Action.Pushes names x) (hy : Action.Pushes names' y)
    {s s' : Session σ α} (holds : m.Holds s s')
    (h : Meets m.parting m.Holds same (x.run { s with stack := s.stack.pushFrame })
      (y.run { s' with stack := s'.stack.pushFrame })) :
    Meets m.parting m.Holds same ((Action.inFrame x).run s) ((Action.inFrame y).run s') := by
  rw [Action.wraps_inFrame hx.stack s, Action.wraps_inFrame hy.stack s']
  exact mapState h fun t t' ht => ht.stack fun level => congrArg Control.stack (holds.level level)

theorem fail_leads {P Q : Session σ α → Session σ α → Prop} {same : β → γ → Prop} {e : Stop}
    (admitted : m.admits e) (holds : ∀ s s', P s s' → m.Holds s s') :
    Leads m.parting P Q same (Attempt.fail e : Action σ α β) (Attempt.fail e : Action σ α γ) :=
  Leads.fail fun s s' h => ⟨rfl, admitted, holds s s' h⟩

end Pact

def Session.extend (s : Session σ α) (extra : List (Slot α)) : Session σ α :=
  { s with stack := s.stack.extend extra }

theorem Pact.Holds.extend {m : Pact σ} {s s' : Session σ α} (h : m.Holds s s')
    (extra : List (Slot α)) : m.Holds (s.extend extra) (s'.extend extra) :=
  h.map (·.extend extra) (·.extend extra) (fun _ same => congrArg (Control.extend · extra) same)
    rfl rfl

def Param.slots (params : List Param) (values : List (Value α)) : List (Slot α) :=
  List.zipWith (fun p v => ⟨p.name, .value v⟩) params values

theorem Param.slots_values (params : List Param) (values : List (Value α)) :
    ∀ x ∈ Param.slots params values, ∃ v, x.binding = .value v := by
  intro x hx
  obtain ⟨i, hi, rfl⟩ := List.mem_iff_getElem.mp hx
  simp [Param.slots]

theorem Action.bindParams_meets {m : Pact σ} (params : List Param) (values : List (Value α))
    {s s' : Session σ α} (holds : m.Holds s s') (framed : s.stack.Framed s'.stack) :
    Meets m.parting
      (fun t t' => t = s.extend (Param.slots params values) ∧
        t' = s'.extend (Param.slots params values) ∧ t.stack.Framed t'.stack) Eq
      ((bindParams params values).run s) ((bindParams params values).run s') := by
  induction params generalizing values s s' with
  | nil =>
    refine .ok rfl ⟨?_, ?_, framed⟩ <;> simp [Param.slots, Session.extend]
  | cons p params ih =>
    cases values with
    | nil => refine .ok rfl ⟨?_, ?_, framed⟩ <;> simp [Param.slots, Session.extend]
    | cons v values =>
      simp only [bindParams, run_bind, bindName_run, framed.isTaken p.name]
      cases taken : s'.stack.isTaken p.name with
      | true => exact .together ⟨rfl, m.usual _ (.grammar _), holds⟩
      | false =>
        have pushed : (s.extend [⟨p.name, .value v⟩]).stack.Framed
          (s'.extend [⟨p.name, .value v⟩]).stack := framed.push rfl
        have ends := ih values (holds.extend [⟨p.name, .value v⟩]) pushed
        simpa [Param.slots, Session.extend] using ends

theorem Action.calling_meets {m : Pact σ} (params : List Param) (args : List (Value α))
    {x y : Action σ α β} (hx : Keeps x) (hy : Keeps y) {s s' : Session σ α} (holds : m.Holds s s')
    (view view' : Nat → View) (same : m.level → view = view')
    (inside : ∀ t t', m.Holds t t' →
      t.stack = s.stack.pushFrame.extend (Param.slots params args) →
      t'.stack = s'.stack.pushFrame.extend (Param.slots params args) →
      t.view = view t.stack.height → t'.view = view' t'.stack.height →
      Meets m.parting m.Holds Eq (x.run t) (y.run t')) :
    Meets m.parting m.Holds Eq
      ((inFrame do
        bindParams params args
        let top := (← Attempt.state).stack.height
        let v ← underView (view top) x
        return some v).run s)
      ((inFrame do
        bindParams params args
        let top := (← Attempt.state).stack.height
        let v ← underView (view' top) y
        return some v).run s') := by
  have stack : m.level → s.stack = s'.stack :=
    fun level => congrArg Control.stack (holds.level level)
  have entered : m.Holds { s with stack := s.stack.pushFrame }
      { s' with stack := s'.stack.pushFrame } :=
    holds.stack fun level => congrArg Stack.pushFrame (stack level)
  refine Pact.inFrame (pushes_calling params args _ hx) (pushes_calling params args _ hy) holds ?_
  refine Meets.bind (bindParams_meets params args entered (.pushFrame _ _)) ?_
  rintro _ _ _ _ - ⟨rfl, rfl, -⟩
  have bound := entered.extend (Param.slots params args)
  change Meets _ _ _ ((underView (view _) x >>= fun v => pure (some v)).run _)
    ((underView (view' _) y >>= fun v => pure (some v)).run _)
  refine Meets.bind (Pact.underView bound (inside _ _ (bound.view fun level => ?_) rfl rfl rfl rfl))
    fun _ _ _ _ value holds => .ok (congrArg some value) holds
  rw [same level]
  exact congrArg (fun stack : Stack α => view' (stack.pushFrame.extend _).height) (stack level)

/-! ### Evaluation -/

/-- Two sessions that show the same slots. -/
structure Looks (m : Pact σ) (V : List (Slot α)) (s s' : Session σ α) : Prop extends
    m.Holds s s' where
  left : s.stack.Shows s.view V
  right : s'.stack.Shows s'.view V

namespace Looks

variable {m : Pact σ} {V : List (Slot α)}

/-- Actions that keep everything in place keep what is shown. -/
theorem kept {same : β → γ → Prop} {x : Action σ α β} {y : Action σ α γ}
    (hx : Action.Keeps x) (hy : Action.Keeps y)
    (h : Leads m.parting (Looks m V) m.Holds same x y) : InStep m.parting (Looks m V) same x y := by
  intro s s' hs
  refine ((h s s' hs).and_ends (hx s) (hy s')).weaken (.refl _) ?_ fun _ _ => id
  rintro t t' ⟨holds, left, right⟩
  have seen : ∀ {t s : Session σ α}, t.control = s.control → s.stack.Shows s.view V →
      t.stack.Shows t.view V := by
    intro t s control shows
    have stack : t.stack = s.stack := congrArg Control.stack control
    have view : t.view = s.view := congrArg Control.view control
    rwa [stack, view]
  exact ⟨holds, seen left hs.left, seen right hs.right⟩

theorem stack_eq {s s' : Session σ α} (h : Looks m V s s') (level : m.level) :
    s.stack = s'.stack :=
  congrArg Control.stack (h.level level)

theorem view_eq {s s' : Session σ α} (h : Looks m V s s') (level : m.level) : s.view = s'.view :=
  congrArg Control.view (h.level level)

/-- A name is found behind the same slots, and on one stack in one place. -/
theorem found {s s' : Session σ α} (h : Looks m V s s') {name : String} {x : Slot α}
    {rest : List (Slot α)} (hx : Slot.search name V = some (x, rest)) :
    ∃ i i', s.stack.find name s.view = some i ∧ s'.stack.find name s'.view = some i' ∧
      s.stack.slots[i]? = some x ∧ s'.stack.slots[i']? = some x ∧
      s.stack.visible (s.view.before (some i)) = rest ∧
      s'.stack.visible (s'.view.before (some i')) = rest ∧ (m.level → i = i') := by
  obtain ⟨i, hi, slot, behind⟩ := h.left.find hx
  obtain ⟨i', hi', slot', behind'⟩ := h.right.find hx
  refine ⟨i, i', hi, hi', slot, slot', behind, behind', fun level => ?_⟩
  rw [h.stack_eq level, h.view_eq level, hi'] at hi
  cases hi
  rfl

variable [Scalar α] {body body' : Define α → Span → Action σ α (Value α)}

/-- A name is looked up alike if the define it leads to is evaluated alike. -/
theorem lookup (keeps : ∀ d span, Action.Keeps (body d span))
    (keeps' : ∀ d span, Action.Keeps (body' d span)) (name : String) (span : Span)
    (missing : Slot.search name V = none → m.admits (.fault (.eval ⟨span, .undefinedName name⟩)))
    (deferred : ∀ x rest d, Slot.search name V = some (x, rest) → x.binding = .deferred d →
      InStep m.parting (Looks m rest) Eq (body d span) (body' d span)) :
    InStep m.parting (Looks m V) Eq ((Session.environment body).lookup name span)
      ((Session.environment body').lookup name span) := by
  refine kept (Session.keeps_lookup keeps name span) (Session.keeps_lookup keeps' name span) ?_
  intro s s' hs
  simp only [Session.environment, run_bind, run_state]
  cases search : Slot.search name V with
  | none =>
    rw [hs.left.lookup_none search, hs.right.lookup_none search]
    exact .together ⟨rfl, missing search, hs.toHolds⟩
  | some slot =>
    obtain ⟨x, rest⟩ := slot
    obtain ⟨i, i', hi, hi', slot, slot', behind, behind', one⟩ := hs.found search
    rw [Stack.lookup_of_find hi slot, Stack.lookup_of_find hi' slot']
    cases hx : x.binding with
    | value v => exact .ok rfl hs.toHolds
    | function d => exact .together ⟨rfl, m.usual _ (.eval (by simp)), hs.toHolds⟩
    | deferred d =>
      have right := hs.right.before hi' slot' (by simp [hx])
      have left := hs.left.before hi slot (by simp [hx])
      rw [behind] at left
      rw [behind'] at right
      refine Pact.underView hs.toHolds ((deferred x rest d search hx _ _
        ⟨hs.toHolds.view fun level => ?_, left, right⟩).weaken (.refl _)
          (fun _ _ later => later.toHolds) fun _ _ => id)
      rw [one level, hs.view_eq level]

/-- A function is called alike if its body is evaluated alike with the arguments
in front. -/
theorem call (keeps : ∀ d span, Action.Keeps (body d span))
    (keeps' : ∀ d span, Action.Keeps (body' d span)) (name : String) (args : List (Value α))
    (span : Span)
    (function : ∀ x rest d, Slot.search name V = some (x, rest) → x.binding = .function d →
      args.length = d.params.length →
      InStep m.parting (Looks m ((Param.slots d.params args).reverse ++ x :: rest)) Eq
        (body d span) (body' d span)) :
    InStep m.parting (Looks m V) Eq ((Session.environment body).call name args span)
      ((Session.environment body').call name args span) := by
  refine kept (Session.keeps_call keeps name args span)
    (Session.keeps_call keeps' name args span) ?_
  intro s s' hs
  simp only [Session.environment, run_bind, run_state]
  cases search : Slot.search name V with
  | none =>
    rw [hs.left.lookup_none search, hs.right.lookup_none search]
    exact .ok rfl hs.toHolds
  | some slot =>
    obtain ⟨x, rest⟩ := slot
    obtain ⟨i, i', hi, hi', slot, slot', behind, behind', one⟩ := hs.found search
    rw [Stack.lookup_of_find hi slot, Stack.lookup_of_find hi' slot']
    cases hx : x.binding with
    | value v => exact .ok rfl hs.toHolds
    | deferred d => exact .ok rfl hs.toHolds
    | function d =>
      simp only
      by_cases length : args.length = d.params.length
      case neg =>
        rw [if_pos length, if_pos length]
        exact .together ⟨rfl, m.usual _ (.eval (by simp)), hs.toHolds⟩
      rw [if_neg (not_not_intro length), if_neg (not_not_intro length)]
      cases accepted : Param.accept d.params args with
      | error cause =>
        refine .together ⟨rfl, m.usual _ (.eval fun name same => ?_), hs.toHolds⟩
        subst same
        exact Param.accept_ordinary d.params args name accepted
      | ok _ =>
        have values := Param.slots_values d.params args
        refine Action.calling_meets d.params args (keeps d span) (keeps' d span) hs.toHolds
          (fun top => (s.view.through (some i)).withArgs ⟨s.stack.height, some top⟩)
          (fun top => (s'.view.through (some i')).withArgs ⟨s'.stack.height, some top⟩) ?_ ?_
        · intro level
          rw [hs.stack_eq level, hs.view_eq level, one level]
        · intro t t' ht stack stack' view view'
          refine (function x rest d search hx length t t' ⟨ht, ?_, ?_⟩).weaken (.refl _)
            (fun _ _ later => later.toHolds) fun _ _ => id
          · rw [view, stack, ← behind]
            exact hs.left.withArgs hi slot (by simp [hx]) values
          · rw [view', stack', ← behind']
            exact hs.right.withArgs hi' slot' (by simp [hx]) values

/-- What is asked of two sessions is answered alike if every define that the
answer leads to is evaluated alike. -/
theorem environment {asked : Expr.Use → Prop} (keeps : ∀ d span, Action.Keeps (body d span))
    (keeps' : ∀ d span, Action.Keeps (body' d span))
    (missing : ∀ name span, asked (.read name span) → Slot.search name V = none →
      m.admits (.fault (.eval ⟨span, .undefinedName name⟩)))
    (deferred : ∀ name span x rest d, asked (.read name span) →
      Slot.search name V = some (x, rest) → x.binding = .deferred d →
      InStep m.parting (Looks m rest) Eq (body d span) (body' d span))
    (function : ∀ name span args x rest d, asked (.call name span) →
      Slot.search name V = some (x, rest) → x.binding = .function d →
      args.length = d.params.length →
      InStep m.parting (Looks m ((Param.slots d.params args).reverse ++ x :: rest)) Eq
        (body d span) (body' d span)) :
    Env.Answers m.parting (Looks m V) asked (Session.environment body)
      (Session.environment body') where
  lookup name span hu :=
    lookup keeps keeps' name span (missing name span hu) fun x rest d =>
      deferred name span x rest d hu
  call name args span hu :=
    call keeps keeps' name args span fun x rest d => function name span args x rest d hu
  draw name span _ _ s s' hs := by
    have random : s.random = s'.random := hs.cargo.random
    have drawn : Looks m V { s with random := s.random.bump } { s' with random := s.random.bump } :=
      ⟨⟨hs.level, { hs.cargo with random := rfl }⟩, hs.left, hs.right⟩
    simp only [Session.environment, ← random]
    exact .some ⟨rfl, drawn⟩
  raise span cause hc s s' hs := ⟨rfl, m.usual _ (.eval hc), hs.toHolds⟩

end Looks

end ShapeGrammar
