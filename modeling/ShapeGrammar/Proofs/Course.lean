import ShapeGrammar.Proofs.Fitness
import ShapeGrammar.Proofs.Restoration

/-!
# The course of a run

Much of what is to be said of a run is said of its depth, its paths and its
renderer. Names and values have no part in it: to bind, to look up and to
evaluate leaves all of this as it is. What holds of it all along a run, and of
the end of a run that fails, is a course that the run stays on.
-/

set_option autoImplicit false

namespace ShapeGrammar

open Attempt

variable {σ α β γ : Type}

/-- A session apart from its names and values. -/
structure Backdrop (σ α : Type) where
  depth : Nat
  building : Option (Path.Compiled α)
  paths : List (Address × Path.Compiled α)
  nextUid : Nat
  renderer : σ

def Session.backdrop (s : Session σ α) : Backdrop σ α :=
  ⟨s.depth, s.building, s.store.paths, s.store.nextUid, s.renderer⟩

theorem Path.Compiled.kept_cons {K : Path.Compiled α → Prop}
    {paths : List (Address × Path.Compiled α)}
    (h : ∀ place p, paths.lookup place = some p → K p) {place : Address} {p : Path.Compiled α}
    (hp : K p) : ∀ other q, ((place, p) :: paths).lookup other = some q → K q := by
  intro other q found
  rw [List.lookup_cons] at found
  split at found
  · cases found
    exact hp
  · exact h other q found

inductive Path.Compiled.Extends [Scalar α] (p q : Path.Compiled α) : Prop
  | append {op : Path.Operator} {flags : Path.Flags} {isCubic : Bool} {args : Path.Args α}
      {m : Affine α} (built : p.append op flags isCubic args m = .ok q) : Extends p q
  | command {command : Path.Command α} (built : p.addCommand command = .ok q) : Extends p q

/-- What is to hold while a session goes on, and when it fails. -/
structure Course (σ α : Type) [Scalar α] where
  holds : Backdrop σ α → Prop
  ends : Stop → Backdrop σ α → Prop
  /-- Stops that may come at any point. -/
  may : Stop → Prop
  fails : ∀ e b, may e → holds b → ends e b
  fuel : may .outOfFuel
  evaluation : ∀ fault, may (.fault (.eval fault))
  taken : ∀ span name, may (.fault (.grammar ⟨span, .nameTaken name⟩))
  range : ∀ span (v : Value α) p, LoopRange.ofValue v = .error p →
    may (.fault (.grammar ⟨span, p⟩))

variable [Scalar α]

namespace Course

/-- The action ends on the course that it began on, or in a way that is foreseen. -/
abbrev Stays (k : Course σ α) (x : Action σ α β) : Prop :=
  InStep (single fun e t => k.ends e t.backdrop) (Twice fun s => k.holds s.backdrop) Eq x x

variable {k : Course σ α}

theorem stays_iff {x : Action σ α β} : k.Stays x ↔ ∀ s, k.holds s.backdrop →
    (x.run s).Ends (fun t => k.holds t.backdrop) fun e t => k.ends e t.backdrop :=
  leads_single_iff

theorem stays_fail {e : Stop} (h : k.may e) : k.Stays (Attempt.fail e : Action σ α β) :=
  stays_iff.mpr fun _ hs => k.fails e _ h hs

theorem stays_update {f : Session σ α → Session σ α} (h : ∀ s, (f s).backdrop = s.backdrop) :
    k.Stays (Attempt.update f) :=
  stays_iff.mpr fun s hs => show k.holds (f s).backdrop from (h s).symm ▸ hs

theorem Stays.andThen {x : Action σ α β} {f : β → Action σ α γ} (hx : k.Stays x)
    (hf : ∀ b, k.Stays (f b)) : k.Stays (x >>= f) :=
  Leads.andThen hx hf

abbrev Gives (k : Course σ α) (K : β → Prop) (x : Action σ α β) : Prop :=
  InStep (single fun e t => k.ends e t.backdrop) (Twice fun s => k.holds s.backdrop)
    (fun b b' => b = b' ∧ K b) x x

theorem gives_fail {K : β → Prop} {e : Stop} (h : k.may e) :
    k.Gives K (Attempt.fail e : Action σ α β) :=
  Leads.fail fun _ _ ⟨same, holds⟩ => ⟨rfl, same, k.fails e _ h holds⟩

theorem stays_of_state {f : Session σ α → Action σ α β}
    (hf : ∀ s, k.holds s.backdrop → k.Stays (f s)) : k.Stays (Attempt.state >>= f) := by
  refine Leads.bind Leads.state ?_
  rintro s _ ⟨rfl, holds⟩
  exact hf s holds

/-- Names and values may be put in place for an action and put back after it. -/
theorem Stays.wrap {before : Session σ α → Session σ α}
    {after : Session σ α → Session σ α → Session σ α} {w x : Action σ α β} (h : k.Stays x)
    (hw : Wraps before after w x) (enter : ∀ s, (before s).backdrop = s.backdrop)
    (leave : ∀ s t, (after s t).backdrop = t.backdrop) : k.Stays w := by
  refine stays_iff.mpr fun s hs => ?_
  rw [hw s]
  refine (stays_iff.mp h _ ((enter s).symm ▸ hs)).mapState ?_ ?_
  · exact fun t ht => (leave s t).symm ▸ ht
  · exact fun e t he => (leave s t).symm ▸ he

theorem stays_underView (view : View) {x : Action σ α β} (h : k.Stays x) :
    k.Stays (Action.underView view x) :=
  h.wrap (Action.wraps_underView view x) (fun _ => rfl) fun _ _ => rfl

theorem stays_inFrame {names : List String} {x : Action σ α β} (h : k.Stays x)
    (pushes : Action.Pushes names x) : k.Stays (Action.inFrame x) :=
  h.wrap (Action.wraps_inFrame pushes.stack) (fun _ => rfl) fun _ _ => rfl

theorem stays_bindName (name : String) (binding : Binding α) (span : Span) :
    k.Stays (Action.bindName name binding span : Action σ α Unit) := by
  refine stays_iff.mpr fun s hs => ?_
  rw [Action.bindName_run]
  split
  · exact k.fails _ _ (k.taken span name) hs
  · exact hs

theorem stays_bindParams (params : List Param) (values : List (Value α)) :
    k.Stays (Action.bindParams params values : Action σ α Unit) := by
  induction params generalizing values with
  | nil => exact Leads.pure rfl
  | cons p params ih =>
    cases values with
    | nil => exact Leads.pure rfl
    | cons v values => exact (stays_bindName _ _ _).andThen fun _ => ih values

/-! ### Evaluation -/

def OfEnv (k : Course σ α) (env : Env Stop (Session σ α) α) : Prop :=
  Env.InStep (single fun e t => k.ends e t.backdrop) (Twice fun s => k.holds s.backdrop) True
    (fun _ => true) env env

theorem stays_failEval (span : Span) (cause : EvalCause) :
    k.Stays (Session.failEval span cause : Action σ α β) :=
  stays_fail (k.evaluation _)

theorem stays_lookup {body : Define α → Span → Action σ α (Value α)}
    (h : ∀ d span, k.Stays (body d span)) (name : String) (span : Span) :
    k.Stays ((Session.environment body).lookup name span) := by
  refine stays_of_state fun s _ => ?_
  split
  · exact stays_failEval span _
  · exact Leads.pure rfl
  · exact stays_underView _ (h _ span)
  · exact stays_failEval span _

theorem stays_call {body : Define α → Span → Action σ α (Value α)}
    (h : ∀ d span, k.Stays (body d span)) (keeps : ∀ d span, Action.Keeps (body d span))
    (name : String) (args : List (Value α)) (span : Span) :
    k.Stays ((Session.environment body).call name args span) := by
  refine stays_of_state fun s _ => ?_
  simp only
  split
  case h_1 slot d _ =>
    split
    · exact stays_failEval span _
    · split
      · exact stays_failEval span _
      · refine stays_inFrame ((stays_bindParams d.params args).andThen fun _ => ?_)
          (Action.pushes_calling d.params args _ (keeps d span))
        refine stays_of_state fun t _ => ?_
        exact (stays_underView _ (h d span)).andThen fun v => Leads.pure rfl
  case h_2 => exact Leads.pure rfl

theorem environment {body : Define α → Span → Action σ α (Value α)}
    (h : ∀ d span, k.Stays (body d span)) (keeps : ∀ d span, Action.Keeps (body d span)) :
    k.OfEnv (Session.environment body) where
  lookup name span _ := stays_lookup h name span
  call name args span _ := stays_call h keeps name args span
  draw := by
    rintro - s _ ⟨rfl, holds⟩
    exact .some ⟨rfl, rfl, holds⟩
  raise := by
    rintro fault s _ ⟨rfl, holds⟩
    exact ⟨rfl, rfl, k.fails _ _ (k.evaluation fault) holds⟩

theorem environmentAt (k : Course σ α) (fuel : Nat) : k.OfEnv (Session.environmentAt fuel) := by
  induction fuel with
  | zero => exact environment (fun _ _ => stays_fail k.fuel) fun _ _ => Action.keeps_fail nofun
  | succ fuel ih =>
    exact environment (fun d span => ih.evalDefine d span (.inl trivial))
      fun d span => (Session.environmentAt_keeps fuel).evalDefine d span

/-! ### Statements without a body -/

variable {c : Context σ α}

theorem OfEnv.adjust (h : k.OfEnv c.env) (i : Instance α) (mods : Bundle α) :
    k.Stays (c.adjust i mods) :=
  Context.adjust_inStep h.free i mods (fun _ _ => trivial)

theorem OfEnv.loopRange (h : k.OfEnv c.env) (spec : LoopSpec α) : k.Stays (c.loopRange spec) := by
  unfold Context.loopRange
  split
  · exact Leads.pure rfl
  · refine Leads.andThen (h.eval spec.range (.inl trivial)) fun v => ?_
    cases result : LoopRange.ofValue v with
    | ok range => exact Leads.pure rfl
    | error p => exact stays_fail (k.range _ v p result)

theorem OfEnv.keptValue (h : k.OfEnv c.env) (place : Address) (d : Define α) (span : Span) :
    k.Stays (c.keptValue place d span) := by
  refine stays_of_state fun s _ => ?_
  split
  · exact Leads.pure rfl
  · refine Leads.andThen (h.evalDefine d span (.inl trivial)) fun v => ?_
    exact Stays.andThen (stays_update fun _ => rfl) fun _ => Leads.pure rfl

theorem OfEnv.define (h : k.OfEnv c.env) (head : Head α) (d : Define α) :
    k.Stays (c.define head d) := by
  unfold Context.define
  split
  · exact stays_bindName _ _ _
  · split
    · simp only
      split
      · exact (h.keptValue _ d head.span).andThen fun v => stays_bindName _ _ _
      · exact Leads.andThen (h.evalDefine d head.span (.inl trivial)) fun v => stays_bindName _ _ _
    · exact stays_bindName _ _ _

/-! ### Statements with bodies -/

theorem stays_runAll {statements : List (Statement α)} {parent : Instance α} {follows : Bool}
    (hs : ∀ st ∈ statements, k.Stays (c.run st parent follows)) :
    k.Stays (c.runAll statements parent follows) :=
  Context.runAll_inStep hs

/-- Nothing but an abort is out of the way, and an open path may be drawn on. -/
structure Pliant (k : Course σ α) : Prop where
  may : ∀ e, e ≠ .fault .aborted → k.may e
  extend : ∀ b p q, k.holds b → b.building = some p → p.Extends q →
    k.holds { b with building := some q }

theorem Pliant.may_broken (h : k.Pliant) (what : Broken) : k.may (.fault (.broken what)) :=
  h.may _ nofun

theorem Pliant.stays_checkSlots (h : k.Pliant) (declared : Nat) :
    k.Stays (checkSlots declared : Action σ α Unit) := by
  refine stays_of_state fun s _ => ?_
  simp only
  split
  · exact stays_fail (h.may_broken _)
  · exact Leads.pure rfl

theorem Pliant.stays_buildWith (h : k.Pliant) (what : String)
    {f : Path.Compiled α → Except Broken (Path.Compiled α)}
    (hf : ∀ p q, f p = .ok q → p.Extends q) :
    k.Stays (Context.buildWith what f : Action σ α Unit) := by
  refine stays_iff.mpr fun s hs => ?_
  simp only [Context.buildWith]
  split
  · exact k.fails _ _ (h.may_broken _) hs
  case h_2 p building =>
    split
    case h_1 q built => exact h.extend _ p q hs building (hf p q built)
    case h_2 => exact k.fails _ _ (h.may_broken _) hs

theorem Pliant.enterBody_of (h : k.Pliant) (keeps : c.Keeps) {b : Body α}
    (hs : ∀ st ∈ b.statements, ∀ parent follows, k.Stays (c.run st parent follows))
    (parent : Instance α) (follows : Bool) (seed : List (Value α)) :
    k.Stays (c.enterBody b parent follows seed) := by
  obtain ⟨statements, params, slots⟩ := b
  rw [Context.enterBody]
  split
  · exact stays_fail (h.may_broken _)
  · have statement : k.Stays (c.runAll statements parent follows) :=
      stays_runAll fun st hst => hs st hst parent follows
    have pushes := (Action.pushes_bindParams params seed).bind fun _ =>
      (keeps.runAll statements parent follows).bindKeeps fun _ =>
        keeps_checkSlots (σ := σ) (α := α) slots
    exact stays_inFrame ((stays_bindParams params seed).andThen fun _ =>
      statement.andThen fun _ => h.stays_checkSlots slots) pushes

/-- A statement stays on the course if its replacements do, or if it has none. -/
theorem Pliant.run (h : k.Pliant) (env : k.OfEnv c.env) (keeps : c.Keeps) (st : Statement α)
    (draws : (∀ head parent, k.Stays (c.replace head parent)) ∨ st.yield.Suits true) :
    ∀ parent follows, k.Stays (c.run st parent follows) := by
  -- The induction carries bodies along: a body that yields no replacement has none
  -- in its statements.
  induction st using Statement.induct (P := fun b =>
    (∀ head parent, k.Stays (c.replace head parent)) ∨ b.yield.Suits true →
      ∀ parent follows seed, k.Stays (c.enterBody b parent follows seed)) with
  | body b hs draws parent follows seed =>
    refine h.enterBody_of keeps (fun st hst => hs st hst (draws.imp_right fun none => ?_))
      parent follows seed
    obtain ⟨statements, params, slots⟩ := b
    rw [Body.yield] at none
    exact Statement.suits_of_mem none hst
  | replace head =>
    intro parent follows
    rw [Context.run]
    rcases draws with draws | none
    · exact draws head parent
    · have target : head.target = .none := by
        by_contra drawn
        simp [Statement.yield, drawn, Yield.Suits] at none
      rw [Context.replace, target]
      exact Leads.pure rfl
  | loop head spec body last hbody hlast =>
    intro parent follows
    rw [Context.run]
    rw [Statement.yield, Yield.suits_join] at draws
    exact Context.loop_inStep env.free _ (fun _ _ => trivial) _ (env.loopRange _) parent follows rfl
      (fun i follows x => hbody (draws.imp_right And.left) i follows _)
      fun i follows x => hlast (draws.imp_right And.right) i follows _
  | transform head spec body hbody =>
    intro parent follows
    rw [Context.run]
    rw [Statement.yield] at draws
    refine Context.transform_inStep env.free ?_ _ (fun _ _ => trivial) _ (fun _ _ _ _ => trivial)
      parent follows rfl fun i follows => hbody draws i follows []
    rintro s _ t _ ⟨rfl, holds⟩ ⟨rfl, -⟩
    exact ⟨rfl, holds⟩
  | branch head cond thenBody elseBody hthen helse =>
    intro parent follows
    rw [Context.run]
    rw [Statement.yield, Yield.suits_join] at draws
    exact Context.branch_inStep env.free _ (fun _ _ => trivial) parent follows []
      (hthen (draws.imp_right And.left) parent follows [])
      (helse (draws.imp_right And.right) parent follows [])
  | switch head selector keys bodies default hbodies hdefault =>
    intro parent follows
    rw [Context.run]
    rw [Statement.yield, Yield.suits_join] at draws
    refine Leads.andThen (Context.selectKey_inStep env.free _ (fun _ _ => trivial)) fun key => ?_
    refine Context.switch_inStep _ _ _ key parent follows fun b hb => ?_
    rcases hb with rfl | hb
    · exact hdefault (draws.imp_right And.right) parent follows []
    · exact hbodies b hb (draws.imp_right fun none => Body.suits_of_mem none.1 hb) parent follows []
  | define head d =>
    intro parent follows
    rw [Context.run]
    exact env.define head d
  | op head o =>
    intro parent follows
    rw [Context.run]
    exact Context.op_inStep o (Context.opArgs_inStep env.free rfl o fun _ _ => trivial) parent
      follows rfl fun args m => h.stays_buildWith _ fun p q built => .append built
  | command head spec =>
    intro parent follows
    rw [Context.run]
    exact Context.command_inStep env.free head (fun _ _ => trivial) spec (fun _ _ => trivial)
      fun command => h.stays_buildWith _ fun p q built => .command built

theorem Pliant.enterBody (h : k.Pliant) (env : k.OfEnv c.env) (keeps : c.Keeps) {b : Body α}
    (draws : (∀ head parent, k.Stays (c.replace head parent)) ∨ b.yield.Suits true)
    (parent : Instance α) (follows : Bool) (seed : List (Value α)) :
    k.Stays (c.enterBody b parent follows seed) := by
  refine h.enterBody_of keeps (fun st hst => h.run env keeps st ?_) parent follows seed
  refine draws.imp_right fun none => ?_
  obtain ⟨statements, params, slots⟩ := b
  rw [Body.yield] at none
  exact Statement.suits_of_mem none hst

/-! ### Rules -/

/-- The rule that is taken is one of the shape's. -/
theorem gives_selectRule (shape : Shape α)
    (empty : shape.rules = [] → k.may (.fault (.grammar ⟨.none, .shapeWithoutRules shape.name⟩)))
    (missed : ∀ draw, (shape.pick draw).bind (fun j => shape.rules[j]?) = none →
      k.may (.fault (.broken (.noRuleSelected shape.name)))) :
    k.Gives (fun rule => ∃ j : Nat, shape.rules[j]? = some rule) (Context.selectRule shape) := by
  unfold Context.selectRule
  split
  case h_1 none => exact gives_fail (empty none)
  case h_2 only single => exact Leads.pure ⟨rfl, 0, by rw [single]; rfl⟩
  · refine Leads.bind Leads.state ?_
    rintro s _ ⟨rfl, -⟩
    refine Leads.andThen (stays_update fun _ => rfl) fun _ => ?_
    split
    case h_1 rule found =>
      obtain ⟨j, -, hj⟩ := Option.bind_eq_some_iff.mp found
      exact Leads.pure ⟨rfl, j, hj⟩
    case h_2 none => exact gives_fail (missed _ none)

theorem Pliant.gives_selectRule (h : k.Pliant) (shape : Shape α) :
    k.Gives (fun rule => ∃ j : Nat, shape.rules[j]? = some rule) (Context.selectRule shape) :=
  Course.gives_selectRule shape (fun _ => h.may _ nofun) fun _ _ => h.may_broken _

/-- While a path is open, the session is on another course. -/
structure Builds (k inner : Course σ α) : Prop where
  enter : ∀ b p, k.holds b → b.building = none → p.complete = false →
    inner.holds { b with building := some p }
  nested : ∀ b, k.holds b → b.building ≠ none → k.ends (.fault (.broken .nestedPath)) b
  leave : ∀ b, inner.holds b → k.holds { b with building := none, nextUid := b.nextUid + 1 }
  fails : ∀ e b, inner.ends e b → k.ends e { b with building := none }

/-- Nothing but an abort is out of the way, and it does not matter whether a path
is open, nor which identity is next. -/
structure Free (k : Course σ α) : Prop where
  may : ∀ e, e ≠ .fault .aborted → k.may e
  building : ∀ b building, k.holds b → k.holds { b with building := building }
  nextUid : ∀ b next, k.holds b → k.holds { b with nextUid := next }
  failing : ∀ e b building, k.ends e b → k.ends e { b with building := building }

theorem Free.pliant (free : k.Free) : k.Pliant where
  may := free.may
  extend b _ q holds _ _ := free.building b (some q) holds

theorem Free.builds (free : k.Free) : k.Builds k where
  enter b p holds _ _ := free.building b (some p) holds
  nested _ holds _ := k.fails _ _ (free.pliant.may_broken _) holds
  leave _ holds := free.nextUid _ _ (free.building _ none holds)
  fails e b := free.failing e b none

/-- A path that is built is as a finished path always is. -/
theorem Builds.buildPath {inner : Course σ α} (h : k.Builds inner) {K : Path.Compiled α → Prop}
    (finished : ∀ (p : Path.Compiled α) uid, p.complete = false →
      K { p.sealed with uid := some uid })
    (rule : Rule α) {body : Entering σ α} {params : List (Value α)}
    (keeps : Action.Keeps (body (.root rule.shape) false params))
    (stays : inner.Stays (body (.root rule.shape) false params)) :
    k.Gives K (Context.buildPath rule body params) := by
  rintro s _ ⟨rfl, holds⟩
  cases building : s.building with
  | some p =>
    rw [Context.buildPath_nested rule body params (by simp [building])]
    exact .together ⟨rfl, rfl, h.nested _ holds (by simp [Session.backdrop, building])⟩
  | none =>
    have ends := stays_iff.mp stays s.opening (h.enter _ _ holds building rfl)
    cases hb : (body (.root rule.shape) false params).run s.opening with
    | ok u t =>
      obtain ⟨p, -, -, -, incomplete, run⟩ := Context.buildPath_ok rule keeps building hb
      rw [hb] at ends
      rw [run]
      exact .ok ⟨rfl, finished p _ incomplete⟩ ⟨rfl, h.leave _ ends⟩
    | failed e t =>
      rw [hb] at ends
      rw [Context.buildPath_failed rule building hb]
      exact .together ⟨rfl, rfl, h.fails e _ ends⟩

/-- Paths that are kept are like those that are built. -/
theorem gives_keptPath {K : Path.Compiled α → Prop}
    (kept : ∀ b place p, k.holds b → b.paths.lookup place = some p → K p)
    (keep : ∀ b place p, k.holds b → K p → k.holds { b with paths := (place, p) :: b.paths })
    (rule : Rule α) {body : Entering σ α} {params : List (Value α)}
    (build : k.Gives K (Context.buildPath rule body params)) :
    k.Gives K (c.keptPath rule body params) := by
  unfold Context.keptPath
  split
  · exact build
  case h_2 place _ =>
    refine Leads.bind Leads.state ?_
    rintro s _ ⟨rfl, holds⟩
    split
    case h_1 p found => exact Leads.pure ⟨rfl, kept _ place p holds found⟩
    case h_2 =>
      refine Leads.bind build ?_
      rintro p _ ⟨rfl, hp⟩
      refine Leads.andThen (stays_iff.mpr fun t ht => keep _ place p ht hp) fun _ => ?_
      exact Leads.pure ⟨rfl, hp⟩

end Course

end ShapeGrammar
