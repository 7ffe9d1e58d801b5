import ShapeGrammar.Proofs.Course
import ShapeGrammar.Proofs.Fitness
import ShapeGrammar.Proofs.Legacy

/-!
# No invariant is ever found broken

A grammar that was loaded runs without an internal error. A fault in the
arguments, the target or the rules of a reference can only be that of the start
shape: every other reference was checked at the load.
-/

set_option autoImplicit false

namespace ShapeGrammar

open Attempt

variable {σ α β γ : Type}

/-! ### Stops that may happen -/

def Code.isReference : Code → Bool
  | .argumentCount => true
  | .unresolvedShape => true
  | .noRules => true
  | _ => false

/-- A stop that is no fault of the engine, nor of a reference to a shape. -/
def Stop.Allowed : Stop → Prop
  | .fault (.broken _) => False
  | .fault (.grammar diagnostic) => diagnostic.code.isReference = false
  | _ => True

def Store.Named (store : Store α) : Prop :=
  ∀ place p, store.paths.lookup place = some p → p.uid.isSome = true

structure Backdrop.Ready (inPath : Bool) (b : Backdrop σ α) : Prop where
  named : ∀ place p, b.paths.lookup place = some p → p.uid.isSome = true
  building : if inPath then ∃ p, b.building = some p ∧ p.complete = false else b.building = none

abbrev Session.Ready (inPath : Bool) (s : Session σ α) : Prop := s.backdrop.Ready inPath

theorem Statement.length_bound (statements : List (Statement α)) :
    (statements.flatMap Statement.bound).length = statements.countP Statement.isDefine := by
  induction statements with
  | nil => rfl
  | cons st rest ih =>
    rw [List.flatMap_cons, List.length_append, ih, List.countP_cons]
    cases st <;> simp [Statement.bound, Statement.isDefine, Nat.add_comm]

/-- One entry pushes the slots that were counted. -/
theorem Body.length_pushed (params : List Param) (values : List (Value α))
    (statements : List (Statement α)) (h : values.length = params.length) :
    ((params.take values.length).map Param.name ++
      statements.flatMap Statement.bound).length = Body.countSlots params statements := by
  rw [List.length_append, List.length_map, List.length_take, h, Nat.min_self,
    Statement.length_bound]
  rfl

theorem LoopRange.code_of_error [Scalar α] {v : Value α} {p : Problem} (h : ofValue v = .error p) :
    p.code = .loopRange := by
  unfold ofValue at h
  split at h
  · cases h
    rfl
  case h_2 xs _ =>
    cases hx : ofNumbers xs with
    | error q =>
      rw [hx] at h
      cases h
      unfold ofNumbers at hx
      split at hx <;> cases hx
      rfl
    | ok r =>
      rw [hx] at h
      change r.check = .error p at h
      unfold check at h
      split at h
      · cases h
        rfl
      · split at h <;> cases h
        rfl

variable [Scalar α] {inPath : Bool}

def Course.sound (inPath : Bool) : Course σ α where
  holds := Backdrop.Ready inPath
  ends e b := e.Allowed ∧ ∀ place p, b.paths.lookup place = some p → p.uid.isSome = true
  may := Stop.Allowed
  fails _ _ allowed ready := ⟨allowed, ready.named⟩
  fuel := trivial
  evaluation _ := trivial
  taken _ _ := rfl
  range span v p h := by
    have code : (⟨span, p⟩ : Diagnostic).code = .loopRange := LoopRange.code_of_error h
    simp [Stop.Allowed, code, Code.isReference]

namespace Action

/-- From a session that is ready the action comes to one that is ready, or fails
in a way that may happen. -/
abbrev Safe (inPath : Bool) (x : Action σ α β) : Prop := (Course.sound inPath).Stays x

theorem safe_iff {x : Action σ α β} : Safe inPath x ↔ ∀ s, s.Ready inPath →
    (x.run s).Ends (Session.Ready inPath) fun e t => e.Allowed ∧ t.store.Named :=
  leads_single_iff

theorem safe_fail {e : Stop} (h : e.Allowed) : Safe inPath (Attempt.fail e : Action σ α β) :=
  Course.stays_fail h

theorem safe_update {f : Session σ α → Session σ α}
    (h : ∀ s, s.Ready inPath → (f s).Ready inPath) : Safe inPath (Attempt.update f) :=
  safe_iff.mpr h

theorem safe_deeper {x : Action σ α β} (h : Safe inPath x) : Safe inPath (deeper x) := by
  refine safe_iff.mpr fun s hs => ?_
  rw [wraps_deeper x s]
  have ends := safe_iff.mp h { s with depth := s.depth + 1 } ⟨hs.named, hs.building⟩
  exact ends.mapState (fun _ ht => ⟨ht.named, ht.building⟩) fun _ _ => id

/-- In a frame that has just begun, exactly the slots pushed are found. -/
theorem safe_checked {x : Action σ α Unit} (h : Safe inPath x) {names : List String}
    (pushes : Pushes names x) {β : Type} (next : Nat → Action σ α β)
    {s : Session σ α} (hs : s.Ready inPath) {Q : Session σ α → Prop}
    {F : Stop → Session σ α → Prop} (failed : ∀ e t, e.Allowed ∧ t.store.Named → F e t)
    (hnext : ∀ t, t.Ready inPath → ((next names.length).run t).Ends Q F) :
    ((do
      x
      let t ← Attempt.state
      next t.stack.frameSize).run { s with stack := s.stack.pushFrame }).Ends Q F := by
  have ready : Session.Ready inPath { s with stack := s.stack.pushFrame } :=
    ⟨hs.named, hs.building⟩
  have ends := safe_iff.mp h _ ready
  have grown := pushes { s with stack := s.stack.pushFrame }
  simp only [run_bind, run_state]
  generalize x.run { s with stack := s.stack.pushFrame } = o at ends grown ⊢
  cases o with
  | failed e t => exact failed e t ends
  | ok b t =>
    obtain ⟨extra, rfl, control⟩ := grown
    have stack : t.stack = s.stack.pushFrame.extend extra := congrArg Control.stack control
    have size : t.stack.frameSize = (extra.map Slot.name).length := by
      rw [stack]
      simp [Stack.frameSize, Stack.extend, Stack.pushFrame, Stack.height, Stack.frameStart]
    simp only [size]
    exact hnext t ends

end Action

/-! ### What touches the renderer or a path -/

theorem Context.safe_consult (c : Context σ α) (i : Instance α) :
    Action.Safe inPath (c.consult i) := by
  refine Action.safe_iff.mpr fun s hs => ?_
  simp only [consult]
  split
  · exact ⟨hs.named, hs.building⟩
  · exact ⟨hs.named, hs.building⟩
  · exact ⟨trivial, hs.named⟩

theorem Context.safe_buildWith (what : String)
    {f : Path.Compiled α → Except Broken (Path.Compiled α)}
    (hf : ∀ p, p.complete = false → ∃ q, f p = .ok q ∧ q.complete = false) :
    Action.Safe true (buildWith what f : Action σ α Unit) := by
  refine Action.safe_iff.mpr fun s hs => ?_
  obtain ⟨p, building, incomplete⟩ := hs.building
  have building : s.building = some p := building
  obtain ⟨q, built, incomplete'⟩ := hf p incomplete
  simp only [buildWith, building, built]
  exact ⟨hs.named, q, rfl, incomplete'⟩

theorem Context.safe_addCommand (what : String) (command : Path.Command α) :
    Action.Safe true (Context.buildWith what fun p => p.addCommand command : Action σ α Unit) := by
  refine Context.safe_buildWith what fun p incomplete => ?_
  simp [Path.Compiled.addCommand, incomplete]

/-! ### Statements -/

theorem Shape.pick_valid {shape : Shape α} (rules : shape.rules ≠ [])
    (sums : shape.cumulative.length = shape.rules.length) (draw : α) :
    ∃ j, shape.pick draw = some j ∧ ∃ rule, shape.rules[j]? = some rule := by
  have positive : 0 < shape.rules.length := List.length_pos_iff.mpr rules
  have some_of_lt : ∀ j, j < shape.rules.length → ∃ rule, shape.rules[j]? = some rule :=
    fun j hj => ⟨_, List.getElem?_eq_getElem hj⟩
  unfold pick
  rw [if_neg (by simpa using rules)]
  refine ⟨_, rfl, some_of_lt _ ?_⟩
  cases found : shape.cumulative.findIdx? fun sum => draw < sum with
  | none => exact Nat.sub_lt positive Nat.one_pos
  | some j =>
    have low := (List.findIdx?_eq_some_iff_findIdx_eq.mp found).1
    exact sums ▸ low

def Instance.Expandable (g : Grammar α) (i : Instance α) : Prop :=
  ∃ index shape, i.shape = some index ∧ g.shapes[index]? = some shape ∧
    shape.Takes i.params.length

structure Context.Safe (c : Context σ α) (g : Grammar α) : Prop where
  grammar : c.grammar = g
  keeps : c.Keeps
  env : ∀ inPath, (Course.sound inPath).OfEnv c.env
  expand : ∀ i, i.Expandable g → Action.Safe false (c.expand i)

namespace Context

variable {c : Context σ α} {g : Grammar α}

theorem Safe.replace (h : c.Safe g) {head : Head α} (outside : head.target ≠ .none → inPath = false)
    (resolves : head.Resolves g.shapes) (parent : Instance α) :
    Action.Safe inPath (c.replace head parent) := by
  unfold Context.replace
  split
  · exact Leads.pure rfl
  case h_2 p target =>
    refine ((h.env _).adjust parent head.mods).andThen fun child => ?_
    refine (safe_consult c _).andThen fun drawn => ?_
    split
    · exact Action.safe_update fun s hs => ⟨hs.named, hs.building⟩
    · exact Leads.pure rfl
  case h_3 index target =>
    obtain ⟨shape, found, length, rules⟩ := resolves index target
    have here : inPath = false := outside (by simp [target])
    subst here
    simp only [h.grammar, found]
    refine ((h.env _).adjust parent head.mods).andThen fun child => ?_
    rw [if_neg (not_not_intro length.symm)]
    refine Leads.bind (bindArgs_inStep (h.env false).free shape.params head.args
      (fun _ _ _ _ => trivial) length.symm) ?_
    rintro values _ ⟨rfl, hvalues⟩
    exact h.expand _ ⟨index, shape, rfl, found, hvalues.symm, rules⟩

theorem safe_append (what : String) (op : Path.Operator) (flags : Path.Flags) (isCubic : Bool)
    (args : Path.Args α) (m : Affine α) : Action.Safe true
      (buildWith what fun p => p.append op flags isCubic args m : Action σ α Unit) := by
  refine safe_buildWith what fun p incomplete => ?_
  cases group : p.inGroup <;>
    simp [Path.Compiled.append, Path.Compiled.ready, Except.map, incomplete, group]

theorem Safe.enterBody_of (h : c.Safe g) {b : Body α} {n : Nat} (counts : b.Counts n)
    (hs : ∀ st ∈ b.statements, ∀ parent follows, Action.Safe inPath (c.run st parent follows))
    (parent : Instance α) (follows : Bool) {seed : List (Value α)} (length : seed.length = n) :
    Action.Safe inPath (c.enterBody b parent follows seed) := by
  obtain ⟨statements, params, slots⟩ := b
  obtain ⟨rfl, counted⟩ := counts
  have counted : slots = Body.countSlots params statements := counted
  rw [Context.enterBody, if_neg (not_not_intro length)]
  have pushes := (Action.pushes_bindParams params seed).bind fun _ =>
    h.keeps.runAll statements parent follows
  have safe : Action.Safe inPath (Action.bindParams params seed >>= fun _ =>
      c.runAll statements parent follows) :=
    (Course.stays_bindParams params seed).andThen fun _ =>
      Course.stays_runAll fun st hst => hs st hst parent follows
  rw [← bind_assoc]
  have wraps := Action.wraps_inFrame
    (pushes.bindKeeps fun _ => keeps_checkSlots (σ := σ) (α := α) slots).stack
  refine Action.safe_iff.mpr fun s ready => ?_
  rw [wraps s]
  refine Outcome.Ends.mapState (Q := Session.Ready inPath) (Action.safe_checked safe pushes
    (fun pushed => if pushed ≠ slots then Action.broken (.slotCount pushed slots) else pure ())
    ready (fun _ _ => id) fun t ht => ?_) (fun _ ht => ⟨ht.named, ht.building⟩) fun _ _ => id
  rw [Body.length_pushed params seed statements length, if_neg (not_not_intro counted.symm)]
  exact ht

/-- What is fit to be run is safe to run. -/
theorem Safe.run (h : c.Safe g) {st : Statement α} (fit : st.Fit g.shapes inPath) :
    ∀ parent follows, Action.Safe inPath (c.run st parent follows) := by
  have env := h.env inPath
  -- The induction is on what makes the statement fit, which says of each body inside what
  -- it takes and whether it is in a path.
  induction fit with
  | replace outside resolves =>
    intro parent follows
    rw [Context.run]
    exact h.replace outside resolves parent
  | loop counts _ counts' _ hbody hlast =>
    intro parent follows
    rw [Context.run]
    exact loop_inStep env.free _ (fun _ _ => trivial) _ (env.loopRange _) parent follows rfl
      (fun i follows x => h.enterBody_of counts hbody i follows rfl)
      fun i follows x => h.enterBody_of counts' hlast i follows rfl
  | transform counts _ hbody =>
    intro parent follows
    rw [Context.run]
    refine transform_inStep env.free ?_ _ (fun _ _ => trivial) _ (fun _ _ _ _ => trivial) parent
      follows rfl
      fun i follows => h.enterBody_of counts hbody i follows rfl
    rintro s _ t _ ⟨rfl, ready⟩ ⟨rfl, -⟩
    exact ⟨rfl, ready.named, ready.building⟩
  | branch counts _ counts' _ hthen helse =>
    intro parent follows
    rw [Context.run]
    exact branch_inStep env.free _ (fun _ _ => trivial) parent follows []
      (h.enterBody_of counts hthen parent follows rfl)
      (h.enterBody_of counts' helse parent follows rfl)
  | switch counts _ counts' _ hbodies hdefault =>
    intro parent follows
    rw [Context.run]
    refine Leads.andThen (selectKey_inStep env.free _ (fun _ _ => trivial)) fun key => ?_
    refine switch_inStep _ _ _ key parent follows fun b hb => ?_
    rcases hb with rfl | hb
    · exact h.enterBody_of counts' hdefault parent follows rfl
    · exact h.enterBody_of (counts b hb) (hbodies b hb) parent follows rfl
  | define head d =>
    intro parent follows
    rw [Context.run]
    exact env.define head d
  | op head o inside =>
    intro parent follows
    subst inside
    rw [Context.run]
    exact op_inStep o (opArgs_inStep env.free rfl o fun _ _ => trivial) parent follows rfl
      fun args m => safe_append _ _ _ _ args m
  | command head spec inside =>
    intro parent follows
    subst inside
    rw [Context.run]
    exact command_inStep env.free head (fun _ _ => trivial) spec (fun _ _ => trivial) fun command =>
      safe_addCommand _ command

theorem Safe.enterBody (h : c.Safe g) {b : Body α} {n : Nat} (counts : b.Counts n)
    (fit : ∀ st ∈ b.statements, st.Fit g.shapes inPath) (parent : Instance α) (follows : Bool)
    {seed : List (Value α)} (length : seed.length = n) :
    Action.Safe inPath (c.enterBody b parent follows seed) :=
  h.enterBody_of counts (fun st hst => h.run (fit st hst)) parent follows length

/-! ### Rules -/

/-- The draw always falls on one of the rules. -/
theorem safe_selectRule {shape : Shape α} (rules : shape.rules ≠ [])
    (sums : shape.cumulative.length = shape.rules.length) :
    (Course.sound inPath).Gives (fun rule => ∃ j : Nat, shape.rules[j]? = some rule)
      (selectRule shape : Action σ α (Rule α)) := by
  refine Course.gives_selectRule shape (fun none => absurd none rules) fun draw missing => ?_
  obtain ⟨j, hj, rule, hrule⟩ := shape.pick_valid rules sums draw
  simp [hj, hrule] at missing

theorem builds_sound : (Course.sound false : Course σ α).Builds (Course.sound true) where
  enter _ p ready _ incomplete := ⟨ready.named, p, rfl, incomplete⟩
  nested _ ready building := absurd ready.building building
  leave _ ready := ⟨ready.named, rfl⟩
  fails _ _ := id

theorem Safe.keptPath (h : c.Safe g) {rule : Rule α} {n : Nat} (counts : rule.body.Counts n)
    (fit : ∀ st ∈ rule.body.statements, st.Fit g.shapes true) {params : List (Value α)}
    (length : params.length = n) :
    (Course.sound false).Gives (fun p => p.uid.isSome = true)
      (c.keptPath rule (c.enterBody rule.body) params) := by
  have build := builds_sound.buildPath (K := fun p => p.uid.isSome = true) (fun _ _ _ => rfl) rule
    (h.keeps.enterBody rule.body (.root rule.shape) false params)
    (h.enterBody counts fit (.root rule.shape) false length)
  refine Course.gives_keptPath (k := Course.sound false) ?_ ?_ rule build
  · exact fun b place p ready => ready.named place p
  · exact fun b place p ready uid => ⟨Path.Compiled.kept_cons ready.named uid, ready.building⟩

theorem Safe.rule (h : c.Safe g) {shape : Shape α} {rule : Rule α} {i : Instance α}
    (counts : rule.body.Counts i.params.length)
    (fit : ∀ st ∈ rule.body.statements, st.Fit g.shapes shape.isPath) :
    Action.Safe false (c.rule shape rule (c.enterBody rule.body) i) := by
  refine Course.stays_of_state fun s _ => Course.stays_underView _ ?_
  cases path : shape.isPath with
  | true =>
    rw [path] at fit
    refine Leads.bind (h.keptPath counts fit rfl) ?_
    rintro p _ ⟨rfl, uid⟩
    obtain ⟨uid, hu⟩ := Option.isSome_iff_exists.mp uid
    simp only [Path.Compiled.identity, hu, drawCommands_eq]
    exact Action.safe_update fun t ht => ⟨ht.named, ht.building⟩
  | false =>
    rw [path] at fit
    exact h.enterBody counts fit i true rfl

end Context

/-! ### Loaded grammars -/

/-- What the checks on the start shape itself may find. -/
inductive Grammar.StartFault (g : Grammar α) (start : Nat) : Diagnostic → Prop
  | missing (h : g.shapes[start]? = none) : StartFault g start ⟨.none, .noSuchShape start⟩
  | arguments {shape : Shape α} (found : g.shapes[start]? = some shape)
      (takes : shape.params.length ≠ 0) :
      StartFault g start ⟨.none, .startArguments shape.name shape.params.length⟩
  | rules {shape : Shape α} (found : g.shapes[start]? = some shape) (none : shape.rules = []) :
      StartFault g start ⟨.none, .shapeWithoutRules shape.name⟩

def Stop.AllowedFrom (g : Grammar α) (start : Nat) (e : Stop) : Prop :=
  e.Allowed ∨ ∃ diagnostic, e = .fault (.grammar diagnostic) ∧ g.StartFault start diagnostic

theorem Context.selectRule_nil {shape : Shape α} (rules : shape.rules = [])
    (f : Rule α → Action σ α Unit) (s : Session σ α) :
    (Action.deeper (selectRule shape >>= f)).run s =
      .failed (.fault (.grammar ⟨.none, .shapeWithoutRules shape.name⟩)) s := by
  simp [Action.deeper, selectRule, rules, Action.problem]

section Loaded

variable {d : Draft α} {g : Grammar α} (drafted : d.Drafted) (built : d.build = .ok g)
  (tidy : d.Tidy)

include drafted built tidy

theorem Context.Safe.expandShape {c : Context σ α} (h : c.Safe g) {i : Instance α}
    (hi : i.Expandable g) : Action.Safe false (c.expandShape i) := by
  obtain ⟨index, shape, hindex, found, length, rules⟩ := hi
  simp only [Context.expandShape, hindex, h.grammar, found]
  refine (Context.safe_consult c i).andThen fun drawn => ?_
  split
  · refine Action.safe_deeper (Leads.bind
      (Context.safe_selectRule rules (Draft.length_cumulative built found)) ?_)
    rintro rule _ ⟨rfl, j, hj⟩
    obtain ⟨b, of⟩ := Draft.build_rule drafted built found hj
    obtain ⟨counts, fit⟩ := of.fit built tidy
    exact h.rule (length ▸ counts) fit
  · exact Leads.pure rfl

theorem Setting.expand_safe (r : Renderer σ α) (options : Options) (fuel : Nat) :
    ∀ i, i.Expandable g → Action.Safe false ((standard g r options).expand fuel i) := by
  induction fuel with
  | zero => exact fun i _ => Action.safe_fail trivial
  | succ fuel ih =>
    have keeps : ∀ n, ((standard g r options).environment n).Keeps := Session.environmentAt_keeps
    exact fun i hi => Context.Safe.expandShape drafted built tidy
      ⟨rfl, ⟨keeps fuel, expand_keeps keeps fuel⟩,
        fun _ => (Course.sound _).environmentAt fuel, ih⟩ hi

/-- A start shape with rules is like any other, and one without is found out as
soon as it is expanded. -/
theorem Setting.expand_start (r : Renderer σ α) (options : Options) (fuel : Nat) {start : Nat}
    {shape : Shape α} (found : g.shapes[start]? = some shape) (takes : shape.params.length = 0)
    {s : Session σ α} (hs : s.Ready false) :
    (((standard g r options).expand fuel (.root start)).run s).Ends (Session.Ready false)
      fun e t => e.AllowedFrom g start ∧ t.store.Named := by
  by_cases rules : shape.rules = []
  · cases fuel with
    | zero => exact ⟨.inl trivial, hs.named⟩
    | succ fuel =>
      let c := (standard g r options).contextAt fuel ((standard g r options).expand fuel)
      have find : c.grammar.shapes[start]? = some shape := found
      have consulted := Action.safe_iff.mp (Context.safe_consult c (.root start)) s hs
      change ((c.expandShape (.root start)).run s).Ends _ _
      simp only [Context.expandShape, Instance.root, find]
      refine ends_bind consulted (fun e t h => ⟨.inl h.1, h.2⟩) fun drawn t ht => ?_
      split
      · rw [Context.selectRule_nil rules]
        exact ⟨.inr ⟨_, rfl, .rules found rules⟩, ht.named⟩
      · exact ht
  · have ends := Action.safe_iff.mp (expand_safe drafted built tidy r options fuel (.root start)
      ⟨start, shape, rfl, found, takes, rules⟩) s hs
    exact ends.imp (fun _ => id) fun e t h => ⟨.inl h.1, h.2⟩

theorem Setting.run_safe (r : Renderer σ α) (options : Options) (fuel start : Nat)
    {s : Session σ α} (rest : s.AtRest) (named : s.store.Named) :
    (((standard g r options).run fuel start).run s).Ends (fun t => t.store.Named)
      fun e t => e.AllowedFrom g start ∧ t.store.Named := by
  have keeps : ∀ n, ((standard g r options).environment n).Keeps := Session.environmentAt_keeps
  let t := standard g r options
  let c := t.contextAt fuel (t.expand fuel)
  have safe : c.Safe g := ⟨rfl, ⟨keeps fuel, expand_keeps keeps fuel⟩,
    fun _ => (Course.sound _).environmentAt fuel, expand_safe drafted built tidy r options fuel⟩
  unfold Setting.run
  split
  case h_1 none => exact ⟨.inr ⟨_, rfl, .missing none⟩, named⟩
  case h_2 shape found =>
    split
    case isTrue takes => exact ⟨.inr ⟨_, rfl, .arguments found takes⟩, named⟩
    case isFalse takes =>
      have found : g.shapes[start]? = some shape := found
      have index := Draft.build_index drafted built found
      let ready : Session σ α := { s with random := t.startRandom shape.name, view := .full }
      have hready : ready.Ready false := ⟨named, rest.building⟩
      change ((Action.inFrame (t.runFrom fuel shape)).run ready).Ends _ _
      rw [Action.wraps_inFrame (runFrom_stack keeps fuel shape) ready]
      refine Outcome.Ends.mapState (Q := Session.Ready false) (F := fun e t =>
        e.AllowedFrom g start ∧ t.store.Named) ?_ (fun u hu => hu.named) fun _ _ => id
      have globals : Action.Safe false
          (c.runAll g.globals.statements (.root shape.index) true) := by
        refine Course.stays_runAll fun st hst => ?_
        obtain ⟨head, f, rfl⟩ := drafted.globals built st hst
        exact safe.run (.define head f) _ _
      refine Action.safe_checked globals (safe.keeps.runAll _ _ _)
        (fun size =>
          if size ≠ g.globals.slots then Action.broken .globalFrame
          else do
            Attempt.update fun s => { s with globalsEnd := s.stack.height }
            t.expand fuel (.root shape.index))
        hready (fun e u h => ⟨.inl h.1, h.2⟩) fun u hu => ?_
      have counted := Draft.globals_counted drafted built
      rw [Statement.length_bound, if_neg (not_not_intro counted.symm), index]
      exact expand_start drafted built tidy r options fuel found (Decidable.not_not.mp takes)
        ⟨hu.named, hu.building⟩

theorem Grammar.Left.named {store : Store α} (h : g.Left store) : store.Named := by
  induction h with
  | empty => exact nofun
  | session _ ih => exact ih
  | @run σ r options fuel start s t rest _ ends ih =>
    have safe := Setting.run_safe drafted built tidy r options fuel start rest ih
    rcases ends.of_ends safe with named | ⟨_, -, named⟩
    · exact named
    · exact named

end Loaded

/-- A run of a loaded grammar, on whatever store earlier runs have left, finds no
invariant broken, and finds fault with a reference to a shape only in the start
shape itself. -/
theorem Setting.run_finds_nothing_broken {d : Draft α} {g : Grammar α} (drafted : d.Drafted)
    (built : d.build = .ok g) (tidy : d.Tidy) (r : Renderer σ α) (options : Options)
    (fuel start : Nat) {s t : Session σ α} (rest : s.AtRest) (left : g.Left s.store) {f : Fault}
    (failed : ((standard g r options).run fuel start).run s = .failed (.fault f) t) :
    (∀ what, f ≠ .broken what) ∧
      ∀ diagnostic, f = .grammar diagnostic →
        diagnostic.code.text ∈ ["G003", "G004", "G008"] → g.StartFault start diagnostic := by
  have safe := run_safe drafted built tidy r options fuel start rest
    (left.named drafted built tidy)
  rw [failed] at safe
  obtain ⟨allowed | ⟨diagnostic, same, fault⟩, -⟩ := safe
  · refine ⟨fun what broken => ?_, fun diagnostic problem code => ?_⟩
    · subst broken
      exact allowed
    · subst problem
      have reference : ∀ code : Code, code.text ∈ ["G003", "G004", "G008"] →
          code.isReference = true := by
        intro code
        cases code <;> decide
      have allowed : diagnostic.code.isReference = false := allowed
      rw [reference _ code] at allowed
      cases allowed
  · cases same
    refine ⟨nofun, fun other same _ => ?_⟩
    cases same
    exact fault

theorem Sample.draft_tidy : draft.Tidy := by
  rintro b (_ | ⟨_, _ | ⟨_, ⟨⟩⟩⟩)
  · rintro st (_ | ⟨_, _ | ⟨_, _ | ⟨_, _ | ⟨_, _ | ⟨_, ⟨⟩⟩⟩⟩⟩⟩) <;> trivial
  · rintro st (_ | ⟨_, _ | ⟨_, _ | ⟨_, _ | ⟨_, _ | ⟨_, ⟨⟩⟩⟩⟩⟩⟩) <;> trivial

theorem Setting.run_finds_nothing_broken_sample :
    Sample.draft.Drafted ∧ Sample.draft.build = .ok Sample.grammar ∧ Sample.draft.Tidy ∧
      Sample.grammar.Left (Sample.session Sample.first.state.store).store ∧
      Sample.grammar.StartFault 2 ⟨.none, .noSuchShape 2⟩ := by
  have left : Sample.grammar.Left (Sample.session Sample.first.state.store).store :=
    .session Sample.first_left
  have failed : ((standard Sample.grammar Sample.renderer Sample.options).run 9 2).run
      (Sample.session Sample.first.state.store) =
        .failed (.fault (.grammar ⟨.none, .noSuchShape 2⟩))
          (Sample.session Sample.first.state.store) := rfl
  have sound := run_finds_nothing_broken Sample.draft_drafted Sample.draft_build
    Sample.draft_tidy Sample.renderer Sample.options 9 2 (Session.begin_atRest _ _ _) left failed
  exact ⟨Sample.draft_drafted, Sample.draft_build, Sample.draft_tidy, left,
    sound.2 _ rfl (by decide)⟩

end ShapeGrammar
