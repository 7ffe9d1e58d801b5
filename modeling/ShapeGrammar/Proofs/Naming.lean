import ShapeGrammar.Proofs.Distinct
import ShapeGrammar.Proofs.Safety
import ShapeGrammar.Proofs.Visible

/-!
# Names are bound once

A frame binds every name once. The names that a frame holds are those that the
statements before bound in it, so where a body binds its names apart no statement
finds its own taken. A call binds the parameters of its function in a frame of
its own. Only there can a name come twice.
-/

set_option autoImplicit false

namespace ShapeGrammar

open Attempt

variable {σ α β : Type}

/-! ### Binding -/

/-- A name was found taken, or would have been. -/
def Stop.Repeats : Stop → Prop
  | .fault (.grammar diagnostic) => diagnostic.code = .duplicateName
  | _ => False

/-- No other names than these are in the innermost frame, and the functions on the
stack name their parameters apart. -/
structure Stack.Binds (taken : List String) (s : Stack α) : Prop where
  start : s.frameStart ≤ s.height
  names : ∀ name ∈ s.frameNames, name ∈ taken
  functions : ∀ x ∈ s.slots, ∀ d, x.binding = .function d → (d.params.map Param.name).Nodup

theorem Stack.Binds.mono {taken more : List String} {s : Stack α} (h : s.Binds taken)
    (sub : taken ⊆ more) : s.Binds more :=
  { h with names := fun name hname => sub (h.names name hname) }

theorem Stack.Binds.pushFrame {taken : List String} {s : Stack α} (h : s.Binds taken) :
    s.pushFrame.Binds [] where
  start := s.frameStart_pushFrame
  names := by
    rw [frameNames_pushFrame]
    exact nofun
  functions := h.functions

theorem Stack.Binds.push {taken : List String} {s : Stack α} (h : s.Binds taken) {x : Slot α}
    (params : ∀ d, x.binding = .function d → (d.params.map Param.name).Nodup) :
    (s.extend [x]).Binds (x.name :: taken) where
  start := by
    rw [height_extend]
    exact Nat.le_trans h.start (Nat.le_add_right _ _)
  names := by
    rw [frameNames_push s h.start]
    intro name hname
    rcases List.mem_cons.mp hname with rfl | hname
    · exact List.mem_cons_self
    · exact List.mem_cons_of_mem _ (h.names name hname)
  functions := by
    intro y hy
    rcases Array.mem_append.mp hy with hy | hy
    · exact h.functions y hy
    · obtain rfl : y = x := by simpa using hy
      exact params

theorem Stack.mem_of_lookup {s : Stack α} {name : String} {view : View} {i : Nat}
    {binding : Binding α} (h : s.lookup name view = some (i, binding)) :
    ∃ x ∈ s.slots, x.binding = binding := by
  obtain ⟨j, -, h⟩ := Option.bind_eq_some_iff.mp h
  obtain ⟨x, found, h⟩ := Option.bind_eq_some_iff.mp h
  cases h
  exact ⟨x, Array.mem_of_getElem? found, rfl⟩

namespace Action

/-- Started in a frame with the `taken` names, the action finds no name taken and
leaves the frame with the `later` ones. -/
abbrev Once (taken later : List String) (x : Action σ α β) : Prop :=
  Leads (single fun e _ => ¬ e.Repeats) (Twice fun s => s.stack.Binds taken)
    (Twice fun s => s.stack.Binds later) Eq x x

variable {taken later : List String}

theorem once_iff {x : Action σ α β} : Once taken later x ↔ ∀ s, s.stack.Binds taken →
    (x.run s).Ends (fun t => t.stack.Binds later) fun e _ => ¬ e.Repeats :=
  leads_single_iff

theorem once_fail {e : Stop} (h : ¬ e.Repeats) :
    Once taken later (Attempt.fail e : Action σ α β) :=
  once_iff.mpr fun _ _ => h

theorem once_update {f : Session σ α → Session σ α} (h : ∀ s, (f s).stack = s.stack) :
    Once taken taken (Attempt.update f) :=
  once_iff.mpr fun s hs => show (f s).stack.Binds taken from (h s).symm ▸ hs

theorem Once.mono {x : Action σ α β} {more : List String} (h : Once taken later x)
    (sub : later ⊆ more) : Once taken more x :=
  h.weaken (.refl _) (fun _ _ => id) fun _ _ ht => ⟨ht.1, ht.2.mono sub⟩

theorem once_of_state {f : Session σ α → Action σ α β}
    (hf : ∀ s, s.stack.Binds taken → Once taken later (f s)) :
    Once taken later (Attempt.state >>= f) := by
  refine Leads.bind Leads.state ?_
  rintro s _ ⟨rfl, binds⟩
  exact hf s binds

/-- What is put in place and put back leaves the stack alone. -/
theorem Once.wrap {before : Session σ α → Session σ α}
    {after : Session σ α → Session σ α → Session σ α} {w x : Action σ α β}
    (h : Once taken later x) (hw : Wraps before after w x)
    (enter : ∀ s, (before s).stack = s.stack) (leave : ∀ s t, (after s t).stack = t.stack) :
    Once taken later w := by
  refine once_iff.mpr fun s hs => ?_
  rw [hw s]
  refine (once_iff.mp h _ ((enter s).symm ▸ hs)).mapState (fun t ht => ?_) fun _ _ => id
  exact (leave s t).symm ▸ ht

theorem once_deeper {x : Action σ α β} (h : Once taken later x) : Once taken later (deeper x) :=
  h.wrap (wraps_deeper x) (fun _ => rfl) fun _ _ => rfl

theorem once_underView (view : View) {x : Action σ α β} (h : Once taken later x) :
    Once taken later (underView view x) :=
  h.wrap (wraps_underView view x) (fun _ => rfl) fun _ _ => rfl

/-- A frame begins without names and leaves those around it as they were. -/
theorem once_inFrame (later : List String) {names : List String} {x : Action σ α β}
    (h : Once [] later x) (pushes : Pushes names x) : Once taken taken (inFrame x) := by
  refine once_iff.mpr fun s hs => ?_
  rw [wraps_inFrame pushes.stack s]
  exact (once_iff.mp h _ hs.pushFrame).mapState (fun t _ => hs) fun _ _ => id

theorem once_bindName {name : String} {binding : Binding α} (new : name ∉ taken)
    (params : ∀ d, binding = .function d → (d.params.map Param.name).Nodup) (span : Span) :
    Once taken (name :: taken) (bindName name binding span : Action σ α Unit) := by
  refine once_iff.mpr fun s hs => ?_
  have free : ¬ s.stack.isTaken name = true := fun found =>
    new (hs.names name ((s.stack.isTaken_iff name).mp found))
  rw [bindName_run, if_neg free]
  exact hs.push (x := ⟨name, binding⟩) params

theorem once_bindValue {name : String} (new : name ∉ taken) (v : Value α) (span : Span) :
    Once taken (name :: taken) (bindName name (.value v) span : Action σ α Unit) :=
  once_bindName new (by intro d same; cases same) span

theorem once_bindParams {params : List Param} (distinct : (params.map Param.name).Nodup)
    (new : ∀ name ∈ params.map Param.name, name ∉ taken) (values : List (Value α)) :
    Once taken (params.map Param.name ++ taken) (bindParams params values : Action σ α Unit) := by
  induction params generalizing values taken with
  | nil => exact Leads.pure rfl
  | cons p params ih =>
    rw [List.map_cons] at distinct new ⊢
    obtain ⟨hp, hparams⟩ := List.nodup_cons.mp distinct
    obtain ⟨newp, new⟩ := List.forall_mem_cons.mp new
    cases values with
    | nil => exact Once.mono (Leads.pure rfl) (List.subset_append_right _ _)
    | cons v values =>
      have rest : Once (p.name :: taken) (params.map Param.name ++ p.name :: taken)
          (bindParams params values : Action σ α Unit) := by
        refine ih hparams (fun name hname mem => ?_) values
        rcases List.mem_cons.mp mem with rfl | mem
        · exact hp hname
        · exact new name hname mem
      refine Leads.andThen (once_bindValue newp v p.span) fun _ => rest.mono ?_
      intro name hname
      simp only [List.mem_append, List.mem_cons] at hname ⊢
      tauto

end Action

variable {taken : List String}

theorem Context.once_consult (c : Context σ α) (i : Instance α) :
    Action.Once taken taken (c.consult i) := by
  refine Action.once_iff.mpr fun s hs => ?_
  simp only [consult]
  split
  · exact hs
  · exact hs
  · exact id

theorem Context.once_buildWith (what : String)
    (f : Path.Compiled α → Except Broken (Path.Compiled α)) :
    Action.Once taken taken (buildWith what f : Action σ α Unit) := by
  refine Action.once_iff.mpr fun s hs => ?_
  simp only [buildWith]
  split
  · exact id
  · split
    · exact hs
    · exact id

theorem once_checkSlots (declared : Nat) :
    Action.Once taken taken (checkSlots declared : Action σ α Unit) := by
  refine Action.once_of_state fun s _ => ?_
  simp only
  split
  · exact Action.once_fail id
  · exact Leads.pure rfl

/-! ### Evaluation -/

def Env.Once (taken : List String) (env : Env Stop (Session σ α) α) : Prop :=
  Env.InStep (single fun e _ => ¬ e.Repeats) (Twice fun s => s.stack.Binds taken) True
    (fun _ => true) env env

variable [Scalar α]

theorem Session.once_lookup {body : Define α → Span → Action σ α (Value α)}
    (h : ∀ d span, Action.Once taken taken (body d span)) (name : String) (span : Span) :
    Action.Once taken taken ((environment body).lookup name span) := by
  refine Action.once_of_state fun s _ => ?_
  split
  · exact Action.once_fail id
  · exact Leads.pure rfl
  · exact Action.once_underView _ (h _ span)
  · exact Action.once_fail id

/-- A call binds the parameters of the function in a frame of its own. -/
theorem Session.once_call {body : Define α → Span → Action σ α (Value α)}
    (h : ∀ taken d span, Action.Once taken taken (body d span))
    (keeps : ∀ d span, Action.Keeps (body d span)) (name : String) (args : List (Value α))
    (span : Span) : Action.Once taken taken ((environment body).call name args span) := by
  refine Action.once_of_state fun s binds => ?_
  simp only
  split
  case h_1 slot d found =>
    split
    · exact Action.once_fail id
    · split
      · exact Action.once_fail id
      · obtain ⟨x, mem, binding⟩ := Stack.mem_of_lookup found
        have bind := Action.once_bindParams (σ := σ) (binds.functions x mem d binding)
          (fun _ _ => List.not_mem_nil) args
        refine Action.once_inFrame (d.params.map Param.name ++ []) (Leads.andThen bind fun _ =>
          Action.once_of_state fun t _ => ?_) (Action.pushes_calling d.params args _ (keeps d span))
        exact Leads.andThen (Action.once_underView _ (h _ d span)) fun v => Leads.pure rfl
  case h_2 => exact Leads.pure rfl

theorem Session.once_environment {body : Define α → Span → Action σ α (Value α)}
    (h : ∀ taken d span, Action.Once taken taken (body d span))
    (keeps : ∀ d span, Action.Keeps (body d span)) : (environment body).Once taken where
  lookup name span _ := once_lookup (h taken) name span
  call name args span _ := once_call h keeps name args span
  draw := by
    rintro - s _ ⟨rfl, binds⟩
    exact .some ⟨rfl, rfl, binds⟩
  raise := by
    rintro fault s _ ⟨rfl, -⟩
    exact ⟨rfl, rfl, id⟩

theorem Session.once_environmentAt (fuel : Nat) (taken : List String) :
    (Session.environmentAt fuel : Env Stop (Session σ α) α).Once taken := by
  induction fuel generalizing taken with
  | zero => exact once_environment (fun _ _ _ => Action.once_fail id) fun _ _ =>
      Action.keeps_fail nofun
  | succ fuel ih =>
    exact once_environment (fun taken d span => (ih taken).evalDefine d span (.inl trivial))
      fun d span => (Session.environmentAt_keeps fuel).evalDefine d span

/-! ### Statements -/

structure Context.Once (c : Context σ α) : Prop where
  keeps : c.Keeps
  env : ∀ taken, c.env.Once taken
  expand : ∀ taken i, Action.Once taken taken (c.expand i)

namespace Context

variable {c : Context σ α}

theorem Once.replace (h : c.Once) (head : Head α) (parent : Instance α) :
    Action.Once taken taken (c.replace head parent) := by
  have adjust := adjust_inStep (h.env taken).free parent head.mods fun _ _ => trivial
  unfold Context.replace
  split
  · exact Leads.pure rfl
  · refine Leads.andThen adjust fun child => Leads.andThen (c.once_consult _) fun drawn => ?_
    split
    · exact Action.once_update fun _ => rfl
    · exact Leads.pure rfl
  · split
    · exact Action.once_fail nofun
    case h_2 shape _ =>
      refine Leads.andThen adjust fun child => ?_
      by_cases length : head.args.length = shape.params.length
      · rw [if_neg (not_not_intro length)]
        refine Leads.bind (bindArgs_inStep (h.env taken).free shape.params head.args
          (fun _ _ _ _ => trivial) length) ?_
        rintro values _ ⟨rfl, -⟩
        exact h.expand taken _
      · rw [if_pos length]
        exact Action.once_fail nofun

theorem Once.loopRange (h : c.Once) (spec : LoopSpec α) :
    Action.Once taken taken (c.loopRange spec) := by
  unfold Context.loopRange
  split
  · exact Leads.pure rfl
  · refine Leads.andThen ((h.env taken).eval spec.range (.inl trivial)) fun v => ?_
    cases result : LoopRange.ofValue v with
    | ok range => exact Leads.pure rfl
    | error p =>
      refine Action.once_fail fun repeats => ?_
      have code : p.code = .loopRange := LoopRange.code_of_error result
      have repeats : p.code = .duplicateName := repeats
      rw [code] at repeats
      cases repeats

theorem Once.keptValue (h : c.Once) (place : Address) (d : Define α) (span : Span) :
    Action.Once taken taken (c.keptValue place d span) := by
  refine Action.once_of_state fun s _ => ?_
  split
  · exact Leads.pure rfl
  · refine Leads.andThen ((h.env taken).evalDefine d span (.inl trivial)) fun v => ?_
    exact Leads.andThen (Action.once_update fun _ => rfl) fun _ => Leads.pure rfl

theorem Once.define (h : c.Once) (head : Head α) {d : Define α}
    (params : d.isFunction = true → (d.params.map Param.name).Nodup) (new : d.name ∉ taken) :
    Action.Once taken (d.name :: taken) (c.define head d) := by
  unfold Context.define
  split
  case isTrue function =>
    refine Action.once_bindName new (fun f same => ?_) _
    cases same
    exact params function
  · split
    · simp only
      split
      · exact Leads.andThen (h.keptValue _ d head.span) fun v => Action.once_bindValue new v _
      · exact Leads.andThen ((h.env taken).evalDefine d head.span (.inl trivial)) fun v =>
          Action.once_bindValue new v _
    · refine Action.once_bindName new (fun f same => ?_) _
      cases same

theorem once_runAll {statements : List (Statement α)} {parent : Instance α} {follows : Bool}
    (hs : ∀ st ∈ statements, ∀ taken, (∀ name ∈ st.bound, name ∉ taken) →
      Action.Once taken (st.bound ++ taken) (c.run st parent follows))
    (apart : (statements.flatMap Statement.bound).Nodup)
    (new : ∀ name ∈ statements.flatMap Statement.bound, name ∉ taken) :
    Action.Once taken (statements.flatMap Statement.bound ++ taken)
      (c.runAll statements parent follows) := by
  induction statements generalizing taken with
  | nil =>
    rw [Context.runAll]
    exact Leads.pure rfl
  | cons st rest ih =>
    rw [Context.runAll]
    rw [List.flatMap_cons] at apart new ⊢
    obtain ⟨-, later, across⟩ := List.nodup_append.mp apart
    obtain ⟨newHere, newLater⟩ := List.forall_mem_append.mp new
    have here := hs st List.mem_cons_self taken newHere
    have there : Action.Once (st.bound ++ taken)
        (rest.flatMap Statement.bound ++ (st.bound ++ taken)) (c.runAll rest parent follows) := by
      refine ih (fun st hst => hs st (List.mem_cons_of_mem _ hst)) later fun name hname mem => ?_
      rcases List.mem_append.mp mem with mem | mem
      · exact across name mem name hname rfl
      · exact newLater name hname mem
    refine Leads.andThen here fun _ => there.mono fun name hname => ?_
    simp only [List.mem_append] at hname ⊢
    tauto

theorem Once.enterBody_of (h : c.Once) {b : Body α} (apart : b.Distinct)
    (hs : ∀ st ∈ b.statements, ∀ taken parent follows, (∀ name ∈ st.bound, name ∉ taken) →
      Action.Once taken (st.bound ++ taken) (c.run st parent follows))
    (parent : Instance α) (follows : Bool) (seed : List (Value α)) :
    Action.Once taken taken (c.enterBody b parent follows seed) := by
  obtain ⟨statements, params, slots⟩ := b
  obtain ⟨paramsApart, boundApart, across⟩ := List.nodup_append.mp apart
  rw [Context.enterBody]
  split
  · exact Action.once_fail id
  · have bind := Action.once_bindParams (σ := σ) paramsApart (fun _ _ => List.not_mem_nil) seed
    have run : Action.Once (params.map Param.name ++ [])
        (statements.flatMap Statement.bound ++ (params.map Param.name ++ []))
        (c.runAll statements parent follows) := by
      refine once_runAll (fun st hst taken => hs st hst taken parent follows) boundApart
        fun name hname mem => ?_
      rw [List.append_nil] at mem
      exact across name mem name hname rfl
    have pushes := (Action.pushes_bindParams params seed).bind fun _ =>
      (h.keeps.runAll statements parent follows).bindKeeps fun _ =>
        keeps_checkSlots (σ := σ) (α := α) slots
    exact Action.once_inFrame _ (Leads.andThen bind fun _ => Leads.andThen run fun _ =>
      once_checkSlots slots) pushes

/-- A statement finds none of its names taken if those that it binds itself are
not. -/
theorem Once.run (h : c.Once) {st : Statement α} (distinct : st.Distinct) :
    ∀ taken parent follows, (∀ name ∈ st.bound, name ∉ taken) →
      Action.Once taken (st.bound ++ taken) (c.run st parent follows) := by
  -- The names that are taken are left general, since a body starts without any.
  induction distinct with
  | replace head =>
    intro taken parent follows _
    rw [Context.run]
    exact h.replace head parent
  | loop apart _ apart' _ hbody hlast =>
    intro taken parent follows _
    rw [Context.run]
    exact loop_inStep (h.env taken).free _ (fun _ _ => trivial) _ (h.loopRange _) parent follows rfl
      (fun i follows x => h.enterBody_of apart hbody i follows _)
      fun i follows x => h.enterBody_of apart' hlast i follows _
  | transform apart _ hbody =>
    intro taken parent follows _
    rw [Context.run]
    refine transform_inStep (h.env taken).free ?_ _ (fun _ _ => trivial) _ (fun _ _ _ _ => trivial)
      parent follows rfl fun i follows => h.enterBody_of apart hbody i follows []
    rintro s _ t _ ⟨rfl, binds⟩ ⟨rfl, -⟩
    exact ⟨rfl, binds⟩
  | branch apart _ apart' _ hthen helse =>
    intro taken parent follows _
    rw [Context.run]
    exact branch_inStep (h.env taken).free _ (fun _ _ => trivial) parent follows []
      (h.enterBody_of apart hthen parent follows []) (h.enterBody_of apart' helse parent follows [])
  | switch apart _ apart' _ hbodies hdefault =>
    intro taken parent follows _
    rw [Context.run]
    refine Leads.andThen (selectKey_inStep (h.env taken).free _ fun _ _ => trivial) fun key => ?_
    refine switch_inStep _ _ _ key parent follows fun b hb => ?_
    rcases hb with rfl | hb
    · exact h.enterBody_of apart' hdefault parent follows []
    · exact h.enterBody_of (apart b hb) (hbodies b hb) parent follows []
  | define head params =>
    intro taken parent follows new
    rw [Context.run]
    exact h.define head params (new _ List.mem_cons_self)
  | op head o =>
    intro taken parent follows _
    rw [Context.run]
    exact op_inStep o (opArgs_inStep (h.env taken).free rfl o fun _ _ => trivial) parent follows rfl
      fun args m => once_buildWith _ _
  | command head spec =>
    intro taken parent follows _
    rw [Context.run]
    exact command_inStep (h.env taken).free head (fun _ _ => trivial) spec (fun _ _ => trivial)
      fun command => once_buildWith _ _

/-! ### Rules -/

theorem once_selectRule (shape : Shape α) :
    Leads (single fun e _ => ¬ e.Repeats) (Twice fun s => s.stack.Binds taken)
      (Twice fun s => s.stack.Binds taken) (fun rule rule' => rule = rule' ∧ rule ∈ shape.rules)
      (selectRule shape : Action σ α (Rule α)) (selectRule shape) := by
  unfold selectRule
  split
  · exact Leads.fail fun _ _ hs => ⟨rfl, hs.1, nofun⟩
  case h_2 only single => exact Leads.pure ⟨rfl, by simp [single]⟩
  · refine Leads.bind Leads.state ?_
    rintro s _ ⟨rfl, -⟩
    refine Leads.andThen (Action.once_update fun _ => rfl) fun _ => ?_
    split
    case h_1 rule found =>
      obtain ⟨j, -, hj⟩ := Option.bind_eq_some_iff.mp found
      exact Leads.pure ⟨rfl, List.mem_of_getElem? hj⟩
    case h_2 => exact Leads.fail fun _ _ hs => ⟨rfl, hs.1, nofun⟩

theorem once_buildPath (rule : Rule α) {body : Entering σ α} {params : List (Value α)}
    (keeps : Action.Keeps (body (.root rule.shape) false params))
    (h : Action.Once taken taken (body (.root rule.shape) false params)) :
    Action.Once taken taken (buildPath rule body params) := by
  refine Action.once_iff.mpr fun s hs => ?_
  cases building : s.building with
  | some p =>
    rw [buildPath_nested rule body params (by simp [building])]
    exact id
  | none =>
    have ends := Action.once_iff.mp h s.opening hs
    cases hb : (body (.root rule.shape) false params).run s.opening with
    | ok u t =>
      obtain ⟨p, -, -, -, -, run⟩ := buildPath_ok rule keeps building hb
      rw [hb] at ends
      rw [run]
      exact ends
    | failed e t =>
      rw [hb] at ends
      rw [buildPath_failed rule building hb]
      exact ends

theorem once_keptPath (rule : Rule α) {body : Entering σ α} {params : List (Value α)}
    (keeps : Action.Keeps (body (.root rule.shape) false params))
    (h : Action.Once taken taken (body (.root rule.shape) false params)) :
    Action.Once taken taken (c.keptPath rule body params) := by
  unfold keptPath
  split
  · exact once_buildPath rule keeps h
  · refine Action.once_of_state fun s _ => ?_
    split
    · exact Leads.pure rfl
    · refine Leads.andThen (once_buildPath rule keeps h) fun p => ?_
      exact Leads.andThen (Action.once_update fun _ => rfl) fun _ => Leads.pure rfl

theorem once_rule (shape : Shape α) (rule : Rule α) {body : Entering σ α} (i : Instance α)
    (keeps : ∀ parent follows, Action.Keeps (body parent follows i.params))
    (h : ∀ parent follows, Action.Once taken taken (body parent follows i.params)) :
    Action.Once taken taken (c.rule shape rule body i) := by
  refine Action.once_of_state fun s _ => Action.once_underView _ ?_
  split
  · refine Leads.andThen (once_keptPath rule (keeps _ _) (h _ _)) fun p => ?_
    split
    · exact Action.once_fail id
    · rw [drawCommands_eq]
      exact Action.once_update fun _ => rfl
  · exact h i true

end Context

/-! ### Loaded grammars -/

theorem Context.Once.expandShape {c : Context σ α} (h : c.Once) (distinct : c.grammar.Distinct)
    (i : Instance α) : Action.Once taken taken (c.expandShape i) := by
  unfold Context.expandShape
  split
  · exact Action.once_fail id
  · split
    · exact Action.once_fail id
    case h_2 shape found =>
      refine Leads.andThen (c.once_consult i) fun drawn => ?_
      split
      · refine Action.once_deeper (Leads.bind (Context.once_selectRule shape) ?_)
        rintro rule _ ⟨rfl, mem⟩
        obtain ⟨apart, inside⟩ := distinct shape (List.mem_of_getElem? found) rule mem
        refine Context.once_rule shape rule i (fun parent follows => ?_) fun parent follows => ?_
        · exact h.keeps.enterBody rule.body parent follows i.params
        · exact h.enterBody_of apart (fun st hst => h.run (inside st hst)) parent follows i.params
      · exact Leads.pure rfl

namespace Setting

theorem expand_once {g : Grammar α} (distinct : g.Distinct) (r : Renderer σ α) (options : Options)
    (fuel : Nat) (taken : List String) (i : Instance α) :
    Action.Once taken taken ((standard g r options).expand fuel i) := by
  induction fuel generalizing taken i with
  | zero => exact Action.once_fail id
  | succ fuel ih =>
    have keeps : ∀ n, ((standard g r options).environment n).Keeps := Session.environmentAt_keeps
    exact Context.Once.expandShape ⟨⟨keeps fuel, expand_keeps keeps fuel⟩,
      Session.once_environmentAt fuel, ih⟩ distinct i

/-- A run begins on a stack without names, so the globals are the first to be bound. -/
theorem run_once {d : Draft α} {g : Grammar α} (drafted : d.Drafted) (built : d.build = .ok g)
    (params : d.DistinctParams) (r : Renderer σ α) (options : Options) (fuel start : Nat)
    {s : Session σ α} (rest : s.AtRest) :
    (((standard g r options).run fuel start).run s).Ends (fun _ => True)
      fun e _ => ¬ e.Repeats := by
  have keeps : ∀ n, ((standard g r options).environment n).Keeps := Session.environmentAt_keeps
  have expand := expand_once (Draft.build_distinct drafted built params) r options fuel
  obtain ⟨apart, inside⟩ := Draft.globals_distinct built params
  let t := standard g r options
  let c := t.contextAt fuel (t.expand fuel)
  have once : c.Once := ⟨⟨keeps fuel, expand_keeps keeps fuel⟩, Session.once_environmentAt fuel,
    expand⟩
  unfold Setting.run
  split
  · exact nofun
  · split
    · exact nofun
    case isFalse shape _ _ =>
      let ready : Session σ α := { s with random := t.startRandom shape.name, view := .full }
      have empty : ready.stack.Binds [] := by
        constructor
        · simp [ready, Stack.frameStart, rest.frames]
        · simp [ready, Stack.frameNames, Stack.height, rest.slots, Stack.below]
        · simp [ready, rest.slots]
      have globals : Action.Once [] (g.globals.statements.flatMap Statement.bound ++ [])
          (c.runAll g.globals.statements (.root shape.index) true) :=
        Context.once_runAll (fun st hst taken => once.run (inside st hst) taken _ _) apart
          fun _ _ => List.not_mem_nil
      have body : Action.Once [] (g.globals.statements.flatMap Statement.bound ++ [])
          (t.runFrom fuel shape) := by
        refine Leads.andThen globals fun _ => Action.once_of_state fun u _ => ?_
        split
        · exact Action.once_fail id
        · exact Leads.andThen (Action.once_update fun _ => rfl) fun _ => expand _ _
      change ((Action.inFrame (t.runFrom fuel shape)).run ready).Ends _ _
      rw [Action.wraps_inFrame (runFrom_stack keeps fuel shape) ready]
      exact (Action.once_iff.mp body _ empty.pushFrame).mapState (fun _ _ => trivial) fun _ _ => id

end Setting

/-- If the parameters of every function have different names, no run of the loaded
grammar finds a name taken, whatever the store, the renderer and the start. -/
theorem Setting.run_binds_once {d : Draft α} {g : Grammar α} (drafted : d.Drafted)
    (built : d.build = .ok g) (params : d.DistinctParams) (r : Renderer σ α) (options : Options)
    (fuel start : Nat) {s : Session σ α} (rest : s.AtRest) {diagnostic : Diagnostic}
    (taken : diagnostic.code.text = "G010") (t : Session σ α) :
    ((standard g r options).run fuel start).run s ≠ .failed (.fault (.grammar diagnostic)) t := by
  intro failed
  have once := run_once drafted built params r options fuel start rest
  rw [failed] at once
  have only : ∀ code : Code, code.text = "G010" → code = .duplicateName := by
    intro code
    cases code <;> decide
  exact once (only _ taken)

theorem Sample.endless_params : endless.DistinctParams := by
  have all : ((endless.globals :: endless.bodies).all fun b =>
      b.flatten.all fun st => !st.repeatsParam) = true := by decide +kernel
  intro b hb st hst
  have inside := List.all_eq_true.mp (List.all_eq_true.mp all b hb) st hst
  simpa using inside

theorem Setting.run_binds_once_sample :
    Sample.endless.Drafted ∧ Sample.endless.build = .ok Sample.endless.resolved ∧
      Sample.endless.DistinctParams ∧ ∀ t,
        ((standard Sample.endless.resolved Sample.renderer Sample.options).run 9 0).run
          (Sample.session .empty) ≠ .failed (.fault (.grammar ⟨.none, .nameTaken "x"⟩)) t :=
  ⟨Sample.endless_drafted, Sample.endless_build, Sample.endless_params,
    run_binds_once Sample.endless_drafted Sample.endless_build Sample.endless_params
      Sample.renderer Sample.options 9 0 (Session.begin_atRest _ _ _) (by decide)⟩

/-! ### A function with two parameters of one name -/

namespace Sample

def clash : Define Rat :=
  ⟨"f", .expr (var "x"), .number, 1, [⟨"x", .number, 1, .none⟩, ⟨"x", .number, 1, .none⟩], true,
    none⟩

def clashing : Draft Rat :=
  ((Draft.empty.declareShape "dot" false []).1.addGlobal clash .none).addRule 0 .unstated
    (.ofStatements [.replace ⟨.primitive .circle, [],
      ⟨[⟨.x, [.call "f" [number 1, number 2] .none], .none⟩], false⟩, .none⟩]) .none

theorem clashing_drafted : clashing.Drafted := by
  have none : (Draft.empty : Draft Rat).Drafted := .empty
  refine ((none.declareShape "dot" false []).addGlobal _ .none).addRule 0 .unstated ?_ .none
  rintro st (_ | ⟨_, ⟨⟩⟩)
  exact .replace _

theorem clashing_build : clashing.build = .ok clashing.resolved := by
  have errors : clashing.errors = [] := by decide +kernel
  exact Draft.build_eq_ok.mpr ⟨errors, rfl⟩

end Sample

/-- The load lets the function pass, and its first call finds the name taken. -/
theorem Setting.run_finds_name_taken :
    Sample.clashing.Drafted ∧ Sample.clashing.build = .ok Sample.clashing.resolved ∧
      ∃ diagnostic t, diagnostic.code.text = "G010" ∧
        ((standard Sample.clashing.resolved Sample.renderer Sample.options).run 9 0).run
          (Sample.session .empty) = .failed (.fault (.grammar diagnostic)) t := by
  refine ⟨Sample.clashing_drafted, Sample.clashing_build, ⟨.none, .nameTaken "x"⟩, ?_⟩
  have ended : (match ((standard Sample.clashing.resolved Sample.renderer Sample.options).run 9
      0).run (Sample.session .empty) with
    | .ok _ _ => none
    | .failed e _ => some e) = some (Stop.fault (.grammar ⟨.none, .nameTaken "x"⟩)) := by
    decide +kernel
  generalize ((standard Sample.clashing.resolved Sample.renderer Sample.options).run 9 0).run
    (Sample.session .empty) = o at ended ⊢
  cases o with
  | ok b t => cases ended
  | failed e t =>
    cases ended
    exact ⟨t, by decide, rfl⟩

end ShapeGrammar
