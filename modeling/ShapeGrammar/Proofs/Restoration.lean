import ShapeGrammar.Proofs.Statements

/-!
# Restoration

An expansion saves and restores its stack, its view, its depth and the path it
builds. Whatever runs inside a frame only adds slots to that frame, so the
frame can always be unwound, and every way out of a body, a call, a lookup or
an expansion finds the session as it was on the way in.
-/

set_option autoImplicit false

namespace ShapeGrammar

open Attempt

variable {σ α β γ : Type}

/-! ### What is restored -/

namespace Stack

def extend (s : Stack α) (extra : List (Slot α)) : Stack α :=
  { s with slots := s.slots ++ extra.toArray }

@[simp] theorem extend_nil (s : Stack α) : s.extend [] = s := by simp [extend]

@[simp] theorem extend_extend (s : Stack α) (xs ys : List (Slot α)) :
    (s.extend xs).extend ys = s.extend (xs ++ ys) := by
  simp [extend, Array.append_assoc]

theorem height_extend (s : Stack α) (extra : List (Slot α)) :
    (s.extend extra).height = s.height + extra.length := by
  simp [extend, height]

def isTaken (s : Stack α) (name : String) : Bool :=
  (findBelow s.slots name s.frameStart s.height).isSome

/-- A frame that only grew is cut back to where it began. -/
theorem unwind_pushFrame_extend (s : Stack α) (extra : List (Slot α)) :
    (s.pushFrame.extend extra).unwind s.mark = .ok s := by
  have h : ¬ ((s.pushFrame.extend extra).height < s.mark.slots ∨
      (s.pushFrame.extend extra).depth < s.mark.frames) := by
    simp [extend, pushFrame, mark, height, depth]
  rw [unwind, if_neg h]
  simp [extend, pushFrame, mark, height, depth]

end Stack

/-- What an expansion leaves as it found it. -/
structure Control (α : Type) where
  stack : Stack α
  view : View
  globalsEnd : Nat
  depth : Nat
  /-- Of the path under construction: its handle, its identity, and whether it
  is closed. -/
  opened : Option (FrameRef × Option Nat × Bool)

def Session.control (s : Session σ α) : Control α :=
  ⟨s.stack, s.view, s.globalsEnd, s.depth, s.building.map fun p => (p.frame, p.uid, p.complete)⟩

namespace Control

def extend (κ : Control α) (extra : List (Slot α)) : Control α :=
  { κ with stack := κ.stack.extend extra }

@[simp] theorem extend_nil (κ : Control α) : κ.extend [] = κ := by simp [extend]

@[simp] theorem extend_extend (κ : Control α) (xs ys : List (Slot α)) :
    (κ.extend xs).extend ys = κ.extend (xs ++ ys) := by simp [extend]

/-- The session as `κ` has it, with slots of these names on top. -/
def Grown (κ : Control α) (names : List String) (s : Session σ α) : Prop :=
  ∃ extra, extra.map Slot.name = names ∧ s.control = κ.extend extra

end Control

structure Session.AtRest (s : Session σ α) : Prop where
  slots : s.stack.slots = #[]
  frames : s.stack.frames = #[]
  view : s.view = .full
  depth : s.depth = 0
  building : s.building = none

theorem Session.begin_atRest (seed : UInt64) (store : Store α) (rs : σ) :
    (Session.begin seed store rs).AtRest :=
  ⟨rfl, rfl, rfl, rfl, rfl⟩

/-- A session that differs from one at rest in what lies on the stack is at rest
once the stack is put back. -/
theorem Session.AtRest.of_control {s u : Session σ α} (hs : s.AtRest) {stack : Stack α}
    {globalsEnd : Nat} (h : u.control = ⟨stack, .full, globalsEnd, s.depth,
      s.building.map fun p => (p.frame, p.uid, p.complete)⟩) :
    Session.AtRest { u with stack := s.stack } where
  slots := hs.slots
  frames := hs.frames
  view := congrArg Control.view h
  depth := (congrArg Control.depth h).trans hs.depth
  building := by
    have opened := congrArg Control.opened h
    rw [hs.building] at opened
    exact Option.map_eq_none_iff.mp opened

/-- Any stop but that of a stack found below the mark of a frame. -/
def Stop.Contained (e : Stop) : Prop :=
  ∀ height depth slots frames, e ≠ .fault (.broken (.stackBelowMark height depth slots frames))

namespace Action

/-- Everything is in place after the action, however it ends. -/
def Keeps (x : Action σ α β) : Prop :=
  ∀ s, (x.run s).Ends (fun t => t.control = s.control)
    fun e t => e.Contained ∧ t.control = s.control

/-- Success adds slots of these names, and failure adds none. -/
def Adds (names : List String) (x : Action σ α β) : Prop :=
  ∀ s, (x.run s).Ends (s.control.Grown names) fun e t => e.Contained ∧ t.control = s.control

/-- Success adds slots of these names, and failure adds any. -/
def Pushes (names : List String) (x : Action σ α β) : Prop :=
  ∀ s, (x.run s).Ends (s.control.Grown names)
    fun e t => e.Contained ∧ ∃ added, s.control.Grown added t

def intact (κ : Control α) : Parting Stop Stop (Session σ α) (Session σ α) :=
  single fun e s => e.Contained ∧ s.control = κ

theorem keeps_iff {x : Action σ α β} :
    Keeps x ↔ ∀ κ, InStep (intact κ) (Twice fun s => s.control = κ) Eq x x := by
  refine Iff.trans ?_ (forall_congr' fun κ => leads_single_iff.symm)
  constructor
  · rintro h _ s rfl
    exact h s
  · exact fun h s => h _ s rfl

theorem grown_nil {κ : Control α} {s : Session σ α} : κ.Grown [] s ↔ s.control = κ := by
  constructor
  · rintro ⟨extra, names, control⟩
    rw [control, List.map_eq_nil_iff.mp names, Control.extend_nil]
  · exact fun control => ⟨[], rfl, by rw [control, Control.extend_nil]⟩

theorem Keeps.adds {x : Action σ α β} (h : Keeps x) : Adds [] x := fun s => by
  have ends := h s
  generalize x.run s = o at ends ⊢
  cases o with
  | ok b t => exact grown_nil.mpr ends
  | failed e t => exact ends

theorem Adds.pushes {names : List String} {x : Action σ α β} (h : Adds names x) :
    Pushes names x := fun s => by
  have ends := h s
  generalize x.run s = o at ends ⊢
  cases o with
  | ok b t => exact ends
  | failed e t => exact ⟨ends.1, [], grown_nil.mpr ends.2⟩

theorem Pushes.bind {names more : List String} {x : Action σ α β} {f : β → Action σ α γ}
    (hx : Pushes names x) (hf : ∀ b, Pushes more (f b)) : Pushes (names ++ more) (x >>= f) := by
  intro s
  refine ends_bind (hx s) (fun _ _ => id) ?_
  rintro b t ⟨extra, rfl, control⟩
  have ends := hf b t
  rw [control] at ends
  generalize (f b).run t = o at ends ⊢
  cases o with
  | ok c u =>
    obtain ⟨late, rfl, control⟩ := ends
    exact ⟨extra ++ late, List.map_append, by rw [control, Control.extend_extend]⟩
  | failed e u =>
    obtain ⟨contained, _, late, -, control⟩ := ends
    exact ⟨contained, _, extra ++ late, rfl, by rw [control, Control.extend_extend]⟩

theorem Pushes.bindKeeps {names : List String} {x : Action σ α β} {f : β → Action σ α γ}
    (hx : Pushes names x) (hf : ∀ b, Keeps (f b)) : Pushes names (x >>= f) := by
  simpa using hx.bind fun b => (hf b).adds.pushes

/-! ### The ways out of a session -/

theorem keeps_pure (b : β) : Keeps (pure b : Action σ α β) := fun _ => rfl

theorem Keeps.bindAdds {x : Action σ α β} {f : β → Action σ α γ} {names : List String}
    (hx : Keeps x) (hf : ∀ b, Adds names (f b)) : Adds names (x >>= f) := fun s =>
  ends_bind (hx s) (fun _ _ => id) fun b t control => control ▸ hf b t

theorem Keeps.bind {x : Action σ α β} {f : β → Action σ α γ} (hx : Keeps x)
    (hf : ∀ b, Keeps (f b)) : Keeps (x >>= f) := fun s =>
  ends_bind (hx s) (fun _ _ => id) fun b t control => control ▸ hf b t

theorem keeps_fail {e : Stop} (h : e.Contained) : Keeps (Attempt.fail e : Action σ α β) :=
  fun _ => ⟨h, rfl⟩

theorem keeps_of_state {f : Session σ α → Action σ α β} (hf : ∀ s, Keeps (f s)) :
    Keeps (Attempt.state >>= f) := fun s => hf s s

theorem keeps_update {f : Session σ α → Session σ α} (h : ∀ s, (f s).control = s.control) :
    Keeps (Attempt.update f) := h

theorem keeps_problem (span : Span) (p : Problem) : Keeps (problem span p : Action σ α β) :=
  keeps_fail nofun

theorem Keeps.wrap {before : Session σ α → Session σ α}
    {after : Session σ α → Session σ α → Session σ α} {w x : Action σ α β} (h : Keeps x)
    (hw : Wraps before after w x)
    (restored : ∀ s t, t.control = (before s).control → (after s t).control = s.control) :
    Keeps w := by
  intro s
  have inner := h (before s)
  rw [hw s]
  generalize x.run (before s) = o at inner ⊢
  cases o with
  | ok b t => exact restored s t inner
  | failed e t => exact ⟨inner.1, restored s t inner.2⟩

theorem wraps_underView (view : View) (x : Action σ α β) :
    Wraps (fun s => { s with view := view }) (fun s t => { t with view := s.view })
      (underView view x) x := by
  intro s
  simp only [underView]
  cases x.run { s with view := view } <;> rfl

theorem wraps_deeper (x : Action σ α β) :
    Wraps (fun s => { s with depth := s.depth + 1 }) (fun _ t => { t with depth := t.depth - 1 })
      (deeper x) x := by
  intro s
  simp only [deeper]
  cases x.run { s with depth := s.depth + 1 } <;> rfl

theorem keeps_underView (view : View) {x : Action σ α β} (h : Keeps x) :
    Keeps (underView view x) :=
  h.wrap (wraps_underView view x) fun s _ control =>
    congrArg (fun κ : Control α => { κ with view := s.view }) control

theorem keeps_deeper {x : Action σ α β} (h : Keeps x) : Keeps (deeper x) :=
  h.wrap (wraps_deeper x) fun _ _ control =>
    congrArg (fun κ : Control α => { κ with depth := κ.depth - 1 }) control

/-- After an action that only pushed, the frame is unwound and nothing else is
changed. -/
theorem inFrame_run_of {x : Action σ α β} {s : Session σ α} {extra : List (Slot α)}
    (h : (x.run { s with stack := s.stack.pushFrame }).state.stack =
      s.stack.pushFrame.extend extra) :
    (inFrame x).run s = (x.run { s with stack := s.stack.pushFrame }).mapState
      fun t => { t with stack := s.stack } := by
  simp only [inFrame]
  generalize x.run { s with stack := s.stack.pushFrame } = o at h ⊢
  cases o with
  | ok b t =>
    have stack : t.stack = s.stack.pushFrame.extend extra := h
    simp only [stack, Stack.unwind_pushFrame_extend, Outcome.mapState]
  | failed e t =>
    have stack : t.stack = s.stack.pushFrame.extend extra := h
    simp only [stack, Stack.unwind_pushFrame_extend, Outcome.mapState]

theorem Pushes.stack {names : List String} {x : Action σ α β} (h : Pushes names x)
    (s : Session σ α) : ∃ extra, (x.run s).state.stack = s.stack.extend extra := by
  have ends := h s
  generalize x.run s = o at ends ⊢
  cases o with
  | ok b t =>
    obtain ⟨extra, -, control⟩ := ends
    exact ⟨extra, congrArg Control.stack control⟩
  | failed e t =>
    obtain ⟨-, _, extra, -, control⟩ := ends
    exact ⟨extra, congrArg Control.stack control⟩

/-- An action that leaves the frames alone and takes no slot away can be framed. -/
theorem wraps_inFrame {x : Action σ α β}
    (h : ∀ s, ∃ extra, (x.run s).state.stack = s.stack.extend extra) :
    Wraps (fun s => { s with stack := s.stack.pushFrame }) (fun s t => { t with stack := s.stack })
      (inFrame x) x := by
  intro s
  obtain ⟨extra, stack⟩ := h { s with stack := s.stack.pushFrame }
  exact inFrame_run_of stack

theorem keeps_inFrame {names : List String} {x : Action σ α β} (h : Pushes names x) :
    Keeps (inFrame x) := by
  intro s
  let back (κ : Control α) : Control α := { κ with stack := s.stack }
  have inner := h { s with stack := s.stack.pushFrame }
  rw [wraps_inFrame h.stack s]
  generalize x.run { s with stack := s.stack.pushFrame } = o at inner ⊢
  cases o with
  | ok b t =>
    obtain ⟨_, -, control⟩ := inner
    exact congrArg back control
  | failed e t =>
    obtain ⟨contained, _, _, -, control⟩ := inner
    exact ⟨contained, congrArg back control⟩

theorem bindName_run (name : String) (binding : Binding α) (span : Span) (s : Session σ α) :
    (bindName name binding span).run s =
      if s.stack.isTaken name then .failed (.fault (.grammar ⟨span, .nameTaken name⟩)) s
      else .ok () { s with stack := s.stack.extend [⟨name, binding⟩] } := by
  by_cases taken : s.stack.isTaken name = true
  · have push : s.stack.push name binding = .error (.nameTaken name) := if_pos taken
    simp only [bindName, push, if_pos taken]
  · have push : s.stack.push name binding = .ok (s.stack.extend [⟨name, binding⟩]) := by
      simp only [Stack.extend, ← Array.push_eq_append]
      exact if_neg taken
    simp only [bindName, push, if_neg taken]

theorem adds_bindName (name : String) (binding : Binding α) (span : Span) :
    Adds [name] (bindName name binding span : Action σ α Unit) := by
  intro s
  rw [bindName_run]
  split
  · exact ⟨nofun, rfl⟩
  · exact ⟨[⟨name, binding⟩], rfl, rfl⟩

theorem pushes_bindParams (params : List Param) (values : List (Value α)) :
    Pushes ((params.take values.length).map Param.name)
      (bindParams params values : Action σ α Unit) := by
  induction params generalizing values with
  | nil =>
    rw [List.take_nil]
    exact (keeps_pure ()).adds.pushes
  | cons p params ih =>
    cases values with
    | nil => exact (keeps_pure ()).adds.pushes
    | cons v values =>
      exact (adds_bindName p.name (.value v) p.span).pushes.bind fun _ => ih values

/-- What a call does inside its frame. -/
theorem pushes_calling (params : List Param) (args : List (Value α)) (view : Session σ α → View)
    {x : Action σ α β} (h : Keeps x) :
    Pushes ((params.take args.length).map Param.name) (do
      bindParams params args
      let s ← Attempt.state
      let v ← underView (view s) x
      return some v) :=
  (pushes_bindParams params args).bindKeeps fun _ => keeps_of_state fun s =>
    (keeps_underView (view s) h).bind fun v => keeps_pure (some v)

theorem keeps_inFrame_bindParams (params : List Param) (values : List (Value α))
    {names : List String} {x : Action σ α β} (h : Pushes names x) :
    Keeps (inFrame do bindParams params values; x) :=
  keeps_inFrame ((pushes_bindParams params values).bind fun _ => h)

end Action

theorem Session.keeps_failEval (span : Span) (cause : EvalCause) :
    Action.Keeps (Session.failEval span cause : Action σ α β) :=
  Action.keeps_fail nofun

theorem Context.keeps_consult (c : Context σ α) (i : Instance α) :
    Action.Keeps (c.consult i) := by
  intro s
  simp only [consult]
  split
  · rfl
  · rfl
  · exact ⟨nofun, rfl⟩

theorem Context.keeps_buildWith (what : String)
    {f : Path.Compiled α → Except Broken (Path.Compiled α)}
    (hok : ∀ p q, f p = .ok q → q.frame = p.frame ∧ q.uid = p.uid ∧ q.complete = p.complete)
    (herror : ∀ p e, f p = .error e → (Stop.fault (.broken e)).Contained) :
    Action.Keeps (buildWith what f : Action σ α Unit) := by
  intro s
  simp only [buildWith]
  split
  · exact ⟨fun _ _ _ _ => by simp, rfl⟩
  case h_2 p hp =>
    split
    case h_1 q hq =>
      obtain ⟨frame, uid, complete⟩ := hok p q hq
      simp [Outcome.Ends, Session.control, hp, frame, uid, complete]
    case h_2 e he => exact ⟨herror p e he, rfl⟩

theorem Context.keeps_addCommand (what : String) (command : Path.Command α) :
    Action.Keeps (buildWith what fun p => p.addCommand command : Action σ α Unit) := by
  refine keeps_buildWith what ?_ ?_
  · intro p q h
    unfold Path.Compiled.addCommand at h
    split at h <;> cases h
    exact ⟨rfl, rfl, rfl⟩
  · intro p e h
    unfold Path.Compiled.addCommand at h
    split at h <;> cases h
    exact nofun

theorem keeps_checkSlots (declared : Nat) :
    Action.Keeps (checkSlots declared : Action σ α Unit) := by
  refine Action.keeps_of_state fun s => ?_
  simp only
  split
  · exact Action.keeps_fail nofun
  · exact Action.keeps_pure ()

/-! ### Evaluation -/

def Env.Keeps (env : Env Stop (Session σ α) α) : Prop :=
  ∀ κ, Env.InStep (Action.intact κ) (Twice fun s => s.control = κ) True (fun _ => true) env env

theorem Env.Keeps.lookup {env : Env Stop (Session σ α) α} (h : env.Keeps) (name : String)
    (span : Span) : Action.Keeps (env.lookup name span) :=
  Action.keeps_iff.mpr fun κ => (h κ).lookup name span (.inl trivial)

theorem Env.Keeps.call {env : Env Stop (Session σ α) α} (h : env.Keeps) (name : String)
    (args : List (Value α)) (span : Span) : Action.Keeps (env.call name args span) :=
  Action.keeps_iff.mpr fun κ => (h κ).call name args span (.inl trivial)

theorem Env.Keeps.draw {env : Env Stop (Session σ α) α} (h : env.Keeps) {s : Session σ α}
    {drawn : α × Session σ α} (hd : env.draw s = some drawn) :
    drawn.2.control = s.control := by
  have draws := (h s.control).draw trivial s s ⟨rfl, rfl⟩
  rw [hd] at draws
  cases draws with
  | some both => exact both.2.2

variable [Scalar α]

namespace Session

theorem keeps_lookup {body : Define α → Span → Action σ α (Value α)}
    (h : ∀ d span, Action.Keeps (body d span)) (name : String) (span : Span) :
    Action.Keeps ((environment body).lookup name span) := by
  refine Action.keeps_of_state fun s => ?_
  split
  · exact keeps_failEval span _
  · exact Action.keeps_pure _
  · exact Action.keeps_underView _ (h _ span)
  · exact keeps_failEval span _

theorem keeps_call {body : Define α → Span → Action σ α (Value α)}
    (h : ∀ d span, Action.Keeps (body d span)) (name : String) (args : List (Value α))
    (span : Span) : Action.Keeps ((environment body).call name args span) := by
  refine Action.keeps_of_state fun s => ?_
  simp only
  split
  case h_1 slot d _ =>
    split
    · exact keeps_failEval span _
    · split
      · exact keeps_failEval span _
      · exact Action.keeps_inFrame (Action.pushes_calling d.params args _ (h d span))
  case h_2 => exact Action.keeps_pure none

theorem environment_keeps {body : Define α → Span → Action σ α (Value α)}
    (h : ∀ d span, Action.Keeps (body d span)) : (environment body).Keeps := fun κ =>
  { lookup := fun name span _ => Action.keeps_iff.mp (keeps_lookup h name span) κ
    call := fun name args span _ => Action.keeps_iff.mp (keeps_call h name args span) κ
    draw := fun _ s _ ⟨same, control⟩ => by
      subst same
      exact .some ⟨rfl, rfl, control⟩
    raise := fun fault s s' ⟨same, control⟩ => ⟨rfl, same, nofun, control⟩ }

end Session

theorem Env.Keeps.evalDefine {env : Env Stop (Session σ α) α} (h : env.Keeps) (d : Define α)
    (span : Span) : Action.Keeps (env.evalDefine d span) :=
  Action.keeps_iff.mpr fun κ => (h κ).evalDefine d span (.inl trivial)

theorem Session.environmentAt_keeps (fuel : Nat) :
    (Session.environmentAt fuel : Env Stop (Session σ α) α).Keeps := by
  induction fuel with
  | zero => exact Session.environment_keeps fun _ _ => Action.keeps_fail nofun
  | succ fuel ih => exact Session.environment_keeps fun d span => ih.evalDefine d span

@[simp] theorem Path.Compiled.sealed_frame (p : Path.Compiled α) : p.sealed.frame = p.frame := by
  unfold Path.Compiled.sealed
  split
  · rfl
  · split <;> rfl

def Session.opening (s : Session σ α) : Session σ α :=
  { s with building := some (.empty s.stack.frameRef) }

/-! ### Statements -/

structure Context.Keeps (c : Context σ α) : Prop where
  env : c.env.Keeps
  expand : ∀ i, Action.Keeps (c.expand i)

namespace Context

variable {c : Context σ α}

theorem Keeps.replace (h : c.Keeps) (head : Head α) (parent : Instance α) :
    Action.Keeps (c.replace head parent) := by
  rw [Action.keeps_iff]
  intro κ
  refine replace_inStep (h.env κ).free head (fun _ _ => trivial) (fun _ _ _ _ => trivial) rfl
    (fun _ _ _ _ hs => ⟨rfl, hs.1, nofun, hs.2⟩) ?_
    (fun _ _ _ _ i _ _ => Action.keeps_iff.mp (h.expand i) κ) parent
  intro p _ i
  refine Action.keeps_iff.mp ((c.keeps_consult i).bind fun drawn => ?_) κ
  split
  · exact Action.keeps_update fun _ => rfl
  · exact Action.keeps_pure ()

theorem Keeps.loopRange (h : c.Keeps) (spec : LoopSpec α) : Action.Keeps (c.loopRange spec) :=
  Action.keeps_iff.mpr fun κ => loopRange_inStep (h.env κ).free rfl spec (fun _ _ => trivial)
    fun _ _ _ _ hs => ⟨rfl, hs.1, nofun, hs.2⟩

theorem Keeps.keptValue (h : c.Keeps) (place : Address) (d : Define α) (span : Span) :
    Action.Keeps (c.keptValue place d span) := by
  refine Action.keeps_of_state fun s => ?_
  split
  · exact Action.keeps_pure _
  · refine (h.env.evalDefine d span).bind fun v => ?_
    exact Action.Keeps.bind (Action.keeps_update fun _ => rfl) fun _ => Action.keeps_pure v

/-- A define that succeeds leaves one slot, and one that fails leaves none. -/
theorem Keeps.define (h : c.Keeps) (head : Head α) (d : Define α) :
    Action.Adds [d.name] (c.define head d) := by
  unfold Context.define
  split
  · exact Action.adds_bindName _ _ _
  · split
    · simp only
      split
      · exact (h.keptValue _ d head.span).bindAdds fun v => Action.adds_bindName _ _ _
      · exact (h.env.evalDefine d head.span).bindAdds fun v => Action.adds_bindName _ _ _
    · exact Action.adds_bindName _ _ _

theorem keeps_append (what : String) (op : Path.Operator) (flags : Path.Flags) (isCubic : Bool)
    (args : Path.Args α) (m : Affine α) :
    Action.Keeps (buildWith what fun p => p.append op flags isCubic args m : Action σ α Unit) := by
  refine keeps_buildWith what ?_ ?_
  · intro p q h
    unfold Path.Compiled.append Path.Compiled.ready at h
    split at h
    · cases h
    · split at h <;> cases h <;> exact ⟨rfl, rfl, rfl⟩
  · intro p e h
    unfold Path.Compiled.append Path.Compiled.ready at h
    split at h
    · cases h
      exact nofun
    · split at h <;> cases h

theorem Keeps.opArgs (h : c.Keeps) (o : Path.Op α) : Action.Keeps (c.opArgs o) :=
  Action.keeps_iff.mpr fun κ => opArgs_inStep (h.env κ).free rfl o (fun _ _ => trivial)

end Context

def Guided.Keeps (c : Guided σ α) : Prop := ∀ scope, (c scope).Keeps

namespace Guided

variable {c : Guided σ α}

theorem pushes_runAll (parent : Instance α) (follows : Bool) {statements : List (Statement α)}
    (hs : ∀ st ∈ statements, ∀ scope, Action.Adds st.bound (c.run scope st parent follows))
    (scope : Scope) :
    Action.Pushes (statements.flatMap Statement.bound)
      (c.runAll scope statements parent follows) := by
  induction statements generalizing scope with
  | nil =>
    rw [Guided.runAll]
    exact (Action.keeps_pure ()).adds.pushes
  | cons st rest ih =>
    rw [Guided.runAll, List.flatMap_cons]
    exact (hs st (by simp) scope).pushes.bind fun _ => ih (fun st hst => hs st (by simp [hst])) _

theorem Keeps.enterBody_of {b : Body α}
    (hs : ∀ st ∈ b.statements, ∀ scope parent follows,
      Action.Adds st.bound (c.run scope st parent follows))
    (scope : Scope) (fixed : Bool) (parent : Instance α) (follows : Bool) (seed : List (Value α)) :
    Action.Keeps (c.enterBody scope fixed b parent follows seed) := by
  obtain ⟨statements, params, slots⟩ := b
  rw [Guided.enterBody]
  split
  · exact Action.keeps_fail nofun
  · have statements := pushes_runAll parent follows
      (fun st hst scope => hs st hst scope parent follows) (scope.bind fixed params)
    exact Action.keeps_inFrame_bindParams params seed
      (statements.bindKeeps fun _ => keeps_checkSlots slots)

/-- A statement leaves everything in place, but for the slot of a define. -/
theorem Keeps.run (h : c.Keeps) (st : Statement α) (scope : Scope) (parent : Instance α)
    (follows : Bool) : Action.Adds st.bound (c.run scope st parent follows) := by
  revert scope parent follows
  -- A body keeps everything in place, while a statement may add a slot to the frame it
  -- is in.
  induction st using Statement.induct (P := fun b => ∀ scope fixed parent follows seed,
    Action.Keeps (c.enterBody scope fixed b parent follows seed)) with
  | body b hs scope fixed parent follows seed =>
    exact Keeps.enterBody_of hs scope fixed parent follows seed
  | replace head =>
    intro scope parent follows
    rw [Guided.run]
    exact ((h scope).replace head parent).adds
  | loop head spec body last hbody hlast =>
    intro scope parent follows
    rw [Guided.run]
    refine Action.Keeps.adds (Action.keeps_iff.mpr fun κ => ?_)
    exact Context.loop_inStep ((h scope).env κ).free head (fun _ _ => trivial) spec
      (Action.keeps_iff.mp ((h scope).loopRange spec) κ) parent follows rfl
      (fun i follows x => Action.keeps_iff.mp (hbody scope _ i follows _) κ)
      fun i follows x => Action.keeps_iff.mp (hlast scope _ i follows _) κ
  | transform head spec body hbody =>
    intro scope parent follows
    rw [Guided.run]
    refine Action.Keeps.adds (Action.keeps_iff.mpr fun κ => ?_)
    refine Context.transform_inStep ((h scope).env κ).free ?_ head (fun _ _ => trivial) spec
      (fun _ _ _ _ => trivial) parent follows rfl
      fun i follows => Action.keeps_iff.mp (hbody scope _ i follows _) κ
    rintro s _ t _ ⟨rfl, control⟩ ⟨rfl, _⟩
    exact ⟨rfl, control⟩
  | branch head cond thenBody elseBody hthen helse =>
    intro scope parent follows
    rw [Guided.run]
    refine Action.Keeps.adds (Action.keeps_iff.mpr fun κ => ?_)
    exact Context.branch_inStep ((h scope).env κ).free cond (fun _ _ => trivial) parent follows []
      (Action.keeps_iff.mp (hthen scope _ _ _ _) κ) (Action.keeps_iff.mp (helse scope _ _ _ _) κ)
  | switch head selector keys bodies default hbodies hdefault =>
    intro scope parent follows
    rw [Guided.run]
    refine Action.Keeps.adds (Action.keeps_iff.mpr fun κ => ?_)
    refine Leads.andThen (Context.selectKey_inStep ((h scope).env κ).free selector
      fun _ _ => trivial) fun key => ?_
    rw [Guided.case_enterAll]
    rcases Switch.case_eq_default_or_mem ⟨keys, bodies, default⟩ key with hb | hb
    · rw [hb]
      exact Action.keeps_iff.mp (hdefault scope _ _ _ _) κ
    · exact Action.keeps_iff.mp (hbodies _ hb scope _ _ _ _) κ
  | define head d =>
    intro scope parent follows
    rw [Guided.run]
    exact (h scope).define head d
  | op head o =>
    intro scope parent follows
    rw [Guided.run]
    refine Action.Keeps.adds (Action.keeps_iff.mpr fun κ => ?_)
    exact Context.op_inStep o (Action.keeps_iff.mp ((h scope).opArgs o) κ) parent follows rfl
      fun args m => Action.keeps_iff.mp (Context.keeps_append _ _ _ _ args m) κ
  | command head spec =>
    intro scope parent follows
    rw [Guided.run]
    refine Action.Keeps.adds (Action.keeps_iff.mpr fun κ => ?_)
    exact Context.command_inStep ((h scope).env κ).free head (fun _ _ => trivial) spec
      (fun _ _ => trivial) fun command =>
        Action.keeps_iff.mp (Context.keeps_addCommand _ command) κ

theorem Keeps.runAll (h : c.Keeps) (scope : Scope) (statements : List (Statement α))
    (parent : Instance α) (follows : Bool) :
    Action.Pushes (statements.flatMap Statement.bound) (c.runAll scope statements parent follows) :=
  pushes_runAll parent follows (fun st _ scope => h.run st scope parent follows) scope

theorem Keeps.enterBody (h : c.Keeps) (scope : Scope) (fixed : Bool) (b : Body α)
    (parent : Instance α) (follows : Bool) (seed : List (Value α)) :
    Action.Keeps (c.enterBody scope fixed b parent follows seed) :=
  Keeps.enterBody_of (fun st _ => h.run st) scope fixed parent follows seed

end Guided

namespace Context

variable {c : Context σ α}

theorem Keeps.run (h : c.Keeps) (st : Statement α) (parent : Instance α) (follows : Bool) :
    Action.Adds st.bound (c.run st parent follows) := by
  have guided := Guided.Keeps.run (fun _ => h) st [] parent follows
  rwa [Guided.run_const] at guided

theorem Keeps.runAll (h : c.Keeps) (statements : List (Statement α)) (parent : Instance α)
    (follows : Bool) :
    Action.Pushes (statements.flatMap Statement.bound) (c.runAll statements parent follows) := by
  have guided := Guided.Keeps.runAll (fun _ => h) [] statements parent follows
  rwa [Guided.runAll_const] at guided

theorem Keeps.enterBody (h : c.Keeps) (b : Body α) (parent : Instance α) (follows : Bool)
    (seed : List (Value α)) : Action.Keeps (c.enterBody b parent follows seed) := by
  have guided := Guided.Keeps.enterBody (fun _ => h) [] false b parent follows seed
  rwa [Guided.enterBody_const] at guided

/-! ### Rules -/

theorem keeps_selectRule (shape : Shape α) :
    Action.Keeps (selectRule shape : Action σ α (Rule α)) := by
  unfold selectRule
  split
  · exact Action.keeps_problem _ _
  · exact Action.keeps_pure _
  · refine Action.keeps_of_state fun s => ?_
    refine Action.Keeps.bind (Action.keeps_update fun _ => rfl) fun _ => ?_
    split
    · exact Action.keeps_pure _
    · exact Action.keeps_fail nofun

theorem buildPath_nested (rule : Rule α) (body : Entering σ α) (params : List (Value α))
    {s : Session σ α} (hs : s.building.isSome) :
    (buildPath rule body params).run s = .failed (.fault (.broken .nestedPath)) s := by
  simp [buildPath, hs, Action.broken]

theorem buildPath_failed (rule : Rule α) {body : Entering σ α} {params : List (Value α)}
    {s t : Session σ α} {e : Stop} (hs : s.building = none)
    (hb : (body (.root rule.shape) false params).run s.opening = .failed e t) :
    (buildPath rule body params).run s = .failed e { t with building := none } := by
  rw [Session.opening] at hb
  simp [buildPath, collectPath, hs, hb]

/-- A body that runs to its end leaves an open path, which is finished and gets
the next identity. -/
theorem buildPath_ok (rule : Rule α) {body : Entering σ α} {params : List (Value α)}
    (h : Action.Keeps (body (.root rule.shape) false params)) {s t : Session σ α}
    (hs : s.building = none)
    (hb : (body (.root rule.shape) false params).run s.opening = .ok () t) :
    ∃ p, t.building = some p ∧ p.frame = s.stack.frameRef ∧ p.uid = none ∧ p.complete = false ∧
      (buildPath rule body params).run s =
        .ok { p.sealed with uid := some t.store.nextUid } { t with
          building := none, store := { t.store with nextUid := t.store.nextUid + 1 } } := by
  have control := h s.opening
  rw [hb] at control
  have stack : t.stack = s.stack := congrArg Control.stack control
  have opened : t.building.map (fun p => (p.frame, p.uid, p.complete)) =
      some (s.stack.frameRef, none, false) := congrArg Control.opened control
  obtain ⟨p, hp, same⟩ := Option.map_eq_some_iff.mp opened
  simp only [Prod.mk.injEq] at same
  obtain ⟨frame, uid, complete⟩ := same
  refine ⟨p, hp, frame, uid, complete, ?_⟩
  have resolves : t.stack.resolve p.frame ≠ none := by
    rw [frame, stack]
    simp [Stack.resolve, Stack.frameRef]
  rw [Session.opening] at hb
  simp [buildPath, collectPath, finishPath, hs, hb, hp, Path.Compiled.finish, uid, resolves]

/-- Two builds end alike when their bodies do. -/
theorem buildPath_meets (rule : Rule α) {σ' : Type} {body : Entering σ α} {body' : Entering σ' α}
    {params params' : List (Value α)} {s : Session σ α} {s' : Session σ' α}
    {d d' : Parting Stop Stop (Session σ α) (Session σ' α)}
    {Q Q' : Session σ α → Session σ' α → Prop}
    {same : Path.Compiled α → Path.Compiled α → Prop}
    (keeps : Action.Keeps (body (.root rule.shape) false params))
    (keeps' : Action.Keeps (body' (.root rule.shape) false params'))
    (hs : s.building = none) (hs' : s'.building = none)
    (ends : Meets d Q Eq ((body (.root rule.shape) false params).run s.opening)
      ((body' (.root rule.shape) false params').run s'.opening))
    (finish : ∀ t t' p p', Q t t' → t.building = some p → t'.building = some p' →
      p.frame = s.stack.frameRef → p'.frame = s'.stack.frameRef →
      same { p.sealed with uid := some t.store.nextUid }
          { p'.sealed with uid := some t'.store.nextUid } ∧
        Q' { t with building := none, store := { t.store with nextUid := t.store.nextUid + 1 } }
          { t' with building := none, store := { t'.store with nextUid := t'.store.nextUid + 1 } })
    (part : ∀ e e' t t', d.together e e' t t' →
      d'.together e e' { t with building := none } { t' with building := none })
    (alone : ∀ e, d.alone e → d'.alone e) :
    Meets d' Q' same ((buildPath rule body params).run s)
      ((buildPath rule body' params').run s') := by
  cases hx : (body (.root rule.shape) false params).run s.opening with
  | ok u t =>
    rw [hx] at ends
    cases hy : (body' (.root rule.shape) false params').run s'.opening with
    | ok u' t' =>
      rw [hy] at ends
      cases ends with
      | ok _ state =>
        obtain ⟨p, hp, frame, -, -, hrun⟩ := buildPath_ok rule keeps hs hx
        obtain ⟨p', hp', frame', -, -, hrun'⟩ := buildPath_ok rule keeps' hs' hy
        obtain ⟨value, state⟩ := finish t t' p p' state hp hp' frame frame'
        rw [hrun, hrun']
        exact .ok value state
    | failed e' t' =>
      rw [hy] at ends
      cases ends
  | failed e t =>
    rw [hx] at ends
    rw [buildPath_failed rule hs hx]
    generalize hy : (body' (.root rule.shape) false params').run s'.opening = o at ends
    cases ends with
    | together parted =>
      rw [buildPath_failed rule hs' hy]
      exact .together (part _ _ _ _ parted)
    | alone h => exact .alone (alone _ h)

theorem keeps_buildPath (rule : Rule α) {body : Entering σ α}
    (h : ∀ parent follows seed, Action.Keeps (body parent follows seed))
    (params : List (Value α)) : Action.Keeps (buildPath rule body params) := by
  intro s
  cases hs : s.building with
  | some p =>
    rw [buildPath_nested rule body params (by simp [hs])]
    exact ⟨nofun, rfl⟩
  | none =>
    have inner := h (.root rule.shape) false params s.opening
    let back (κ : Control α) : Control α := { κ with opened := none }
    have same : back s.opening.control = s.control := by
      simp [back, Session.opening, Session.control, hs]
    cases hb : (body (.root rule.shape) false params).run s.opening with
    | ok u t =>
      obtain ⟨p, -, -, -, -, hrun⟩ := buildPath_ok rule (h _ _ _) hs hb
      rw [hb] at inner
      rw [hrun]
      exact (congrArg back inner).trans same
    | failed e t =>
      rw [hb] at inner
      rw [buildPath_failed rule hs hb]
      exact ⟨inner.1, (congrArg back inner.2).trans same⟩

theorem keeps_keptPath (c : Context σ α) (rule : Rule α) {body : Entering σ α}
    (h : ∀ parent follows seed, Action.Keeps (body parent follows seed))
    (params : List (Value α)) : Action.Keeps (c.keptPath rule body params) := by
  unfold keptPath
  split
  · exact keeps_buildPath rule h params
  · refine Action.keeps_of_state fun s => ?_
    split
    · exact Action.keeps_pure _
    · refine (keeps_buildPath rule h params).bind fun p => ?_
      exact Action.Keeps.bind (Action.keeps_update fun _ => rfl) fun _ => Action.keeps_pure p

theorem keeps_pathRule (c : Context σ α) (rule : Rule α) {body : Entering σ α}
    (h : ∀ parent follows seed, Action.Keeps (body parent follows seed)) (i : Instance α) :
    Action.Keeps (c.pathRule rule body i) := by
  refine (keeps_keptPath c rule h i.params).bind fun p => ?_
  unfold Path.Compiled.identity
  cases p.uid with
  | none => exact Action.keeps_fail nofun
  | some uid =>
    simp only [drawCommands_eq]
    exact Action.keeps_update fun _ => rfl

theorem keeps_rule (c : Context σ α) (shape : Shape α) (rule : Rule α) {body : Entering σ α}
    (h : ∀ parent follows seed, Action.Keeps (body parent follows seed)) (i : Instance α) :
    Action.Keeps (c.rule shape rule body i) := by
  refine Action.keeps_of_state fun s => ?_
  refine Action.keeps_underView _ ?_
  split
  · exact keeps_pathRule c rule h i
  · exact h i true i.params

end Context

theorem Guided.Keeps.expandShape {c : Guided σ α} (h : c.Keeps) (globals : Scope)
    (i : Instance α) : Action.Keeps (c.expandShape globals i) := by
  unfold Guided.expandShape
  split
  · exact Action.keeps_fail nofun
  · split
    · exact Action.keeps_fail nofun
    · refine ((c globals).keeps_consult i).bind fun drawn => ?_
      split
      · refine Action.keeps_deeper ((Context.keeps_selectRule _).bind fun rule => ?_)
        exact Context.keeps_rule _ _ rule (h.enterBody globals false rule.body) i
      · exact Action.keeps_pure ()

/-! ### Runs -/

omit [Scalar α] in
/-- The globals stay on the stack, and from then on the session knows where they
end. -/
theorem Action.ends_based {names : List String} {x y : Action σ α Unit} (hx : Action.Pushes names x)
    (hy : Action.Keeps y) (slots : Nat) (s : Session σ α) :
    ((do
      x
      let t ← Attempt.state
      if t.stack.frameSize ≠ slots then Action.broken .globalFrame
      else
        Attempt.update fun t => { t with globalsEnd := t.stack.height }
        y : Action σ α Unit).run s).Ends
      (fun u => ∃ extra globalsEnd,
        u.control = { s.control.extend extra with globalsEnd := globalsEnd })
      fun e u => e.Contained ∧ ∃ extra globalsEnd,
        u.control = { s.control.extend extra with globalsEnd := globalsEnd } := by
  refine ends_bind (hx s) ?_ ?_
  · rintro e u ⟨contained, _, extra, -, control⟩
    exact ⟨contained, extra, s.globalsEnd, control⟩
  rintro _ u ⟨extra, -, control⟩
  simp only [run_bind, run_state]
  split
  · exact ⟨nofun, extra, s.globalsEnd, control⟩
  · refine ends_bind (I := fun w => w.control =
      { s.control.extend extra with globalsEnd := u.stack.height }) (F := fun _ _ => False) ?_
      (fun _ _ => False.elim) ?_
    · exact congrArg (fun κ : Control α => { κ with globalsEnd := u.stack.height }) control
    · intro _ w hw
      have ends := hy w
      generalize y.run w = o at ends ⊢
      cases o with
      | ok _ v => exact ⟨extra, _, ends.trans hw⟩
      | failed e v => exact ⟨ends.1, extra, _, ends.2.trans hw⟩

omit [Scalar α] in
theorem Action.stack_of_ends {o : Outcome Stop (Session σ α) Unit} {s : Session σ α}
    (ends : o.Ends
      (fun u => ∃ extra globalsEnd,
        u.control = { s.control.extend extra with globalsEnd := globalsEnd })
      fun e u => e.Contained ∧ ∃ extra globalsEnd,
        u.control = { s.control.extend extra with globalsEnd := globalsEnd }) :
    ∃ extra, o.state.stack = s.stack.extend extra := by
  cases o with
  | ok b u =>
    obtain ⟨extra, globalsEnd, control⟩ := ends
    exact ⟨extra, congrArg Control.stack control⟩
  | failed e u =>
    obtain ⟨-, extra, globalsEnd, control⟩ := ends
    exact ⟨extra, congrArg Control.stack control⟩

namespace Setting

section Guided

variable {t : Setting σ α} {env : Nat → Scope → Env Stop (Session σ α) α}
  (keeps : ∀ n scope, (env n scope).Keeps) (globals : Scope) (fuel : Nat)

include keeps

theorem guidedExpand_keeps (i : Instance α) : Action.Keeps (t.guidedExpand env globals fuel i) := by
  induction fuel generalizing i with
  | zero => exact Action.keeps_fail nofun
  | succ fuel ih => exact Guided.Keeps.expandShape (fun scope => ⟨keeps fuel scope, ih⟩) globals i

theorem guidedRunFrom_ends (start : Shape α) (s : Session σ α) :
    ((t.guidedRunFrom env globals fuel start).run s).Ends
      (fun u => ∃ extra globalsEnd,
        u.control = { s.control.extend extra with globalsEnd := globalsEnd })
      fun e u => e.Contained ∧ ∃ extra globalsEnd,
        u.control = { s.control.extend extra with globalsEnd := globalsEnd } := by
  have contexts : (t.guidedAt env fuel (t.guidedExpand env globals fuel)).Keeps :=
    fun scope => ⟨keeps fuel scope, guidedExpand_keeps keeps globals fuel⟩
  exact Action.ends_based (contexts.runAll [] t.grammar.globals.statements (.root start.index) true)
    (guidedExpand_keeps keeps globals fuel _) _ s

theorem guidedRunFrom_stack (start : Shape α) (s : Session σ α) :
    ∃ extra, ((t.guidedRunFrom env globals fuel start).run s).state.stack =
      s.stack.extend extra :=
  Action.stack_of_ends (guidedRunFrom_ends keeps globals fuel start s)

end Guided

theorem expand_keeps {t : Setting σ α} (ht : ∀ n, (t.environment n).Keeps) (fuel : Nat)
    (i : Instance α) : Action.Keeps (t.expand fuel i) := by
  rw [← guidedExpand_const t []]
  exact guidedExpand_keeps (fun n _ => ht n) [] fuel i

theorem runFrom_ends {t : Setting σ α} (ht : ∀ n, (t.environment n).Keeps) (fuel : Nat)
    (start : Shape α) (s : Session σ α) :
    ((t.runFrom fuel start).run s).Ends
      (fun u => ∃ extra globalsEnd,
        u.control = { s.control.extend extra with globalsEnd := globalsEnd })
      fun e u => e.Contained ∧ ∃ extra globalsEnd,
        u.control = { s.control.extend extra with globalsEnd := globalsEnd } := by
  rw [← guidedRunFrom_const t []]
  exact guidedRunFrom_ends (fun n _ => ht n) [] fuel start s

theorem runFrom_stack {t : Setting σ α} (ht : ∀ n, (t.environment n).Keeps) (fuel : Nat)
    (start : Shape α) (s : Session σ α) :
    ∃ extra, ((t.runFrom fuel start).run s).state.stack = s.stack.extend extra := by
  rw [← guidedRunFrom_const t []]
  exact guidedRunFrom_stack (fun n _ => ht n) [] fuel start s

theorem run_atRest {t : Setting σ α} (ht : ∀ n, (t.environment n).Keeps) (fuel start : Nat)
    {s : Session σ α} (hs : s.AtRest) :
    ((t.run fuel start).run s).Ends Session.AtRest fun e u => e.Contained ∧ u.AtRest := by
  unfold Setting.run
  split
  · exact ⟨nofun, hs⟩
  · split
    · exact ⟨nofun, hs⟩
    case isFalse shape _ _ =>
      let ready : Session σ α := { s with random := t.startRandom shape.name, view := .full }
      have ends := runFrom_ends ht fuel shape { ready with stack := ready.stack.pushFrame }
      change ((Action.inFrame (t.runFrom fuel shape)).run ready).Ends _ _
      rw [Action.wraps_inFrame (runFrom_stack ht fuel shape) ready]
      generalize (t.runFrom fuel shape).run { ready with stack := ready.stack.pushFrame } = o
        at ends ⊢
      cases o with
      | ok b u =>
        obtain ⟨extra, globalsEnd, control⟩ := ends
        exact hs.of_control control
      | failed e u =>
        obtain ⟨contained, extra, globalsEnd, control⟩ := ends
        exact ⟨contained, hs.of_control control⟩

end Setting

end ShapeGrammar
