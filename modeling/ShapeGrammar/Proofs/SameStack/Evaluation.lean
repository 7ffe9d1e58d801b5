import ShapeGrammar.Proofs.Restoration

/-!
# Evaluation on the same stack

Evaluation reads the slots, the frames, the view and the random source of a
session, and changes nothing but these. Two sessions that agree on them give
the same values, whatever else they differ in. With more fuel on one side the
other may run out of its own, which is the only way for the two to part.
-/

set_option autoImplicit false

namespace ShapeGrammar

open Attempt

variable {σ σ' α β : Type}

/-- Sessions that evaluation cannot tell apart, with `D` for all the rest. They may
have different numbers unless they are `numbered`. -/
structure Twins (numbered : Prop) (D : Session σ α → Session σ' α → Prop) (s : Session σ α)
    (s' : Session σ' α) : Prop where
  slots : s.stack.slots = s'.stack.slots
  frames : s.stack.frames = s'.stack.frames
  view : s.view = s'.view
  random : s.random = s'.random
  session : numbered → s.stack.session = s'.stack.session
  rest : D s s'

/-- The relation does not look at the stack, the view or the random source. -/
def Steady (D : Session σ α → Session σ' α → Prop) : Prop :=
  ∀ {s s'}, D s s' → ∀ stack stack' view view' random random',
    D { s with stack := stack, view := view, random := random }
      { s' with stack := stack', view := view', random := random' }

theorem Stack.lookup_congr {s s' : Stack α} (h : s.slots = s'.slots) (name : String) (v : View) :
    s.lookup name v = s'.lookup name v := by
  obtain ⟨slots, frames, session⟩ := s
  obtain ⟨slots', frames', session'⟩ := s'
  cases h
  cases v <;> rfl

namespace Twins

variable {numbered : Prop} {D : Session σ α → Session σ' α → Prop} {quits : Stop → Prop}

/-- Failures agree, unless the first side quits. -/
def parting (numbered : Prop) (D : Session σ α → Session σ' α → Prop) (quits : Stop → Prop) :
    Parting Stop Stop (Session σ α) (Session σ' α) where
  together e e' s s' := e = e' ∧ Twins numbered D s s'
  alone := quits

abbrev Level (numbered : Prop) (D : Session σ α → Session σ' α → Prop) (quits : Stop → Prop)
    (x : Action σ α β) (y : Action σ' α β) : Prop :=
  InStep (parting numbered D quits) (Twins numbered D) Eq x y

theorem height {s : Session σ α} {s' : Session σ' α} (h : Twins numbered D s s') :
    s.stack.height = s'.stack.height := congrArg Array.size h.slots

theorem frameRef {s : Session σ α} {s' : Session σ' α} (h : Twins numbered D s s')
    (yes : numbered) : s.stack.frameRef = s'.stack.frameRef := by
  rw [Stack.frameRef, Stack.frameRef, h.session yes, h.height]

theorem isTaken {s : Session σ α} {s' : Session σ' α} (h : Twins numbered D s s') (name : String) :
    s.stack.isTaken name = s'.stack.isTaken name := by
  simp only [Stack.isTaken, Stack.frameStart, h.height, h.slots, h.frames]

theorem frameSize {s : Session σ α} {s' : Session σ' α} (h : Twins numbered D s s') :
    s.stack.frameSize = s'.stack.frameSize := by
  simp only [Stack.frameSize, Stack.frameStart, h.height, h.frames]

theorem level_fail (e : Stop) :
    Level numbered D quits (Attempt.fail e : Action σ α β) (Attempt.fail e : Action σ' α β) :=
  Leads.fail fun _ _ h => ⟨rfl, h⟩

theorem level_of_state {f : Session σ α → Action σ α β} {g : Session σ' α → Action σ' α β}
    (h : ∀ s s', Twins numbered D s s' → Level numbered D quits (f s) (g s')) :
    Level numbered D quits (Attempt.state >>= f) (Attempt.state >>= g) :=
  Leads.bind Leads.state h

theorem level_underView (steady : Steady D) (view : View) {x : Action σ α β} {y : Action σ' α β}
    (h : Level numbered D quits x y) :
    Level numbered D quits (Action.underView view x) (Action.underView view y) := by
  refine Leads.wrap h (Action.wraps_underView view x) (Action.wraps_underView view y) ?_ ?_ ?_
    fun _ => id
  · exact fun _ _ hs => { hs with view := rfl, rest := steady hs.rest _ _ _ _ _ _ }
  · exact fun _ _ _ _ hs ht => { ht with view := hs.view, rest := steady ht.rest _ _ _ _ _ _ }
  · exact fun _ _ _ _ _ _ hs parted => ⟨parted.1,
      { parted.2 with view := hs.view, rest := steady parted.2.rest _ _ _ _ _ _ }⟩

theorem level_inFrame (steady : Steady D) {x : Action σ α β} {y : Action σ' α β}
    (hx : ∀ s, ∃ extra, (x.run s).state.stack = s.stack.extend extra)
    (hy : ∀ s, ∃ extra, (y.run s).state.stack = s.stack.extend extra) (h : Level numbered D quits x y) :
    Level numbered D quits (Action.inFrame x) (Action.inFrame y) := by
  refine Leads.wrap h (Action.wraps_inFrame hx) (Action.wraps_inFrame hy) ?_ ?_ ?_ fun _ => id
  · intro s s' hs
    have frames : s.stack.pushFrame.frames = s'.stack.pushFrame.frames := by
      simp [Stack.pushFrame, hs.frames, hs.height]
    exact { hs with frames := frames, rest := steady hs.rest _ _ _ _ _ _ }
  · exact fun _ _ _ _ hs ht => { ht with
      slots := hs.slots, frames := hs.frames, session := hs.session,
      rest := steady ht.rest _ _ _ _ _ _ }
  · exact fun _ _ _ _ _ _ hs parted => ⟨parted.1, { parted.2 with
      slots := hs.slots, frames := hs.frames, session := hs.session,
      rest := steady parted.2.rest _ _ _ _ _ _ }⟩

theorem level_bindName (steady : Steady D) (name : String) (binding : Binding α) (span : Span) :
    Level numbered D quits (Action.bindName name binding span : Action σ α Unit)
      (Action.bindName name binding span : Action σ' α Unit) := by
  intro s s' hs
  rw [Action.bindName_run, Action.bindName_run, hs.isTaken]
  split
  · exact .together ⟨rfl, hs⟩
  · exact .ok rfl
      { hs with slots := congrArg (· ++ _) hs.slots, rest := steady hs.rest _ _ _ _ _ _ }

theorem level_bindParams (steady : Steady D) (params : List Param) (values : List (Value α)) :
    Level numbered D quits (Action.bindParams params values : Action σ α Unit)
      (Action.bindParams params values : Action σ' α Unit) := by
  induction params generalizing values with
  | nil => exact Leads.pure rfl
  | cons p params ih =>
    cases values with
    | nil => exact Leads.pure rfl
    | cons v values => exact Leads.andThen (level_bindName steady _ _ _) fun _ => ih values

variable [Scalar α]

theorem environment_inStep (steady : Steady D) {body : Define α → Span → Action σ α (Value α)}
    {body' : Define α → Span → Action σ' α (Value α)}
    (keeps : ∀ d span, Action.Keeps (body d span)) (keeps' : ∀ d span, Action.Keeps (body' d span))
    (h : ∀ d span, Level numbered D quits (body d span) (body' d span)) :
    Env.InStep (parting numbered D quits) (Twins numbered D) True (fun _ => true)
      (Session.environment body) (Session.environment body') where
  lookup name span _ := by
    refine level_of_state fun s s' hs => ?_
    rw [Stack.lookup_congr hs.slots, hs.view]
    split
    · exact level_fail _
    · exact Leads.pure rfl
    · exact level_underView steady _ (h _ span)
    · exact level_fail _
  call name args span _ := by
    refine level_of_state fun s s' hs => ?_
    simp only [Stack.lookup_congr hs.slots, hs.view, hs.height]
    split
    case h_1 slot d _ =>
      split
      · exact level_fail _
      · split
        · exact level_fail _
        · refine level_inFrame steady (Action.pushes_calling d.params args _ (keeps d span)).stack
            (Action.pushes_calling d.params args _ (keeps' d span)).stack ?_
          refine Leads.andThen (level_bindParams steady d.params args) fun _ => ?_
          refine level_of_state fun t t' ht => ?_
          rw [ht.height]
          exact Leads.andThen (level_underView steady _ (h d span)) fun v => Leads.pure rfl
    case h_2 => exact Leads.pure rfl
  draw _ s s' hs := by
    simp only [Session.environment, hs.random]
    exact .some ⟨rfl, { hs with random := rfl, rest := steady hs.rest _ _ _ _ _ _ }⟩
  raise _ _ _ hs := ⟨rfl, hs⟩

/-- More fuel on the second side changes nothing as long as the first has enough. -/
theorem environmentAt_inStep (steady : Steady D) {n m : Nat} (hle : n ≤ m)
    (hq : n = m ∨ quits .outOfFuel) :
    Env.InStep (parting numbered D quits) (Twins numbered D) True (fun _ => true)
      (Session.environmentAt n : Env Stop (Session σ α) α)
      (Session.environmentAt m : Env Stop (Session σ' α) α) := by
  induction n generalizing m with
  | zero =>
    cases m with
    | zero =>
      exact environment_inStep steady (fun _ _ => Action.keeps_fail nofun)
        (fun _ _ => Action.keeps_fail nofun) fun _ _ => level_fail _
    | succ m =>
      refine environment_inStep steady (fun _ _ => Action.keeps_fail nofun)
        (Session.environmentAt_keeps m).evalDefine fun _ _ => Leads.failAlone ?_
      exact hq.resolve_left (by omega)
  | succ n ih =>
    cases m with
    | zero => omega
    | succ m =>
      refine environment_inStep steady (Session.environmentAt_keeps n).evalDefine
        (Session.environmentAt_keeps m).evalDefine fun d span => ?_
      exact (ih (by omega) (hq.imp_left (by omega))).evalDefine d span (.inl trivial)

end Twins

end ShapeGrammar
