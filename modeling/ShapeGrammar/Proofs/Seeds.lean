import ShapeGrammar.Proofs.KnownEnd.Store

/-!
# Runs that differ in their seeds

In a quiet grammar no draw is ever made, so two runs with different seeds or variations
go the same way and leave their random states as they found them. From one store the two
are equal in everything else, whatever the renderer.
-/

set_option autoImplicit false

namespace ShapeGrammar

open Attempt

variable {σ α β : Type} [Scalar α]

/-! ### Pairs for whole runs -/

structure Pairing.Agrees (k : Pairing σ α) (r : Renderer σ α) : Prop where
  cutoff : ∀ i depth a x b y, k.tied a x b y →
    (r.cutoff i depth x).1 = (r.cutoff i depth y).1 ∧
      k.tied a (r.cutoff i depth x).2 b (r.cutoff i depth y).2
  primitive : ∀ i p a x b y, k.tied a x b y →
    k.tied a (r.drawPrimitive i p x) b (r.drawPrimitive i p y)
  values : k.Values
  paths : k.Paths r

def Pairing.same (random random' : Random) : Pairing σ α where
  numbered := True
  random := random
  random' := random'
  tied a x b y := a = b ∧ x = y
  going _ := True
  ended _ := True
  back _ _ _ _ := trivial
  stops _ _ := trivial

theorem Pairing.same_agrees (random random' : Random) (r : Renderer σ α) :
    (Pairing.same random random').Agrees r where
  cutoff := by
    rintro i depth a x _ _ ⟨rfl, rfl⟩
    exact ⟨rfl, rfl, rfl⟩
  primitive := by
    rintro i p a x _ _ ⟨rfl, rfl⟩
    exact ⟨rfl, rfl⟩
  values :=
    { known := by
        rintro a x _ _ place v ⟨rfl, rfl⟩ found
        exact found
      kept := by
        rintro a x _ _ place v ⟨rfl, rfl⟩ - - -
        exact ⟨rfl, rfl⟩
      foreseen := by
        rintro a x _ _ place v w ⟨rfl, rfl⟩ missed found
        cases missed.symm.trans found
      due := by
        rintro a x _ _ place w ⟨rfl, rfl⟩ missed found
        cases missed.symm.trans found }
  paths :=
    { known := by
        rintro a x _ _ place p ⟨rfl, rfl⟩ found
        refine ⟨p, found, rfl, ?_⟩
        cases uid : p.uid with
        | none => exact .nameless uid uid ⟨rfl, rfl⟩
        | some u => exact .named uid uid fun _ _ => ⟨rfl, rfl⟩
      built := by
        rintro a x _ _ cell p p' ⟨rfl, rfl⟩ - alike frame uid uid' -
        cases Path.Compiled.eq_of_erased alike (uid.trans uid'.symm) (frame trivial)
        exact .named uid uid fun _ _ => ⟨rfl, rfl⟩
      foreseen := by
        rintro a c x _ _ place p p' ⟨rfl, rfl⟩ missed found
        cases missed.symm.trans found
      due := by
        rintro a c x _ _ place p' ⟨rfl, rfl⟩ missed found
        cases missed.symm.trans found }

omit [Scalar α] in
theorem Pairing.same_holds {s : Session σ α} (quiet : s.stack.Quiet) :
    (Pairing.same s.random s.random).Holds s s where
  slots := rfl
  frames := rfl
  view := rfl
  session _ := rfl
  quiet := quiet
  rest :=
    { random := rfl
      random' := rfl
      globalsEnd := rfl
      depth := rfl
      building := by
        cases s.building with
        | none => exact .none
        | some p => exact .some (.refl _ p)
      tied := ⟨rfl, rfl⟩ }

omit [Scalar α] in
theorem Context.BuildAlike.random {k : Pairing σ α}
    {o o' : Outcome Stop (Session σ α) (Path.Compiled α)} (h : BuildAlike k o o') :
    o.state.random = k.random := by
  cases h with
  | failed holds => exact holds.rest.random
  | built _ _ _ _ holds => exact holds.rest.random

/-- Building a path by a quiet rule makes no draw. -/
theorem Context.buildPath_calm {c : Context σ α}
    (h : ∀ random, c.Foreseen (Pairing.same random random)) {rule : Rule α}
    (quiet : rule.body.Quiet) (params : List (Value α)) {s : Session σ α} (hs : s.stack.Quiet) :
    ((buildPath rule (c.enterBody rule.body) params).run s).state.random = s.random := by
  have heads : (Pairing.same s.random s.random).Heads
      ((buildPath rule (c.enterBody rule.body) params).run s) := by
    generalize (buildPath rule (c.enterBody rule.body) params).run s = o
    cases o <;> exact trivial
  exact ((h s.random).buildPath quiet params (Pairing.same_holds hs) heads).random

/-! ### Expansions -/

namespace Setting

variable {k : Pairing σ α} {g : Grammar α} {r : Renderer σ α}

theorem contextAt_foreseen (agrees : k.Agrees r) (options : Options) (fuel : Nat)
    (expand : ∀ i, k.Foresees ((standard g r options).expand fuel i)
      ((standard g r options).expand fuel i)) :
    ((standard g r options).contextAt fuel ((standard g r options).expand fuel)).Foreseen k where
  keeps := ⟨Session.environmentAt_keeps fuel, expand_keeps Session.environmentAt_keeps fuel⟩
  env := ⟨fuel, rfl⟩
  cutoff := agrees.cutoff
  primitive := agrees.primitive
  value place _ span quiet := Context.foresees_keptValue rfl agrees.values quiet place span
  expand := expand

theorem suits_of_mem {d : Draft α} (drafted : d.Drafted) (built : d.build = .ok g)
    {shape : Shape α} (hs : shape ∈ g.shapes) {rule : Rule α} (hr : rule ∈ shape.rules) :
    rule.body.yield.Suits shape.isPath := by
  obtain ⟨i, hi⟩ := List.mem_iff_getElem?.mp hs
  obtain ⟨j, hj⟩ := List.mem_iff_getElem?.mp hr
  obtain ⟨b, of⟩ := Draft.build_rule drafted built hi hj
  rw [of.body, Body.yield_resolve]
  exact of.suits built

section Loaded

variable {d : Draft α} (drafted : d.Drafted) (built : d.build = .ok g) (quiet : g.Quiet)
  (options : Options)

include drafted built quiet

/-- One level more is foreseen if the levels below it are, and are so beside themselves. -/
theorem expand_foreseen_succ (agrees : k.Agrees r) {fuel : Nat}
    (ih : ∀ i, k.Foresees ((standard g r options).expand fuel i)
      ((standard g r options).expand fuel i))
    (calm : ∀ random i, (Pairing.same random random).Foresees
      ((standard g r options).expand fuel i) ((standard g r options).expand fuel i))
    (i : Instance α) :
    k.Foresees ((standard g r options).expand (fuel + 1) i)
      ((standard g r options).expand (fuel + 1) i) := by
  have foreseen := contextAt_foreseen agrees options fuel ih
  have beside := fun random =>
    contextAt_foreseen (Pairing.same_agrees random random r) options fuel (calm random)
  refine foreseen.expandShape quiet (fun shape hs isPath rule hr i => ?_) i
  have body := quiet.rules shape hs rule hr
  refine foreseen.pathRule agrees.paths body ?_ (fun params s hs =>
    Context.buildPath_calm beside body params hs) i
  exact isPath ▸ suits_of_mem drafted built hs hr

theorem expand_same (random random' : Random) (fuel : Nat) (i : Instance α) :
    (Pairing.same random random').Foresees ((standard g r options).expand fuel i)
      ((standard g r options).expand fuel i) := by
  induction fuel generalizing random random' i with
  | zero => exact .fail _
  | succ fuel ih =>
    exact expand_foreseen_succ drafted built quiet options (Pairing.same_agrees random random' r)
      (ih random random') (fun random => ih random random) i

theorem expand_foreseen (agrees : k.Agrees r) (fuel : Nat) (i : Instance α) :
    k.Foresees ((standard g r options).expand fuel i) ((standard g r options).expand fuel i) := by
  induction fuel generalizing i with
  | zero => exact .fail _
  | succ fuel ih =>
    exact expand_foreseen_succ drafted built quiet options agrees ih
      (fun random => expand_same drafted built quiet options random random fuel) i

/-! ### Runs -/

theorem runFrom_foreseen (agrees : k.Agrees r) (fuel : Nat) (shape : Shape α) :
    k.Foresees ((standard g r options).runFrom fuel shape)
      ((standard g r options).runFrom fuel shape) := by
  have expand := expand_foreseen drafted built quiet options agrees fuel
  have foreseen := contextAt_foreseen agrees options fuel expand
  have globals := fun st (hst : st ∈ g.globals.statements) => quiet.globals.statement hst
  refine (Context.Foreseen.runAll fun st hst =>
    foreseen.run st (globals st hst).1 (globals st hst).2 _ _).andThen fun _ => ?_
  refine .of_frameSize (f := fun size =>
    if size ≠ g.globals.slots then Action.broken .globalFrame
    else do
      Attempt.update fun s => { s with globalsEnd := s.stack.height }
      (standard g r options).expand fuel (.root shape.index)) fun size => ?_
  split
  · exact .fail _
  · refine Pairing.Foresees.andThen (.of_level (fun _ => rfl) (Leads.update fun s s' hs => ?_))
      fun _ => expand _
    exact { hs with rest := { hs.rest with globalsEnd := hs.height } }

end Loaded

theorem expand_options (g : Grammar α) (r : Renderer σ α) (options options' : Options)
    (fuel : Nat) : (standard g r options).expand fuel = (standard g r options').expand fuel := by
  induction fuel with
  | zero => rfl
  | succ fuel ih =>
    funext i
    rw [Setting.expand, Setting.expand, ih]
    rfl

theorem runFrom_options (g : Grammar α) (r : Renderer σ α) (options options' : Options)
    (fuel : Nat) (shape : Shape α) :
    (standard g r options).runFrom fuel shape = (standard g r options').runFrom fuel shape := by
  unfold runFrom
  rw [expand_options g r options options' fuel]
  rfl

def begun (t : Setting σ α) (shape : Shape α) (s : Session σ α) : Session σ α :=
  { s with random := t.startRandom shape.name, view := .full }

theorem run_eq {t : Setting σ α} {start : Nat} {shape : Shape α}
    (found : t.grammar.shapes[start]? = some shape) (takes : shape.params.length = 0)
    (fuel : Nat) (s : Session σ α) :
    (t.run fuel start).run s = (Action.inFrame (t.runFrom fuel shape)).run (t.begun shape s) := by
  simp only [Setting.run, found, takes]
  rfl

/-- A run begins, or it fails at once: there is no such shape, or it takes arguments. -/
theorem begins_or_fails (g : Grammar α) (r : Renderer σ α) (start : Nat) :
    (∃ shape, g.shapes[start]? = some shape ∧ shape.params.length = 0) ∨
      (∀ shape, g.shapes[start]? = some shape → shape.params.length ≠ 0) ∧
        ∃ e, ∀ options fuel, (standard g r options).run fuel start = Attempt.fail e := by
  cases found : g.shapes[start]? with
  | none =>
    refine .inr ⟨nofun, .fault (.grammar ⟨.none, .noSuchShape start⟩), fun options fuel => ?_⟩
    simp only [Setting.run, standard_grammar, found]
    rfl
  | some shape =>
    by_cases takes : shape.params.length = 0
    · exact .inl ⟨shape, rfl, takes⟩
    · refine .inr ⟨fun other same => Option.some.inj same ▸ takes,
        .fault (.grammar ⟨.none, .startArguments shape.name shape.params.length⟩),
        fun options fuel => ?_⟩
      simp only [Setting.run, standard_grammar, found]
      rw [if_pos takes]
      rfl

/-- Two runs that begin in sessions with all in common end so, where the first leads to
what is known of its end. -/
theorem run_foreseen {d : Draft α} (drafted : d.Drafted) (built : d.build = .ok g)
    (quiet : g.Quiet) (agrees : k.Agrees r) (options options' : Options) {start : Nat}
    {shape : Shape α} (found : g.shapes[start]? = some shape) (takes : shape.params.length = 0)
    (fuel : Nat) {s s' : Session σ α}
    (holds : k.Holds ((standard g r options).begun shape s)
      ((standard g r options').begun shape s'))
    (heads : k.Heads (((standard g r options).run fuel start).run s)) :
    Meets (Parting.alike k.Holds) k.Holds Eq (((standard g r options).run fuel start).run s)
      (((standard g r options').run fuel start).run s') := by
  have stack := runFrom_stack (t := standard g r options) Session.environmentAt_keeps fuel shape
  have foreseen := (runFrom_foreseen drafted built quiet options agrees fuel shape).inFrame stack
    stack
  rw [run_eq found takes] at heads ⊢
  rw [run_eq found takes, ← runFrom_options g r options options']
  exact foreseen.meets _ _ holds heads

end Setting

/-! ### Runs from one store -/

def Session.reseeded (random : Random) (s : Session σ α) : Session σ α :=
  { s with random := random }

omit [Scalar α] in
theorem Pairing.same_reseeded {first second : Random} {s s' : Session σ α}
    (h : (Pairing.same first second).Holds s s') (random : Random) :
    s'.reseeded random = s.reseeded random := by
  have determined : ∀ a b : Stack α, a.slots = b.slots → a.frames = b.frames →
      a.session = b.session → a = b := by
    rintro ⟨_, _, _⟩ ⟨_, _, _⟩ rfl rfl rfl
    rfl
  have stack := determined _ _ h.slots h.frames (h.session trivial)
  have building : s.building = s'.building := by
    have open_ := h.rest.building
    generalize s.building = o at open_ ⊢
    generalize s'.building = o' at open_ ⊢
    cases open_ with
    | none => rfl
    | some kin => exact congrArg some (kin.eq trivial)
  obtain ⟨store, renderer⟩ := h.rest.tied
  unfold Session.reseeded
  rw [stack, building, h.view, h.rest.globalsEnd, h.rest.depth, store, renderer]

omit [Scalar α] in
/-- Outcomes of paired runs, as far as their random states go. -/
theorem Meets.random {k : Pairing σ α} {o o' : Outcome Stop (Session σ α) β}
    (h : Meets (Parting.alike k.Holds) k.Holds Eq o o') :
    o.state.random = k.random ∧ o'.state.random = k.random' := by
  cases h with
  | ok _ holds => exact ⟨holds.rest.random, holds.rest.random'⟩
  | together parted => exact ⟨parted.2.rest.random, parted.2.rest.random'⟩
  | alone never => exact never.elim

omit [Scalar α] in
theorem Meets.reseeded {first second : Random} {o o' : Outcome Stop (Session σ α) β}
    (h : Meets (Parting.alike (Pairing.same first second).Holds) (Pairing.same first second).Holds
      Eq o o') (random : Random) :
    o'.mapState (Session.reseeded random) = o.mapState (Session.reseeded random) := by
  cases h with
  | ok value holds =>
    cases value
    exact congrArg (Outcome.ok _) (Pairing.same_reseeded holds random)
  | together parted =>
    obtain ⟨rfl, holds⟩ := parted
    exact congrArg (Outcome.failed _) (Pairing.same_reseeded holds random)
  | alone never => exact never.elim

namespace Setting

/-- From one store, runs with different seeds and variations differ in their random
states only, and these are what they started with. -/
theorem run_reseeded {d : Draft α} {g : Grammar α} (drafted : d.Drafted) (built : d.build = .ok g)
    (quiet : g.Quiet) (r : Renderer σ α) (options options' : Options) (fuel start : Nat)
    {s : Session σ α} (empty : s.stack.Quiet) (seed : Random) :
    let first := ((standard g r options).run fuel start).run s
    let second := ((standard g r options').run fuel start).run (s.reseeded seed)
    (∀ random, second.mapState (Session.reseeded random) =
      first.mapState (Session.reseeded random)) ∧
    ∀ shape, g.shapes[start]? = some shape → shape.params.length = 0 →
      first.state.random = (standard g r options).startRandom shape.name ∧
        second.state.random = (standard g r options').startRandom shape.name := by
  intro first second
  rcases begins_or_fails g r start with ⟨shape, found, takes⟩ | ⟨refused, e, fails⟩
  · let k : Pairing σ α := .same ((standard g r options).startRandom shape.name)
      ((standard g r options').startRandom shape.name)
    have beside := Pairing.same_holds empty
    have holds : k.Holds ((standard g r options).begun shape s)
        ((standard g r options').begun shape (s.reseeded seed)) := { beside with
      view := rfl
      rest := { beside.rest with random := rfl, random' := rfl } }
    have heads : k.Heads first := by
      cases first <;> exact trivial
    have meets := run_foreseen drafted built quiet (Pairing.same_agrees _ _ r) options options'
      found takes fuel holds heads
    refine ⟨meets.reseeded, fun other found' _ => ?_⟩
    cases found.symm.trans found'
    exact meets.random
  · refine ⟨fun random => ?_, fun shape found takes => absurd takes (refused shape found)⟩
    simp only [first, second, fails, run_fail, Outcome.mapState]
    rfl

end Setting

end ShapeGrammar
