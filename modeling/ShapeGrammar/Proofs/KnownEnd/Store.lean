import ShapeGrammar.Proofs.Accounts
import ShapeGrammar.Proofs.KnownEnd.Statements

/-!
# Stores of two runs, one of them known to its end

A value or a path is found, or else it is worked out and kept. Of two runs both may find
it, both may work it out, or the second may find what the first has to work out. What the
stores must have in common for this to come to the same is said here once, for values and
for paths, so that only the stores have to be looked at afterwards.
-/

set_option autoImplicit false

namespace ShapeGrammar

open Attempt

variable {σ α β : Type}

def Store.gain (a : Store α) (cell : Option Address) (p : Path.Compiled α) : Store α :=
  { a with nextUid := a.nextUid + 1, paths := cell.toList.map (·, p) ++ a.paths }

theorem Session.keepPath_numbered (t : Session σ α) (cell : Option Address)
    (p : Path.Compiled α) :
    t.numbered.keepPath cell p = { t with store := t.store.gain cell p } := by
  cases cell <;> rfl

theorem Session.within_keepPath {s t : Session σ α} {cell : Option Address}
    (missed : ∀ place, cell = some place → s.store.paths.lookup place = none)
    (grows : s.store.Within t.store) (p : Path.Compiled α) :
    s.store.Within (t.keepPath cell p).store := by
  cases cell with
  | none => exact grows
  | some place =>
    refine ⟨grows.values, fun other q found => ?_⟩
    exact lookup_cons_of_missed (missed place rfl) found (grows.paths other q found)

namespace Pairing

variable {k : Pairing σ α}

structure Values (k : Pairing σ α) : Prop where
  known : ∀ a x b y place v, k.tied a x b y → a.values.lookup place = some v →
    b.values.lookup place = some v
  kept : ∀ a x b y place v, k.tied a x b y → a.values.lookup place = none →
    b.values.lookup place = none → k.going (a.keep place v) →
      k.tied (a.keep place v) x (b.keep place v) y
  foreseen : ∀ a x b y place v w, k.tied a x b y → a.values.lookup place = none →
    b.values.lookup place = some w → k.going (a.keep place v) →
      w = v ∧ k.tied (a.keep place v) x b y
  due : ∀ a x b y place w, k.tied a x b y → a.values.lookup place = none →
    b.values.lookup place = some w → ¬ k.ended a

variable [Scalar α]

inductive Draws (k : Pairing σ α) (r : Renderer σ α) (p p' : Path.Compiled α) (a : Store α) (x : σ)
    (b : Store α) (y : σ) : Prop
  | nameless (uid : p.uid = none) (uid' : p'.uid = none) (tied : k.tied a x b y)
  | named {u u' : Nat} (uid : p.uid = some u) (uid' : p'.uid = some u')
      (tied : ∀ i commands, k.tied a (r.drawAll i u p commands x) b (r.drawAll i u' p' commands y))

structure Paths (k : Pairing σ α) (r : Renderer σ α) : Prop where
  known : ∀ a x b y place p, k.tied a x b y → a.paths.lookup place = some p →
    ∃ p', b.paths.lookup place = some p' ∧ p.erased = p'.erased ∧ k.Draws r p p' a x b y
  built : ∀ a x b y cell p p', k.tied a x b y →
    (∀ place, cell = some place → b.paths.lookup place = none) → p.erased = p'.erased →
      (k.numbered → p.frame = p'.frame) → p.uid = some a.nextUid → p'.uid = some b.nextUid →
        k.going (a.gain cell p) → k.Draws r p p' (a.gain cell p) x (b.gain cell p') y
  foreseen : ∀ a c x b y place p p', k.tied a x b y → a.paths.lookup place = none →
    b.paths.lookup place = some p' → a.Within c → c.paths = a.paths → c.nextUid = a.nextUid →
      p.uid = some c.nextUid → k.going (c.gain (some place) p) →
        p = p' ∧ k.Draws r p p' (c.gain (some place) p) x b y
  due : ∀ a c x b y place p', k.tied a x b y → a.paths.lookup place = none →
    b.paths.lookup place = some p' → c.paths = a.paths → ¬ k.ended c

end Pairing

variable [Scalar α]

namespace Context

variable {k : Pairing σ α} {c : Context σ α}

/-! ### Values -/

theorem keptValue_hit {place : Address} {s : Session σ α} {v : Value α}
    (found : s.store.values.lookup place = some v) (d : Define α) (span : Span) :
    (c.keptValue place d span).run s = .ok v s := by
  simp [keptValue, found]

theorem keptValue_miss {place : Address} {s : Session σ α}
    (missed : s.store.values.lookup place = none) (d : Define α) (span : Span) :
    (c.keptValue place d span).run s =
      match (c.env.evalDefine d span).run s with
      | .ok v t => .ok v { t with store := t.store.keep place v }
      | .failed e t => .failed e t := by
  simp only [keptValue, run_bind, run_state, missed]
  cases (c.env.evalDefine d span).run s <;> rfl

theorem reads_evalDefine {d : Define α} (quiet : d.body.Quiet) (span : Span) :
    c.Reads (c.env.evalDefine d span) :=
  fun _ _ _ env => env.evalDefine d span quiet

theorem forward_keptValue {fuel : Nat} (env : c.env = Session.environmentAt fuel)
    {d : Define α} (quiet : d.body.Quiet) (place : Address) (span : Span) :
    (c.keptValue place d span).Forward := by
  intro s
  cases found : s.store.values.lookup place with
  | some v =>
    rw [keptValue_hit found]
    exact .refl _
  | none =>
    have store := (reads_evalDefine quiet span).store env s
    rw [keptValue_miss found]
    generalize (c.env.evalDefine d span).run s = o at store ⊢
    cases o with
    | ok v t =>
      have store : t.store = s.store := store
      exact store.symm ▸ Store.within_keep found v
    | failed e t =>
      have store : t.store = s.store := store
      exact store.symm ▸ .refl _

/-- What the first side evaluates, the second evaluates as well or has found. -/
theorem foresees_keptValue {fuel : Nat} (env : c.env = Session.environmentAt fuel)
    (values : k.Values) {d : Define α} (quiet : d.body.Quiet) (place : Address) (span : Span) :
    k.Foresees (c.keptValue place d span) (c.keptValue place d span) where
  forward := forward_keptValue env quiet place span
  meets s s' hs heads := by
    have tied := hs.rest.tied
    cases found : s.store.values.lookup place with
    | some v =>
      rw [keptValue_hit found, keptValue_hit (values.known _ _ _ _ place v tied found)]
      exact .ok rfl hs
    | none =>
      have alike := hs.evalDefine_alike Pairing.unmoved fuel quiet span
      rw [← env] at alike
      rw [keptValue_miss found] at heads ⊢
      rcases alike with ⟨v, run, run'⟩ | ⟨e, run, run'⟩
      · rw [run] at heads ⊢
        cases found' : s'.store.values.lookup place with
        | some w =>
          rw [keptValue_hit found']
          obtain ⟨rfl, after⟩ := values.foreseen _ _ _ _ place v w tied found found' heads
          exact .ok rfl { hs with rest := { hs.rest with tied := after } }
        | none =>
          rw [keptValue_miss found', run']
          have after := values.kept _ _ _ _ place v tied found found' heads
          exact .ok rfl { hs with rest := { hs.rest with tied := after } }
      · rw [run] at heads ⊢
        cases found' : s'.store.values.lookup place with
        | some w => exact absurd heads (values.due _ _ _ _ place w tied found found')
        | none =>
          rw [keptValue_miss found', run']
          exact .together ⟨rfl, hs⟩

/-! ### Paths that are built -/

/-- Two builds end alike: they fail, or the next identities go to paths that have all the
rest in common. -/
inductive BuildAlike (k : Pairing σ α) : Outcome Stop (Session σ α) (Path.Compiled α) →
    Outcome Stop (Session σ α) (Path.Compiled α) → Prop
  | failed {e : Stop} {t t' : Session σ α} (holds : k.Holds t t') :
      BuildAlike k (.failed e t) (.failed e t')
  | built {p p' : Path.Compiled α} {t t' : Session σ α} (alike : p.erased = p'.erased)
      (frame : k.numbered → p.frame = p'.frame) (uid : p.uid = some t.store.nextUid)
      (uid' : p'.uid = some t'.store.nextUid) (holds : k.Holds t t') :
      BuildAlike k (.ok p t.numbered) (.ok p' t'.numbered)

theorem BuildAlike.closed {t t' : Session σ α} (holds : k.Holds t t') {p p' : Path.Compiled α}
    (hp : t.building = some p) (hp' : t'.building = some p') :
    BuildAlike k
      (.ok { p.sealed with uid := some t.store.nextUid }
        (Session.numbered { t with building := none }))
      (.ok { p'.sealed with uid := some t'.store.nextUid }
        (Session.numbered { t' with building := none })) := by
  have kin := holds.rest.building
  rw [hp, hp'] at kin
  cases kin with
  | some kin =>
    have closed : k.Holds { t with building := none } { t' with building := none } :=
      { holds with rest := { holds.rest with building := .none } }
    have frame : k.numbered → p.sealed.frame = p'.sealed.frame := fun yes =>
      (p.sealed_frame.trans (kin.frame yes)).trans p'.sealed_frame.symm
    exact .built (Path.Compiled.sealed_alike kin.drawn) frame rfl rfl closed

theorem Foreseen.buildPath (h : c.Foreseen k) {rule : Rule α} (quiet : rule.body.Quiet)
    (params : List (Value α)) {s s' : Session σ α} (hs : k.Holds s s')
    (heads : k.Heads ((buildPath rule (c.enterBody rule.body) params).run s)) :
    BuildAlike k ((buildPath rule (c.enterBody rule.body) params).run s)
      ((buildPath rule (c.enterBody rule.body) params).run s') := by
  have keeps := h.keeps.enterBody rule.body (.root rule.shape) false params
  have open_ := hs.rest.building
  generalize building : s.building = q at open_
  generalize building' : s'.building = q' at open_
  cases open_ with
  | some _ =>
    rw [buildPath_nested rule _ params (by simp [building]),
      buildPath_nested rule _ params (by simp [building'])]
    exact .failed hs
  | none =>
    have opening : k.Holds s.opening s'.opening := { hs with
      rest := { hs.rest with building := .some ⟨rfl, rfl, fun yes => hs.twins.frameRef yes⟩ } }
    have inside := (h.enterBody quiet (.root rule.shape) false params).meets _ _ opening
    generalize second : (c.enterBody rule.body (.root rule.shape) false params).run s'.opening = o
      at inside
    cases first : (c.enterBody rule.body (.root rule.shape) false params).run s.opening with
    | failed e t =>
      rw [first] at inside
      rw [buildPath_failed rule building first] at heads ⊢
      cases inside heads with
      | together parted =>
        obtain ⟨rfl, holds⟩ := parted
        rw [buildPath_failed rule building' second]
        exact .failed { holds with rest := { holds.rest with building := .none } }
      | alone never => exact never.elim
    | ok u t =>
      rw [first] at inside
      obtain ⟨p, hp, -, -, -, run⟩ := buildPath_ok rule keeps building first
      rw [run] at heads ⊢
      have going : k.going t.store :=
        k.back t.store t.numbered.store ⟨fun _ _ => id, fun _ _ => id⟩ heads
      cases inside going with
      | @ok _ _ _ t' _ holds =>
        obtain ⟨p', hp', -, -, -, run'⟩ := buildPath_ok rule keeps building' second
        rw [run']
        exact .closed holds hp hp'

theorem Foreseen.forward_buildPath (h : c.Foreseen k) {rule : Rule α} (quiet : rule.body.Quiet)
    (params : List (Value α)) :
    (Context.buildPath rule (c.enterBody rule.body) params).Forward := by
  intro s
  cases building : s.building with
  | some p =>
    rw [buildPath_nested rule _ params (by simp [building])]
    exact .refl _
  | none =>
    have grows := (h.enterBody quiet (.root rule.shape) false params).forward s.opening
    cases run : (c.enterBody rule.body (.root rule.shape) false params).run s.opening with
    | failed e t =>
      rw [run] at grows
      rw [buildPath_failed rule building run]
      exact grows
    | ok u t =>
      rw [run] at grows
      obtain ⟨p, -, -, -, -, built⟩ := buildPath_ok rule
        (h.keeps.enterBody rule.body (.root rule.shape) false params) building run
      rw [built]
      exact ⟨grows.values, grows.paths⟩

/-- A build by itself gives out the next identity and keeps values at most. -/
theorem Foreseen.build_alone (h : c.Foreseen k) {rule : Rule α}
    (suits : rule.body.yield.Suits true) (params : List (Value α)) {s : Session σ α}
    (calm : ((Context.buildPath rule (c.enterBody rule.body) params).run s).state.random =
      s.random) :
    match (Context.buildPath rule (c.enterBody rule.body) params).run s with
    | .ok p t => p.uid = some s.store.nextUid ∧ t = { s with store := t.store } ∧
        t.store.paths = s.store.paths ∧ t.store.nextUid = s.store.nextUid + 1
    | .failed _ t => t.store.paths = s.store.paths := by
  obtain ⟨fuel, env⟩ := h.env
  have books := buildPath_books h.keeps (fun course => env ▸ course.environmentAt fuel) suits
    params s
  have control := keeps_buildPath rule (h.keeps.enterBody rule.body) params s
  cases run : (Context.buildPath rule (c.enterBody rule.body) params).run s with
  | failed e t =>
    rw [run] at books
    exact congrArg Books.paths books
  | ok p t =>
    rw [run] at books control calm
    obtain ⟨uid, -, books⟩ := books
    have building : t.building = s.building := by
      cases closed : s.building with
      | some q =>
        rw [buildPath_nested rule _ params (by simp [closed])] at run
        cases run
      | none =>
        have opened := congrArg Control.opened control
        simpa [Session.control, closed] using opened
    refine ⟨uid, ?_, congrArg Books.paths books, congrArg Books.nextUid books⟩
    have stack : t.stack = s.stack := congrArg Control.stack control
    have view : t.view = s.view := congrArg Control.view control
    have globalsEnd : t.globalsEnd = s.globalsEnd := congrArg Control.globalsEnd control
    have depth : t.depth = s.depth := congrArg Control.depth control
    have random : t.random = s.random := calm
    have renderer : t.renderer = s.renderer := congrArg Books.renderer books
    rw [← stack, ← view, ← globalsEnd, ← depth, ← building, ← random, ← renderer]

/-! ### Paths that are fetched -/

/-- Two sides fetch the path of a rule: they fail, or each has a path to draw. -/
inductive FetchAlike (k : Pairing σ α) (r : Renderer σ α) :
    Outcome Stop (Session σ α) (Path.Compiled α) →
      Outcome Stop (Session σ α) (Path.Compiled α) → Prop
  | failed {e : Stop} {t t' : Session σ α} (holds : k.Holds t t') :
      FetchAlike k r (.failed e t) (.failed e t')
  | fetched {p p' : Path.Compiled α} {t t' : Session σ α} (alike : p.erased = p'.erased)
      (draws : k.Draws r p p' t.store t.renderer t'.store t'.renderer)
      (rest : ∀ x y, k.tied t.store x t'.store y →
        k.Holds { t with renderer := x } { t' with renderer := y }) :
      FetchAlike k r (.ok p t) (.ok p' t')

section Fetching

variable {rule : Rule α} (h : c.Foreseen k) (paths : k.Paths c.renderer)
  (quiet : rule.body.Quiet) (suits : rule.body.yield.Suits true) {params : List (Value α)}
  (calm : ∀ s : Session σ α, s.stack.Quiet →
    ((Context.buildPath rule (c.enterBody rule.body) params).run s).state.random = s.random)
  {s s' : Session σ α} (hs : k.Holds s s')
  (heads : k.Heads ((c.keptPath rule (c.enterBody rule.body) params).run s))

include h paths quiet suits calm hs heads

/-- Both sides miss the path and build it. -/
theorem Foreseen.fetch_built
    (missed : ∀ place, c.cellOf rule = some place → s.store.paths.lookup place = none)
    (missed' : ∀ place, c.cellOf rule = some place → s'.store.paths.lookup place = none) :
    FetchAlike k c.renderer ((c.keptPath rule (c.enterBody rule.body) params).run s)
      ((c.keptPath rule (c.enterBody rule.body) params).run s') := by
  have build := h.buildPath quiet params hs
  have alone := h.build_alone suits params (calm s hs.quiet)
  have alone' := h.build_alone suits params (calm s' hs.quiet')
  rw [keptPath_miss missed] at heads ⊢
  rw [keptPath_miss missed']
  generalize (Context.buildPath rule (c.enterBody rule.body) params).run s' = o' at build alone' ⊢
  cases first : (Context.buildPath rule (c.enterBody rule.body) params).run s with
  | failed e t =>
    rw [first] at heads build
    cases build heads with
    | failed holds => exact .failed holds
  | ok p u =>
    rw [first] at heads build alone
    obtain ⟨-, -, same, -⟩ := alone
    rw [← same] at missed
    have going : k.going u.store := k.back _ _ (Session.within_keepPath missed (.refl _) p) heads
    cases build going with
    | @built _ p' t t' alike frame uid uid' holds =>
      obtain ⟨-, -, same', -⟩ := alone'
      rw [← same'] at missed'
      change k.going (t.numbered.keepPath (c.cellOf rule) p).store at heads
      change FetchAlike k c.renderer (.ok p (t.numbered.keepPath (c.cellOf rule) p))
        (.ok p' (t'.numbered.keepPath (c.cellOf rule) p'))
      rw [Session.keepPath_numbered] at heads ⊢
      rw [Session.keepPath_numbered]
      refine .fetched alike ?_ fun x y tied => ?_
      · exact paths.built _ _ _ _ _ p p' holds.rest.tied missed' alike frame uid uid' heads
      · exact { holds with rest := { holds.rest with tied := tied } }

/-- The second side has the path that the first is about to build. -/
theorem Foreseen.fetch_foreseen
    (missed : ∀ place, c.cellOf rule = some place → s.store.paths.lookup place = none)
    {place : Address} (cell : c.cellOf rule = some place) {p' : Path.Compiled α}
    (found : s'.store.paths.lookup place = some p') :
    FetchAlike k c.renderer ((c.keptPath rule (c.enterBody rule.body) params).run s)
      ((c.keptPath rule (c.enterBody rule.body) params).run s') := by
  have alone := h.build_alone suits params (calm s hs.quiet)
  have grows := h.forward_buildPath quiet params s
  rw [keptPath_miss missed] at heads ⊢
  rw [keptPath_hit cell found]
  cases first : (Context.buildPath rule (c.enterBody rule.body) params).run s with
  | failed e t =>
    rw [first] at heads alone
    exact absurd heads (paths.due _ t.store _ _ _ place p' hs.rest.tied (missed place cell) found
      alone)
  | ok p t =>
    rw [first] at heads alone grows
    obtain ⟨uid, same, untouched, next⟩ := alone
    -- The store as it was before the identity was given out.
    let a : Store α := { t.store with nextUid := s.store.nextUid }
    have kept : t.keepPath (c.cellOf rule) p = { s with store := a.gain (some place) p } := by
      rw [same, cell]
      simp [Session.keepPath, Store.gain, a, ← next]
    change k.going (t.keepPath (c.cellOf rule) p).store at heads
    change FetchAlike k c.renderer (.ok p (t.keepPath (c.cellOf rule) p)) (.ok p' s')
    rw [kept] at heads ⊢
    obtain ⟨rfl, draws⟩ := paths.foreseen s.store a _ _ _ place p p' hs.rest.tied
      (missed place cell) found ⟨grows.values, grows.paths⟩ untouched rfl uid heads
    exact .fetched rfl draws fun x y tied => { hs with rest := { hs.rest with tied := tied } }

/-- Whatever the stores hold of it, both sides come to the path of the rule. -/
theorem Foreseen.fetch :
    FetchAlike k c.renderer ((c.keptPath rule (c.enterBody rule.body) params).run s)
      ((c.keptPath rule (c.enterBody rule.body) params).run s') := by
  rcases c.stock rule s with ⟨place, p, cell, found⟩ | missed
  · obtain ⟨p', found', alike, draws⟩ := paths.known _ _ _ _ place p hs.rest.tied found
    rw [keptPath_hit cell found, keptPath_hit cell found']
    exact .fetched alike draws fun x y tied => { hs with rest := { hs.rest with tied := tied } }
  · rcases c.stock rule s' with ⟨place, p', cell, found⟩ | missed'
    · exact h.fetch_foreseen paths quiet suits calm hs heads missed cell found
    · exact h.fetch_built paths quiet suits calm hs heads missed missed'

end Fetching

/-! ### Path rules -/

def drawWhole (c : Context σ α) (i : Instance α) (p : Path.Compiled α) : Action σ α Unit :=
  match p.identity with
  | .error what => Action.broken what
  | .ok uid => c.drawCommands i uid p p.allCommands

theorem drawWhole_named {p : Path.Compiled α} {uid : Nat} (named : p.uid = some uid)
    (c : Context σ α) (i : Instance α) (t : Session σ α) :
    (c.drawWhole i p).run t = .ok () { t with
      renderer := c.renderer.drawAll i uid p p.allCommands t.renderer } := by
  simp only [drawWhole, Path.Compiled.identity, named, drawCommands_eq, run_update]

theorem drawWhole_nameless {p : Path.Compiled α} (nameless : p.uid = none) (c : Context σ α)
    (i : Instance α) (t : Session σ α) :
    (c.drawWhole i p).run t = .failed (.fault (.broken .noIdentity)) t := by
  simp only [drawWhole, Path.Compiled.identity, nameless]
  rfl

theorem forward_drawWhole (c : Context σ α) (i : Instance α) (p : Path.Compiled α) :
    (c.drawWhole i p).Forward := by
  refine Action.forward_of_store fun t => ?_
  cases uid : p.uid with
  | none => rw [drawWhole_nameless uid]; rfl
  | some u => rw [drawWhole_named uid]; rfl

theorem FetchAlike.drawWhole {x y : Action σ α (Path.Compiled α)} {s s' : Session σ α}
    (h : FetchAlike k c.renderer (x.run s) (y.run s')) (i : Instance α) :
    Meets (Parting.alike k.Holds) k.Holds Eq ((x >>= c.drawWhole i).run s)
      ((y >>= c.drawWhole i).run s') := by
  rw [run_bind, run_bind]
  generalize x.run s = o at h ⊢
  generalize y.run s' = o' at h ⊢
  cases h with
  | failed holds => exact .together ⟨rfl, holds⟩
  | @fetched p p' t t' alike draws rest =>
    cases draws with
    | nameless uid uid' tied =>
      simp only [drawWhole_nameless uid, drawWhole_nameless uid']
      exact .together ⟨rfl, rest _ _ tied⟩
    | named uid uid' tied =>
      have commands : p.allCommands = p'.allCommands := by
        rw [← p.allCommands_erased, ← p'.allCommands_erased, alike]
      simp only [drawWhole_named uid, drawWhole_named uid', commands]
      exact .ok rfl (rest _ _ (tied i _))

theorem forward_keptPath (h : c.Foreseen k) {rule : Rule α} (quiet : rule.body.Quiet)
    (params : List (Value α)) : (c.keptPath rule (c.enterBody rule.body) params).Forward := by
  intro s
  rcases c.stock rule s with ⟨place, p, cell, found⟩ | missed
  · rw [keptPath_hit cell found]
    exact .refl _
  · have grows := h.forward_buildPath quiet params s
    rw [keptPath_miss missed]
    generalize (Context.buildPath rule (c.enterBody rule.body) params).run s = o at grows ⊢
    cases o with
    | ok p t => exact Session.within_keepPath missed grows p
    | failed e t => exact grows

/-- The rule of a path is foreseen if its body is quiet. -/
theorem Foreseen.pathRule (h : c.Foreseen k) (paths : k.Paths c.renderer) {rule : Rule α}
    (quiet : rule.body.Quiet) (suits : rule.body.yield.Suits true)
    (calm : ∀ params (s : Session σ α), s.stack.Quiet →
      ((Context.buildPath rule (c.enterBody rule.body) params).run s).state.random = s.random)
    (i : Instance α) :
    k.Foresees (c.pathRule rule (c.enterBody rule.body) i)
      (c.pathRule rule (c.enterBody rule.body) i) where
  forward := (forward_keptPath h quiet i.params).bind fun p => c.forward_drawWhole i p
  meets s s' hs heads := by
    have fetching : k.Heads ((c.keptPath rule (c.enterBody rule.body) i.params).run s) := by
      change k.Heads ((c.keptPath rule (c.enterBody rule.body) i.params >>= c.drawWhole i).run s)
        at heads
      rw [run_bind] at heads
      generalize (c.keptPath rule (c.enterBody rule.body) i.params).run s = o at heads ⊢
      cases o with
      | ok p t => exact Pairing.goes (c.forward_drawWhole i p) heads
      | failed e t => exact heads
    exact (h.fetch paths quiet suits (calm i.params) hs fetching).drawWhole i

end Context

end ShapeGrammar
