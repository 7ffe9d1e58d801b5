import ShapeGrammar.Proofs.Sites
import ShapeGrammar.Proofs.SameStack.Evaluation

/-!
# Two sessions at one place of a grammar

Two sessions stand at the same statement of one grammar. Both see the values
that are known there. Either they look the same to evaluation throughout, or
they agree on the fixed names in scope and nothing but fixed names is asked
for. What they carry besides is left open: a bond says how much of it the
expansion of statements relies on.
-/

set_option autoImplicit false

namespace ShapeGrammar

open Attempt

variable {σ σ' α β γ : Type}

/-! ### What two sessions see -/

namespace Control

/-- What is known is in sight, through a view that shows what is pushed. -/
structure Seen (k : Known α) (κ : Control α) : Prop where
  known : k.Matches (κ.stack.visible κ.view)
  view : κ.view.Open κ.stack.height

/-- The globals lie complete at the bottom of the stack. -/
structure Based (globals : Known α) (κ : Control α) : Prop where
  below : κ.globalsEnd ≤ κ.stack.height
  known : globals.Matches (Stack.below κ.stack.slots 0 κ.globalsEnd)

structure Same (κ κ' : Control α) : Prop where
  slots : κ.stack.slots = κ'.stack.slots
  frames : κ.stack.frames = κ'.stack.frames
  view : κ.view = κ'.view
  depth : κ.depth = κ'.depth

theorem Seen.push {k : Known α} {κ : Control α} (h : κ.Seen k) {e : String × Option (Value α)}
    {x : Slot α} (bears : x.Bears e) : (κ.extend [x]).Seen (e :: k) where
  known := by
    have visible : (κ.extend [x]).stack.visible (κ.extend [x]).view =
        x :: κ.stack.visible κ.view := κ.stack.visible_push h.view x
    rw [visible]
    exact .cons bears h.known
  view := by
    refine h.view.mono ?_
    simp [extend, Stack.height_extend]

theorem Seen.pushFrame {k : Known α} {κ : Control α} (h : κ.Seen k) :
    Seen k { κ with stack := κ.stack.pushFrame } where
  known := by
    rw [Stack.visible_pushFrame]
    exact h.known
  view := h.view

theorem Based.extend {globals : Known α} {κ : Control α} (h : κ.Based globals)
    (extra : List (Slot α)) : (κ.extend extra).Based globals where
  below := by
    simp only [Control.extend, Stack.height_extend]
    exact Nat.le_trans h.below (Nat.le_add_right _ _)
  known := by
    have same := κ.stack.below_extend extra 0 h.below
    simp only [Control.extend, same]
    exact h.known

end Control

/-- Two controls at one place of a grammar, before a frame is pushed. -/
structure Faces (f : Footing α) (k : Known α) (scope : Scope) (κ κ' : Control α) : Prop where
  charts : k.Charts scope
  left : κ.Seen k
  right : κ'.Seen k
  same : f.free → κ.Same κ'
  agree : ¬ f.free → scope.Agree (κ.stack.visible κ.view) (κ'.stack.visible κ'.view)
  numbered : f.numbered → κ.stack.session = κ'.stack.session
  based : f.draws → κ.Based f.globals ∧ κ'.Based f.globals ∧ κ.globalsEnd = κ'.globalsEnd

theorem Faces.opening [Scalar α] {f : Footing α} {k : Known α} {scope : Scope} {s : Session σ α}
    {s' : Session σ' α} (h : Faces f k scope s.control s'.control) :
    Faces { f with draws := False } k scope s.opening.control s'.opening.control where
  charts := h.charts
  left := ⟨h.left.known, h.left.view⟩
  right := ⟨h.right.known, h.right.view⟩
  same free := ⟨(h.same free).slots, (h.same free).frames, (h.same free).view, (h.same free).depth⟩
  agree := h.agree
  numbered := h.numbered
  based := False.elim

/-- Two controls at one place of a grammar, in frames that bind the same names. -/
structure Sees (f : Footing α) (k : Known α) (scope : Scope) (κ κ' : Control α) : Prop
    extends Faces f k scope κ κ' where
  framed : κ.stack.Framed κ'.stack

namespace Sees

variable {f : Footing α} {k : Known α} {scope : Scope} {κ κ' : Control α}

structure Pushed (f : Footing α) (scope : Scope) (e : String × Option (Value α)) (entry : Entry)
    (x x' : Slot α) : Prop where
  charted : e.1 = entry.name ∧ e.2.isSome = entry.cached
  left : x.Bears e
  right : x'.Bears e
  same : f.free → x = x'
  agree : ¬ f.free → entry.fixed = true → x.binding = x'.binding ∧ x.binding.FixedIn scope

theorem push (h : Sees f k scope κ κ') {e : String × Option (Value α)} {entry : Entry}
    {x x' : Slot α} (new : Pushed f scope e entry x x') :
    Sees f (e :: k) (entry :: scope) (κ.extend [x]) (κ'.extend [x']) where
  charts := .cons new.charted h.charts
  left := h.left.push new.left
  right := h.right.push new.right
  framed := h.framed.push (new.left.name.trans new.right.name.symm)
  same free := by
    have same := h.same free
    cases new.same free
    exact { same with slots := congrArg (· ++ _) same.slots }
  agree fixed := by
    have left := κ.stack.visible_push h.left.view x
    have right := κ'.stack.visible_push h.right.view x'
    simp only [Control.extend, left, right]
    exact .cons (new.left.name.trans new.charted.1) (new.right.name.trans new.charted.1)
      (new.agree fixed) (h.agree fixed)
  numbered := h.numbered
  based draws := ⟨(h.based draws).1.extend _, (h.based draws).2.1.extend _, (h.based draws).2.2⟩

theorem pushFrame (h : Faces f k scope κ κ') :
    Sees f k scope { κ with stack := κ.stack.pushFrame }
      { κ' with stack := κ'.stack.pushFrame } where
  charts := h.charts
  left := h.left.pushFrame
  right := h.right.pushFrame
  framed := .pushFrame κ.stack κ'.stack
  same free := by
    have same := h.same free
    have height : κ.stack.height = κ'.stack.height := congrArg Array.size same.slots
    exact { same with frames := by simp [Stack.pushFrame, same.frames, height] }
  agree fixed := by
    rw [Stack.visible_pushFrame, Stack.visible_pushFrame]
    exact h.agree fixed
  numbered := h.numbered
  based draws := ⟨⟨(h.based draws).1.below, (h.based draws).1.known⟩,
    ⟨(h.based draws).2.1.below, (h.based draws).2.1.known⟩, (h.based draws).2.2⟩

theorem deeper (h : Sees f k scope κ κ') :
    Sees f k scope { κ with depth := κ.depth + 1 } { κ' with depth := κ'.depth + 1 } where
  charts := h.charts
  left := ⟨h.left.known, h.left.view⟩
  right := ⟨h.right.known, h.right.view⟩
  same free := { h.same free with depth := congrArg (· + 1) (h.same free).depth }
  agree := h.agree
  numbered := h.numbered
  based draws := ⟨⟨(h.based draws).1.below, (h.based draws).1.known⟩,
    ⟨(h.based draws).2.1.below, (h.based draws).2.1.known⟩, (h.based draws).2.2⟩
  framed := h.framed

end Sees

/-! ### What two sessions carry -/

structure Cargo (σ α : Type) where
  building : Option (Path.Compiled α)
  random : Random
  store : Store α
  renderer : σ

def Session.cargo (s : Session σ α) : Cargo σ α :=
  ⟨s.building, s.random, s.store, s.renderer⟩

def Store.Sound (values : Address → Option (Value α)) (store : Store α) : Prop :=
  ∀ place v, store.values.lookup place = some v → values place = some v

def Store.keep (store : Store α) (place : Address) (v : Value α) : Store α :=
  { store with values := (place, v) :: store.values }

theorem Store.Sound.keep {values : Address → Option (Value α)} {store : Store α}
    (h : store.Sound values) {place : Address} {v : Value α} (hv : values place = some v) :
    (store.keep place v).Sound values := by
  intro other w found
  simp only [Store.keep, List.lookup_cons] at found
  split at found
  case h_1 same =>
    cases found
    rw [beq_iff_eq.mp same]
    exact hv
  case h_2 => exact h other w found

/-- How much of the cargo statements rely on. -/
structure Bond (f : Footing α) (D : Cargo σ α → Cargo σ' α → Prop) : Prop where
  random : f.free → ∀ c c', D c c' → c.random = c'.random
  draw : f.free → ∀ c c' r, D c c' → D { c with random := r } { c' with random := r }
  restore : ∀ c c' e e', D c c' → D e e' →
    D { c with random := e.random } { c' with random := e'.random }
  building : ∀ c c', D c c' →
    c.building.map Path.Compiled.erased = c'.building.map Path.Compiled.erased
  built : ∀ c c' p p' q q', D c c' → c.building = some p → c'.building = some p' →
    q.erased = q'.erased → D { c with building := some q } { c' with building := some q' }
  sound : ∀ c c', D c c' → c.store.Sound f.values ∧ c'.store.Sound f.values
  keep : ∀ c c' place v, D c c' → f.values place = some v →
    D { c with store := c.store.keep place v } c'
  keep' : ∀ c c' place v, D c c' → f.values place = some v →
    D c { c' with store := c'.store.keep place v }

structure Abreast (f : Footing α) (D : Cargo σ α → Cargo σ' α → Prop) (k : Known α)
    (scope : Scope) (s : Session σ α) (s' : Session σ' α) : Prop where
  sees : Sees f k scope s.control s'.control
  cargo : D s.cargo s'.cargo

namespace Abreast

variable {f : Footing α} {D : Cargo σ α → Cargo σ' α → Prop} {k : Known α} {scope : Scope}

/-- Failures agree and keep the bond, unless the first side runs out of fuel. -/
def parting (D : Cargo σ α → Cargo σ' α → Prop) :
    Parting Stop Stop (Session σ α) (Session σ' α) where
  together e e' s s' := e = e' ∧ D s.cargo s'.cargo
  alone e := e = .outOfFuel

/-- Actions that keep everything in place need only look after the cargo. -/
theorem kept {same : β → γ → Prop} {x : Action σ α β} {y : Action σ' α γ}
    (hx : Action.Keeps x) (hy : Action.Keeps y)
    (h : Leads (parting D) (Abreast f D k scope) (fun s s' => D s.cargo s'.cargo) same x y) :
    InStep (parting D) (Abreast f D k scope) same x y := by
  intro s s' hs
  refine ((h s s' hs).and_ends (hx s) (hy s')).weaken (.refl _) ?_ fun _ _ => id
  rintro t t' ⟨cargo, left, right⟩
  refine ⟨?_, cargo⟩
  rw [left, right]
  exact hs.sees

theorem fail {same : β → β → Prop} {Q : Session σ α → Session σ' α → Prop} (e : Stop) :
    Leads (parting D) (Abreast f D k scope) Q same (Attempt.fail e : Action σ α β)
      (Attempt.fail e : Action σ' α β) :=
  Leads.fail fun _ _ h => ⟨rfl, h.cargo⟩

theorem bindName {e : String × Option (Value α)} {entry : Entry} {b b' : Binding α}
    (new : Sees.Pushed f scope e entry ⟨e.1, b⟩ ⟨e.1, b'⟩) (span : Span) :
    Leads (parting D) (Abreast f D k scope) (Abreast f D (e :: k) (entry :: scope)) Eq
      (Action.bindName e.1 b span : Action σ α Unit)
      (Action.bindName e.1 b' span : Action σ' α Unit) := by
  intro s s' hs
  rw [Action.bindName_run, Action.bindName_run]
  have taken := hs.sees.framed.isTaken e.1
  simp only [Session.control] at taken
  rw [taken]
  split
  · exact .together ⟨rfl, hs.cargo⟩
  · exact .ok rfl ⟨hs.sees.push new, hs.cargo⟩

theorem bindParams {paramsFixed : Bool} {params : List Param} {seed seed' : List (Value α)}
    (hl : seed.length = params.length) (hl' : seed'.length = params.length)
    (same : f.free ∨ paramsFixed = true → seed = seed') :
    Leads (parting D) (Abreast f D k scope)
      (Abreast f D (k.bind params) (scope.bind paramsFixed params)) Eq
      (Action.bindParams params seed : Action σ α Unit)
      (Action.bindParams params seed' : Action σ' α Unit) := by
  induction params generalizing k scope seed seed' with
  | nil => exact Leads.pure rfl
  | cons p params ih =>
    match seed, seed', hl, hl' with
    | v :: seed, v' :: seed', hl, hl' =>
      have bears : ∀ w : Value α, Slot.Bears (p.name, none) ⟨p.name, .value w⟩ :=
        fun w => ⟨rfl, nofun, Slot.plain_value p.name w⟩
      have new : Sees.Pushed f scope (p.name, none) ⟨p.name, false, paramsFixed⟩
          ⟨p.name, .value v⟩ ⟨p.name, .value v'⟩ := by
        refine ⟨⟨rfl, rfl⟩, bears v, bears v', fun free => ?_, fun _ fixed => ?_⟩
        · cases same (.inl free)
          rfl
        · cases same (.inr fixed)
          exact ⟨rfl, trivial⟩
      refine Leads.andThen (bindName new p.span) fun _ => ?_
      refine ih (Nat.succ.inj hl) (Nat.succ.inj hl') fun equal => ?_
      exact (List.cons.inj (same equal)).2

theorem checkSlots (declared : Nat) :
    InStep (parting D) (Abreast f D k scope) Eq (ShapeGrammar.checkSlots declared : Action σ α Unit)
      (ShapeGrammar.checkSlots declared : Action σ' α Unit) := by
  refine Leads.bind Leads.state fun s s' hs => ?_
  have size : s.stack.frameSize = s'.stack.frameSize := hs.sees.framed.frameSize
  simp only [size]
  split
  · exact fail _
  · exact Leads.pure rfl

theorem buildWith (h : Bond f D) (what : String)
    {build : Path.Compiled α → Except Broken (Path.Compiled α)}
    (hb : ∀ p, build p.erased = (build p).map Path.Compiled.erased)
    (left : Action.Keeps (Context.buildWith what build : Action σ α Unit))
    (right : Action.Keeps (Context.buildWith what build : Action σ' α Unit)) :
    InStep (parting D) (Abreast f D k scope) Eq (Context.buildWith what build : Action σ α Unit)
      (Context.buildWith what build : Action σ' α Unit) := by
  refine kept left right fun s s' hs => ?_
  refine Context.buildWith_inStep (d := parting D) (P := fun s s' => D s.cargo s'.cargo) what hb
    (fun _ _ cargo => h.building _ _ cargo) ?_ (fun _ _ _ cargo => ⟨rfl, cargo⟩) s s' hs.cargo
  exact fun t t' p p' q q' cargo hp hp' _ _ same => h.built _ _ p p' q q' cargo hp hp' same

def Settled (D : Cargo σ α → Cargo σ' α → Prop) (s : Session σ α) (s' : Session σ' α) : Prop :=
  ∀ r, D { s.cargo with random := r } { s'.cargo with random := r }

theorem settled_steady : Steady (Settled D) := fun h _ _ _ _ _ _ => h

theorem twins (h : Bond f D) (free : f.free) {s : Session σ α} {s' : Session σ' α}
    (hs : Abreast f D k scope s s') : Twins False (Settled D) s s' :=
  have same := hs.sees.same free
  ⟨same.slots, same.frames, same.view, h.random free _ _ hs.cargo, False.elim,
    fun r => h.draw free _ _ r hs.cargo⟩

theorem cargo_of_twins {s : Session σ α} {s' : Session σ' α} (h : Twins False (Settled D) s s') :
    D s.cargo s'.cargo := by
  have cargo := h.rest s.random
  have random : s'.cargo = { s'.cargo with random := s.random } := by
    rw [h.random]
    rfl
  rw [random]
  exact cargo

/-- What takes twins to twins and keeps everything in place goes in step. -/
theorem of_level (h : Bond f D) (free : f.free) {x : Action σ α β} {y : Action σ' α β}
    (hx : Action.Keeps x) (hy : Action.Keeps y)
    (level : Twins.Level False (Settled D) (· = .outOfFuel) x y) :
    InStep (parting D) (Abreast f D k scope) Eq x y :=
  kept hx hy fun s s' hs => (level s s' (hs.twins h free)).weaken
    ⟨fun _ _ _ _ parted => ⟨parted.1, cargo_of_twins parted.2⟩, fun _ => id⟩
    (fun _ _ => cargo_of_twins) fun _ _ => id

theorem agreeAt {s : Session σ α} {s' : Session σ' α} (hs : Abreast f D k scope s s')
    (fixed : ¬ f.free) : scope.AgreeAt s s' :=
  ⟨hs.sees.agree fixed, hs.sees.left.known.plain, hs.sees.right.known.plain⟩

theorem of_unmoved {same : β → γ → Prop} {x : Action σ α β} {y : Action σ' α γ}
    (h : ∀ s s', Abreast f D k scope s s' →
      InStep (s.unmoved s') (fun t t' => t = s ∧ t' = s') same x y) :
    InStep (parting D) (Abreast f D k scope) same x y := by
  intro s s' hs
  refine (h s s' hs s s' ⟨rfl, rfl⟩).weaken ⟨?_, fun _ => id⟩ ?_ fun _ _ => id
  · rintro e _ t t' ⟨rfl, rfl, rfl⟩
    exact ⟨rfl, hs.cargo⟩
  · rintro t t' ⟨rfl, rfl⟩
    exact hs

variable [Scalar α]

/-- Twins evaluate alike, whatever is settled between them. -/
theorem environmentAt_level (D : Cargo σ α → Cargo σ' α → Prop) {n m : Nat} (hle : n ≤ m) :
    Env.InStep (Twins.parting False (Settled D) (· = .outOfFuel)) (Twins False (Settled D)) True
      (fun _ => true) (Session.environmentAt n) (Session.environmentAt m) :=
  Twins.environmentAt_inStep settled_steady hle (.inr rfl)

theorem environmentAt_free (h : Bond f D) (free : f.free) {n m : Nat} (hle : n ≤ m) :
    Env.InStep (parting D) (Abreast f D k scope) f.free scope.isFixed
      (Session.environmentAt n) (Session.environmentAt m) where
  lookup name span _ :=
    of_level h free ((Session.environmentAt_keeps n).lookup name span)
      ((Session.environmentAt_keeps m).lookup name span)
      ((environmentAt_level D hle).lookup name span (.inl trivial))
  call name args span _ :=
    of_level h free ((Session.environmentAt_keeps n).call name args span)
      ((Session.environmentAt_keeps m).call name args span)
      ((environmentAt_level D hle).call name args span (.inl trivial))
  draw _ s s' hs := by
    obtain ⟨body, same⟩ := Session.environmentAt_eq (σ := σ) (α := α) n
    obtain ⟨body', same'⟩ := Session.environmentAt_eq (σ := σ') (α := α) m
    have random : s.random = s'.random := h.random free _ _ hs.cargo
    simp only [same, same', Session.environment, random]
    exact .some ⟨rfl, hs.sees, h.draw free _ _ _ hs.cargo⟩
  raise fault s s' hs := by
    obtain ⟨body, same⟩ := Session.environmentAt_eq (σ := σ) (α := α) n
    obtain ⟨body', same'⟩ := Session.environmentAt_eq (σ := σ') (α := α) m
    rw [same, same']
    exact ⟨rfl, hs.cargo⟩

theorem environmentAt_fixed (fixed : ¬ f.free) {n m : Nat} (hle : n ≤ m) :
    Env.InStep (parting D) (Abreast f D k scope) f.free scope.isFixed
      (Session.environmentAt n) (Session.environmentAt m) where
  lookup name span known := of_unmoved fun s s' hs =>
    ((hs.agreeAt fixed).environmentAt hle).lookup name span (known.imp_left fixed)
  call name args span known := of_unmoved fun s s' hs =>
    ((hs.agreeAt fixed).environmentAt hle).call name args span (known.imp_left fixed)
  draw free := absurd free fixed
  raise fault s s' hs := by
    obtain ⟨body, same⟩ := Session.environmentAt_eq (σ := σ) (α := α) n
    obtain ⟨body', same'⟩ := Session.environmentAt_eq (σ := σ') (α := α) m
    rw [same, same']
    exact ⟨rfl, hs.cargo⟩

/-- Evaluation goes in step, with as much fuel on the second side or more. -/
theorem environmentAt (h : Bond f D) {n m : Nat} (hle : n ≤ m) :
    Env.InStep (parting D) (Abreast f D k scope) f.free scope.isFixed
      (Session.environmentAt n) (Session.environmentAt m) := by
  by_cases free : f.free
  · exact environmentAt_free h free hle
  · exact environmentAt_fixed free hle

end Abreast

end ShapeGrammar
