import ShapeGrammar.Proofs.SamePlace.Bodies

/-!
# Building a path again

A static rule draws nothing that depends on where and when it is expanded: not
on the arguments, not on the random state, not on the renderer. Wherever its
path is built once, building it again gives the same geometry and commands and
changes nothing but the identity to give out next, and values that may be kept.
-/

set_option autoImplicit false

namespace ShapeGrammar

open Attempt

variable {σ σ' α : Type}

/-- The cargo, with other values kept and another path under construction. -/
structure Cargo.Idle (a c : Cargo σ α) : Prop where
  random : c.random = a.random
  renderer : c.renderer = a.renderer
  store : ∃ values, c.store = { a.store with values := values }

variable [Scalar α]

def Draft.footing (d : Draft α) (free draws numbered : Prop) : Footing α :=
  ⟨free, draws, numbered, d.known, d.values⟩

/-- Both sides build one path and do nothing else. -/
structure Idling (d : Draft α) (a : Cargo σ α) (a' : Cargo σ' α) (c : Cargo σ α) (c' : Cargo σ' α) :
    Prop where
  left : a.Idle c
  right : a'.Idle c'
  sound : c.store.Sound d.values
  sound' : c'.store.Sound d.values
  building : c.building.map Path.Compiled.erased = c'.building.map Path.Compiled.erased

theorem Idling.bond (d : Draft α) (a : Cargo σ α) (a' : Cargo σ' α) :
    Bond (d.footing False False False) (Idling d a a') where
  random := False.elim
  draw := False.elim
  restore c c' e e' h he := { h with
    left := { h.left with random := he.left.random }
    right := { h.right with random := he.right.random } }
  building c c' h := h.building
  built c c' p p' q q' h _ _ same := { h with
    left := { h.left with }
    right := { h.right with }
    building := congrArg some same }
  sound c c' h := ⟨h.sound, h.sound'⟩
  keep c c' place v h hv := by
    obtain ⟨values, store⟩ := h.left.store
    exact { h with
      left := { h.left with store := ⟨(place, v) :: values, by simp [Store.keep, store]⟩ }
      sound := h.sound.keep hv }
  keep' c c' place v h hv := by
    obtain ⟨values, store⟩ := h.right.store
    exact { h with
      right := { h.right with store := ⟨(place, v) :: values, by simp [Store.keep, store]⟩ }
      sound' := h.sound'.keep hv }

structure Session.AtRule (d : Draft α) (s : Session σ α) : Prop where
  view : s.view = .rule s.stack.height (some s.globalsEnd)
  based : s.control.Based d.known
  sound : s.store.Sound d.values
  building : s.building = none

theorem Session.AtRule.visible {d : Draft α} {s : Session σ α} (h : s.AtRule d) :
    s.stack.visible s.view = Stack.below s.stack.slots 0 s.globalsEnd := by
  rw [h.view]
  exact s.stack.visible_rule h.based.below

theorem Session.AtRule.seen {d : Draft α} {s : Session σ α} (h : s.AtRule d) :
    s.control.Seen d.known where
  known := by
    have visible : s.control.stack.visible s.control.view = _ := h.visible
    rw [visible]
    exact h.based.known
  view := by
    have view : s.control.view = .rule s.stack.height (some s.globalsEnd) := h.view
    rw [view]
    exact .rule (Nat.le_refl _) h.based.below

/-- Nothing but the next identity and the values kept is different. -/
def Session.Advanced (d : Draft α) (s t : Session σ α) : Prop :=
  t.store.Sound d.values ∧ ∃ values, t = { s with
    store := { s.store with values := values, nextUid := s.store.nextUid + 1 } }

theorem Session.advanced_of {d : Draft α} {s t : Session σ α} (hs : s.building = none)
    (idle : s.cargo.Idle t.cargo) (sound : t.store.Sound d.values)
    (control : t.stack = s.stack ∧ t.view = s.view ∧ t.globalsEnd = s.globalsEnd ∧
      t.depth = s.depth) :
    s.Advanced d { t with
      building := none, store := { t.store with nextUid := t.store.nextUid + 1 } } := by
  obtain ⟨values, store⟩ := idle.store
  have store : t.store = { s.store with values := values } := store
  have random : t.random = s.random := idle.random
  have renderer : t.renderer = s.renderer := idle.renderer
  obtain ⟨stack, view, globalsEnd, depth⟩ := control
  refine ⟨sound, values, ?_⟩
  rw [stack, view, globalsEnd, depth, random, renderer, store, ← hs]

structure Context.Runs (c : Context σ α) (fuel : Nat) : Prop where
  keeps : c.Keeps
  env : c.env = Session.environmentAt fuel
  own : c.strategy.ownCoordinates = true

theorem Context.Runs.paired {c : Context σ α} {c' : Context σ' α} {n m : Nat} (h : c.Runs n)
    (h' : c'.Runs m) (hle : n ≤ m) {f : Footing α} {D : Cargo σ α → Cargo σ' α → Prop}
    (replace : f.draws → ∀ k scope head parent,
      InStep (Abreast.parting D) (Abreast f D k scope) Eq (c.replace head parent)
        (c'.replace head parent)) : Context.Paired f D c c' :=
  ⟨h.keeps, h'.keeps, ⟨n, m, hle, h.env, h'.env⟩, h.own.trans h'.own.symm, replace⟩

/-- Two sessions about to enter one rule agree on the globals that are fixed. -/
theorem Session.AtRule.faces {d : Draft α} {g : Grammar α} (loads : d.Loads g)
    (charts : d.known.Charts d.globalScope) {s : Session σ α} {s' : Session σ' α}
    (hs : s.AtRule d) (hs' : s'.AtRule d) :
    Faces (d.footing False False False) d.known d.globalScope s.control s'.control where
  charts := charts
  left := hs.seen
  right := hs'.seen
  same := False.elim
  agree _ := charts.agree loads.fixed_eq_cached hs.seen.known hs'.seen.known
  numbered := False.elim
  based := False.elim

/-- A static rule builds the same path in any two sessions that are about to
enter it. -/
theorem Context.Runs.build_static {d : Draft α} {g : Grammar α} (loads : d.Loads g)
    (charts : d.known.Charts d.globalScope) {i j : Nat} {shape : Shape α} {rule : Rule α}
    {b : Body α} (of : d.RuleOf i j shape rule b) (static : rule.isStatic = true)
    {c : Context σ α} {c' : Context σ' α} {n m : Nat} (h : c.Runs n) (h' : c'.Runs m) (hle : n ≤ m)
    {s : Session σ α} {s' : Session σ' α} (hs : s.AtRule d) (hs' : s'.AtRule d)
    {params params' : List (Value α)} (hp : params.length = params'.length) :
    Meets (Abreast.parting fun _ _ => True) (fun t t' => s.Advanced d t ∧ s'.Advanced d t')
      (fun p p' => p.erased = p'.erased)
      ((Context.buildPath rule (c.enterBody rule.body) params).run s)
      ((Context.buildPath rule (c'.enterBody rule.body) params').run s') := by
  have static' : (shape.isPath && b.isFixed d.globalScope false) = true := by
    have cell := of.cell
    rw [Rule.isStatic, cell] at static
    split at static
    · assumption
    · cases static
  obtain ⟨path, fixed⟩ := Bool.and_eq_true_iff.mp static'
  have sited : b.Sited (d.footing False False False) d.known d.globalScope false [i, j] :=
    of.sited loads.clear rfl (.inr fixed) (.inr (of.no_replacement loads.built path))
  have paired := h.paired h' hle (f := d.footing False False False)
    (D := Idling d s.cargo s'.cargo) False.elim
  have keeps := h.keeps.enterBody rule.body (.root rule.shape) false params
  have keeps' := h'.keeps.enterBody rule.body (.root rule.shape) false params'
  have seeds : Context.Seeds (d.footing False False False) false params params' :=
    ⟨hp, by simp [Draft.footing]⟩
  have body := paired.enterBody (Idling.bond d s.cargo s'.cargo) sited (.root rule.shape) false
    seeds s.opening s'.opening
    ⟨(hs.faces loads charts hs').opening, ⟨⟨rfl, rfl, _, rfl⟩, ⟨rfl, rfl, _, rfl⟩, hs.sound,
      hs'.sound, rfl⟩⟩
  rw [← of.body] at body
  refine Context.buildPath_meets rule keeps keeps' hs.building hs'.building
    (body.and_ends (keeps _) (keeps' _)) ?_ (fun _ _ _ _ parted => ⟨parted.1, trivial⟩) fun _ => id
  rintro t t' p p' ⟨idling, control, control'⟩ ht ht' - -
  refine ⟨?_, Session.advanced_of hs.building idling.left idling.sound ?_,
    Session.advanced_of hs'.building idling.right idling.sound' ?_⟩
  · have same : p.erased = p'.erased := by
      simpa [Session.cargo, ht, ht'] using idling.building
    exact Path.Compiled.sealed_alike same
  · exact ⟨congrArg Control.stack control, congrArg Control.view control,
      congrArg Control.globalsEnd control, congrArg Control.depth control⟩
  · exact ⟨congrArg Control.stack control', congrArg Control.view control',
      congrArg Control.globalsEnd control', congrArg Control.depth control'⟩

/-- Built anywhere, with fuel enough, the path comes out the same. -/
def Path.Compiled.Rebuilt (d : Draft α) (rule : Rule α) (enough : Nat) (p : Path.Compiled α) :
    Prop :=
  ∀ (σ : Type) (c : Context σ α) (m : Nat) (s : Session σ α) (params : List (Value α)),
    c.Runs m → s.AtRule d → params.length = rule.body.params.length →
      (m < enough ∧ ∃ t, (Context.buildPath rule (c.enterBody rule.body) params).run s =
        .failed .outOfFuel t) ∨
      ∃ q t, (Context.buildPath rule (c.enterBody rule.body) params).run s = .ok q t ∧
        q.erased = p.erased ∧ s.Advanced d t

theorem Path.Compiled.Rebuilt.mono {d : Draft α} {rule : Rule α} {n m : Nat}
    {p : Path.Compiled α} (h : p.Rebuilt d rule n) (hle : n ≤ m) : p.Rebuilt d rule m :=
  fun σ c l s params runs rule length =>
    (h σ c l s params runs rule length).imp_left fun quits =>
      ⟨Nat.lt_of_lt_of_le quits.1 hle, quits.2⟩

theorem Context.Runs.rebuilt {d : Draft α} {g : Grammar α} (loads : d.Loads g)
    (charts : d.known.Charts d.globalScope) {i j : Nat} {shape : Shape α} {rule : Rule α}
    {b : Body α} (of : d.RuleOf i j shape rule b) (static : rule.isStatic = true)
    {c : Context σ α} {n : Nat} (h : c.Runs n) {s t : Session σ α} (hs : s.AtRule d)
    {params : List (Value α)} (hp : params.length = rule.body.params.length)
    {p : Path.Compiled α}
    (built : (Context.buildPath rule (c.enterBody rule.body) params).run s = .ok p t) :
    p.Rebuilt d rule n := by
  intro σ' c' m s' params' h' hs' hp'
  rcases Nat.lt_or_ge m n with hlt | hle
  · have meets := h'.build_static loads charts of static h (Nat.le_of_lt hlt) hs' hs
      (hp'.trans hp.symm)
    rw [built] at meets
    generalize (Context.buildPath rule (c'.enterBody rule.body) params').run s' = o at meets ⊢
    cases meets with
    | ok same advanced => exact .inr ⟨_, _, rfl, same, advanced.1⟩
    | alone quits =>
      cases quits
      exact .inl ⟨hlt, _, rfl⟩
  · have meets := h.build_static loads charts of static h' hle hs hs' (hp.trans hp'.symm)
    rw [built] at meets
    generalize (Context.buildPath rule (c'.enterBody rule.body) params').run s' = o at meets ⊢
    cases meets with
    | ok same advanced => exact .inr ⟨_, _, rfl, same.symm, advanced.2⟩

/-! ### Kept paths -/

/-- Every path that is kept would come out the same if its rule built it again. -/
def Store.Rebuilds (d : Draft α) (g : Grammar α) (enough : Nat) (store : Store α) : Prop :=
  ∀ place p, store.paths.lookup place = some p → p.uid.isSome = true ∧
    ∀ (i j : Nat) (shape : Shape α) (rule : Rule α), g.shapes[i]? = some shape →
      shape.rules[j]? = some rule → rule.cell = some place → p.Rebuilt d rule enough

theorem Store.Rebuilds.mono {d : Draft α} {g : Grammar α} {n m : Nat} {store : Store α}
    (h : store.Rebuilds d g n) (hle : n ≤ m) : store.Rebuilds d g m := fun place p found =>
  ⟨(h place p found).1, fun i j shape rule hs hr cell =>
    ((h place p found).2 i j shape rule hs hr cell).mono hle⟩

def Store.keepPath (store : Store α) (place : Address) (p : Path.Compiled α) : Store α :=
  { store with paths := (place, p) :: store.paths }

/-- The rule of a cell is unique, since its address is. -/
theorem Store.Rebuilds.keepPath {d : Draft α} {g : Grammar α} (loads : d.Loads g) {enough : Nat}
    {store : Store α} (h : store.Rebuilds d g enough) {i j : Nat} {shape : Shape α} {rule : Rule α}
    (hs : g.shapes[i]? = some shape) (hr : shape.rules[j]? = some rule) {place : Address}
    (cell : rule.cell = some place) {p : Path.Compiled α} (uid : p.uid.isSome = true)
    (rebuilt : p.Rebuilt d rule enough) : (store.keepPath place p).Rebuilds d g enough := by
  have address : ∀ {i j : Nat} {shape : Shape α} {rule : Rule α}, g.shapes[i]? = some shape →
      shape.rules[j]? = some rule → rule.cell = some place → place = [i, j] := by
    intro i j shape rule hs hr cell
    obtain ⟨b, of⟩ := Draft.build_rule loads.drafted loads.built hs hr
    rw [of.cell] at cell
    split at cell <;> cases cell
    rfl
  intro other q found
  simp only [Store.keepPath, List.lookup_cons] at found
  split at found
  case h_1 same =>
    cases found
    rw [beq_iff_eq.mp same]
    refine ⟨uid, fun i' j' shape' rule' hs' hr' cell' => ?_⟩
    have here := address hs hr cell
    rw [address hs' hr' cell'] at here
    cases here
    rw [hs] at hs'
    cases hs'
    rw [hr] at hr'
    cases hr'
    exact rebuilt
  case h_2 => exact h other q found

end ShapeGrammar
