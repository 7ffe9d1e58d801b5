import ShapeGrammar.Proofs.SamePlace.Shapes

/-!
# Fetching the path of a rule

A path is taken from the store when it is kept there, and else is built, given
an identity, and kept if its rule is static. Two sides that build it end alike.
Once each side has its path, drawing it is a matter of the renderers alone.
-/

set_option autoImplicit false

namespace ShapeGrammar

open Attempt

variable {σ σ' α : Type}

def Session.numbered (s : Session σ α) : Session σ α :=
  { s with store := { s.store with nextUid := s.store.nextUid + 1 } }

def Session.keepPath (cell : Option Address) (p : Path.Compiled α) (s : Session σ α) :
    Session σ α :=
  match cell with
  | some place => { s with store := { s.store with paths := (place, p) :: s.store.paths } }
  | none => s

def Context.cellOf (c : Context σ α) (rule : Rule α) : Option Address :=
  if c.strategy.reuse then rule.cell else none

/-- Either the path of the rule is kept where the context looks, or it is not. -/
theorem Context.stock (c : Context σ α) (rule : Rule α) (s : Session σ α) :
    (∃ place p, c.cellOf rule = some place ∧ s.store.paths.lookup place = some p) ∨
      ∀ place, c.cellOf rule = some place → s.store.paths.lookup place = none := by
  cases cell : c.cellOf rule with
  | none => exact .inr nofun
  | some place =>
    cases found : s.store.paths.lookup place with
    | none =>
      refine .inr fun other same => ?_
      cases same
      exact found
    | some p => exact .inl ⟨place, p, rfl, found⟩

theorem Context.cell_of_cellOf {c : Context σ α} {rule : Rule α} {place : Address}
    (h : c.cellOf rule = some place) : rule.cell = some place := by
  unfold Context.cellOf at h
  split at h
  · exact h
  · cases h

variable [Scalar α]

namespace Context

theorem keptPath_hit {c : Context σ α} {rule : Rule α} {body : Entering σ α}
    {params : List (Value α)} {s : Session σ α} {place : Address} {p : Path.Compiled α}
    (cell : c.cellOf rule = some place) (found : s.store.paths.lookup place = some p) :
    (c.keptPath rule body params).run s = .ok p s := by
  unfold cellOf at cell
  simp [keptPath, cell, found]

theorem keptPath_miss {c : Context σ α} {rule : Rule α} {body : Entering σ α}
    {params : List (Value α)} {s : Session σ α}
    (missed : ∀ place, c.cellOf rule = some place → s.store.paths.lookup place = none) :
    (c.keptPath rule body params).run s =
      match (buildPath rule body params).run s with
      | .ok p t => .ok p (t.keepPath (c.cellOf rule) p)
      | .failed e t => .failed e t := by
  unfold cellOf at missed ⊢
  cases cell : (if c.strategy.reuse then rule.cell else none) with
  | none =>
    simp only [keptPath, cell]
    cases (buildPath rule body params).run s <;> rfl
  | some place =>
    simp only [keptPath, cell, run_bind, run_state, missed place cell]
    cases (buildPath rule body params).run s <;> rfl

end Context

/-! ### Building on both sides -/

section

variable {d : Draft α} {g : Grammar α} {numbered : Prop} {E : Cargo σ α → Cargo σ' α → Prop}
  {c : Context σ α} {c' : Context σ' α}

/-- Two builds at one place run out of fuel, fail alike, or give the same path with
the next identities. -/
inductive Builds (E : Cargo σ α → Cargo σ' α → Prop) (s : Session σ α) (s' : Session σ' α) :
    Outcome Stop (Session σ α) (Path.Compiled α) →
      Outcome Stop (Session σ' α) (Path.Compiled α) → Prop
  | quits {t : Session σ α} {o' : Outcome Stop (Session σ' α) (Path.Compiled α)} :
      Builds E s s' (.failed .outOfFuel t) o'
  | failed {e : Stop} {t : Session σ α} {t' : Session σ' α} (outside : Outside E t.cargo t'.cargo) :
      Builds E s s' (.failed e t) (.failed e t')
  | built {p p' : Path.Compiled α} {t : Session σ α} {t' : Session σ' α}
      (alike : p.erased = p'.erased) (uid : p.uid = some t.store.nextUid)
      (uid' : p'.uid = some t'.store.nextUid) (frame : p.frame = s.stack.frameRef)
      (frame' : p'.frame = s'.stack.frameRef) (outside : Outside E t.cargo t'.cargo) :
      Builds E s s' (.ok p t.numbered) (.ok p' t'.numbered)

theorem Ties.builds (h : Ties d c.renderer c'.renderer E) (loads : d.Loads g) {n m : Nat}
    (runs : c.Runs n) (runs' : c'.Runs m) (hle : n ≤ m) {i j : Nat} {shape : Shape α}
    {rule : Rule α} {b : Body α} (of : d.RuleOf i j shape rule b) (path : shape.isPath = true)
    (params : List (Value α)) {s : Session σ α} {s' : Session σ' α}
    (hs : Beside d numbered E s s') :
    Builds E s s' ((Context.buildPath rule (c.enterBody rule.body) params).run s)
      ((Context.buildPath rule (c'.enterBody rule.body) params).run s') := by
  have sited := of.sited loads.clear (f := d.footing True False numbered) rfl (.inl trivial)
    (.inr (of.no_replacement loads.built path))
  have paired := runs.paired runs' hle (f := d.footing True False numbered) (D := Inside E)
    False.elim
  have keeps := runs.keeps.enterBody rule.body (.root rule.shape) false params
  have keeps' := runs'.keeps.enterBody rule.body (.root rule.shape) false params
  have body := paired.enterBody (h.inside False numbered) sited (.root rule.shape) false
    (.refl _ false params) s.opening s'.opening
    ⟨hs.faces.opening, rfl, h.building _ _ _ _ hs.tied⟩
  rw [← of.body] at body
  -- The bodies run alike in the sessions with a path open, so both paths are finished or
  -- neither is.
  cases hx : (c.enterBody rule.body (.root rule.shape) false params).run s.opening with
  | failed e t =>
    rw [hx] at body
    rw [Context.buildPath_failed rule hs.left.building hx]
    generalize hy : (c'.enterBody rule.body (.root rule.shape) false params).run s'.opening = o
      at body
    cases body with
    | together parted =>
      obtain ⟨rfl, inside⟩ := parted
      rw [Context.buildPath_failed rule hs.right.building hy]
      exact .failed ⟨rfl, rfl, h.building _ _ _ _ inside.tied⟩
    | alone quits =>
      cases quits
      exact .quits
  | ok u t =>
    rw [hx] at body
    generalize hy : (c'.enterBody rule.body (.root rule.shape) false params).run s'.opening = o
      at body
    cases body with
    | @ok _ _ _ t' value inside =>
      obtain ⟨p, hp, frame, -, -, run⟩ := Context.buildPath_ok rule keeps hs.left.building hx
      obtain ⟨p', hp', frame', -, -, run'⟩ := Context.buildPath_ok rule keeps' hs.right.building hy
      rw [run, run']
      have alike : p.erased = p'.erased := by
        simpa [Session.cargo, hp, hp'] using inside.building
      change Builds E s s' (.ok _ (Session.numbered { t with building := none }))
        (.ok _ (Session.numbered { t' with building := none }))
      exact .built (Path.Compiled.sealed_alike alike) rfl rfl (p.sealed_frame.trans frame)
        (p'.sealed_frame.trans frame') ⟨rfl, rfl, h.building _ _ _ _ inside.tied⟩

/-! ### Drawing on both sides -/

structure DrawTied (r : Renderer σ α) (r' : Renderer σ' α) (E F : Cargo σ α → Cargo σ' α → Prop)
    (uid : Nat) (p : Path.Compiled α) (uid' : Nat) (p' : Path.Compiled α) : Prop where
  weaken : ∀ c c', F c c' → E c c'
  draw : ∀ c c' i command, F c c' →
    F { c with renderer := r.drawPath i uid p command c.renderer }
      { c' with renderer := r'.drawPath i uid' p' command c'.renderer }

def Drawable (r : Renderer σ α) (r' : Renderer σ' α) (E : Cargo σ α → Cargo σ' α → Prop)
    (p p' : Path.Compiled α) (c : Cargo σ α) (c' : Cargo σ' α) : Prop :=
  ∃ F uid uid', p.uid = some uid ∧ p'.uid = some uid' ∧ DrawTied r r' E F uid p uid' p' ∧ F c c'

theorem DrawTied.drawCommands {F : Cargo σ α → Cargo σ' α → Prop} {uid uid' : Nat}
    {p p' : Path.Compiled α} (h : DrawTied c.renderer c'.renderer E F uid p uid' p')
    (x : Instance α) (commands : List (Path.Command α)) :
    Leads (Abreast.parting (Outside E)) (fun s s' => Outside F s.cargo s'.cargo)
      (fun s s' => Outside E s.cargo s'.cargo) Eq (c.drawCommands x uid p commands)
      (c'.drawCommands x uid' p' commands) := by
  rw [Context.drawCommands_eq, Context.drawCommands_eq]
  refine Leads.update fun s s' hs => ⟨hs.left, hs.right, h.weaken _ _ ?_⟩
  exact Renderer.drawAll_rel
    (R := fun y y' => F { s.cargo with renderer := y } { s'.cargo with renderer := y' })
    (fun command y y' => h.draw _ _ _ command) commands hs.tied

/-- Each side has run out of fuel, failed like the other, or has a path that it
can draw. -/
inductive Fetched (r : Renderer σ α) (r' : Renderer σ' α) (E : Cargo σ α → Cargo σ' α → Prop) :
    Outcome Stop (Session σ α) (Path.Compiled α) →
      Outcome Stop (Session σ' α) (Path.Compiled α) → Prop
  | quits {t : Session σ α} {o' : Outcome Stop (Session σ' α) (Path.Compiled α)} :
      Fetched r r' E (.failed .outOfFuel t) o'
  | failed {e : Stop} {t : Session σ α} {t' : Session σ' α} (outside : Outside E t.cargo t'.cargo) :
      Fetched r r' E (.failed e t) (.failed e t')
  | found {p p' : Path.Compiled α} {t : Session σ α} {t' : Session σ' α}
      (alike : p.erased = p'.erased) (left : t.building = none) (right : t'.building = none)
      (drawable : Drawable r r' E p p' t.cargo t'.cargo) : Fetched r r' E (.ok p t) (.ok p' t')

theorem Fetched.pathRule {rule : Rule α} {body : Entering σ α} {body' : Entering σ' α}
    {x : Instance α} {s : Session σ α} {s' : Session σ' α}
    (h : Fetched c.renderer c'.renderer E ((c.keptPath rule body x.params).run s)
      ((c'.keptPath rule body' x.params).run s')) :
    Meets (Abreast.parting (Outside E)) (fun t t' => Outside E t.cargo t'.cargo) Eq
      ((c.pathRule rule body x).run s) ((c'.pathRule rule body' x).run s') := by
  simp only [Context.pathRule, run_bind]
  generalize (c.keptPath rule body x.params).run s = o at h ⊢
  generalize (c'.keptPath rule body' x.params).run s' = o' at h ⊢
  cases h with
  | quits => exact .alone rfl
  | failed outside => exact .together ⟨rfl, outside⟩
  | @found p p' t t' alike left right drawable =>
    obtain ⟨F, uid, uid', hu, hu', ties, tied⟩ := drawable
    have commands : p.allCommands = p'.allCommands := by
      rw [← p.allCommands_erased, ← p'.allCommands_erased, alike]
    simp only [Path.Compiled.identity, hu, hu', commands]
    exact ties.drawCommands x p'.allCommands t t' ⟨left, right, tied⟩

/-! ### What each side has or builds -/

structure Cargo.Gains (d : Draft α) (g : Grammar α) (enough : Nat) (cell : Option Address)
    (p : Path.Compiled α) (a e : Cargo σ α) : Prop where
  missed : ∀ place, cell = some place → a.store.paths.lookup place = none
  uid : p.uid = some a.store.nextUid
  random : e.random = a.random
  renderer : e.renderer = a.renderer
  nextUid : e.store.nextUid = a.store.nextUid + 1
  paths : e.store.paths = cell.toList.map (·, p) ++ a.store.paths
  sound : e.store.Sound d.values
  rebuilds : e.store.Rebuilds d g enough

/-- What comes of the paths that the sides have or build, as far as the store
and the renderers are concerned. -/
structure Stocked (d : Draft α) (g : Grammar α) (enough : Nat) (numbered : Prop)
    (E : Cargo σ α → Cargo σ' α → Prop) (c : Context σ α) (c' : Context σ' α) : Prop where
  rebuilds : ∀ a a', E a a' → a.store.Rebuilds d g enough ∧ a'.store.Rebuilds d g enough
  built : ∀ (rule : Rule α) a a' e e' p p', E a a' → p.erased = p'.erased →
    (numbered → p.frame = p'.frame) → a.Gains d g enough (c.cellOf rule) p e →
    a'.Gains d g enough (c'.cellOf rule) p' e' → Drawable c.renderer c'.renderer E p p' e e'
  lent : ∀ (rule : Rule α) place a a' e' p p', E a a' → p.erased = p'.erased →
    c.cellOf rule = some place → a.store.paths.lookup place = some p →
    a'.Gains d g enough (c'.cellOf rule) p' e' → Drawable c.renderer c'.renderer E p p' a e'
  borrowed : ∀ (rule : Rule α) place a a' e p p', E a a' → p.erased = p'.erased →
    a.Gains d g enough (c.cellOf rule) p e → c'.cellOf rule = some place →
    a'.store.paths.lookup place = some p' → Drawable c.renderer c'.renderer E p p' e a'
  had : ∀ place a a' p p', E a a' → p.erased = p'.erased →
    a.store.paths.lookup place = some p → a'.store.paths.lookup place = some p' →
    Drawable c.renderer c'.renderer E p p' a a'

theorem Session.Advanced.gains {s t : Session σ α} (h : s.Advanced d t) {enough : Nat}
    {cell : Option Address} {p : Path.Compiled α}
    (missed : ∀ place, cell = some place → s.store.paths.lookup place = none)
    (uid : p.uid = some s.store.nextUid) (rebuilds : s.store.Rebuilds d g enough)
    (kept : ∀ place, cell = some place → (s.store.keepPath place p).Rebuilds d g enough) :
    s.cargo.Gains d g enough cell p (t.keepPath cell p).cargo := by
  obtain ⟨sound, values, rfl⟩ := h
  cases cell with
  | none => exact ⟨missed, uid, rfl, rfl, rfl, rfl, sound, rebuilds⟩
  | some place => exact ⟨missed, uid, rfl, rfl, rfl, rfl, sound, kept place rfl⟩

theorem Session.Advanced.building {s t : Session σ α} (h : s.Advanced d t)
    (hs : s.building = none) (cell : Option Address) (p : Path.Compiled α) :
    (t.keepPath cell p).building = none := by
  obtain ⟨-, values, rfl⟩ := h
  cases cell <;> exact hs

theorem Session.advanced_numbered {t : Session σ α} (sound : t.store.Sound d.values) :
    t.Advanced d t.numbered :=
  ⟨sound, t.store.values, rfl⟩

/-- A finished path has the identity that was next. -/
theorem Context.Runs.uid_eq {n : Nat} (runs : c.Runs n) {rule : Rule α} {params : List (Value α)}
    {s t : Session σ α} (hs : s.building = none) {p : Path.Compiled α}
    (built : (Context.buildPath rule (c.enterBody rule.body) params).run s = .ok p t)
    (advanced : s.Advanced d t) : p.uid = some s.store.nextUid := by
  have keeps := runs.keeps.enterBody rule.body (.root rule.shape) false params
  cases hb : (c.enterBody rule.body (.root rule.shape) false params).run s.opening with
  | failed e u =>
    rw [Context.buildPath_failed rule hs hb] at built
    cases built
  | ok b u =>
    obtain ⟨q, -, -, -, -, run⟩ := Context.buildPath_ok rule keeps hs hb
    rw [run] at built
    cases built
    obtain ⟨-, values, same⟩ := advanced
    have next : u.store.nextUid + 1 = s.store.nextUid + 1 :=
      congrArg (fun t : Session σ α => t.store.nextUid) same
    exact congrArg some (Nat.succ.inj next)

/-- Building a path leaves the paths that are kept as they are. -/
theorem Ties.still {r : Renderer σ α} {r' : Renderer σ' α} (h : Ties d r r' E) (a : Cargo σ α)
    (a' : Cargo σ' α) : Ties d r r' fun e e' =>
      E e e' ∧ e.store.paths = a.store.paths ∧ e'.store.paths = a'.store.paths where
  random e e' he := h.random e e' he.1
  draw e e' random he := ⟨h.draw e e' random he.1, he.2⟩
  building e e' p p' he := ⟨h.building e e' p p' he.1, he.2⟩
  sound e e' he := h.sound e e' he.1
  keep e e' place v he hv := ⟨h.keep e e' place v he.1 hv, he.2⟩
  keep' e e' place v he hv := ⟨h.keep' e e' place v he.1 hv, he.2⟩
  cutoff e e' i depth he :=
    ⟨(h.cutoff e e' i depth he.1).1, (h.cutoff e e' i depth he.1).2, he.2⟩
  primitive e e' i p he := ⟨h.primitive e e' i p he.1, he.2⟩

theorem Path.Compiled.Rebuilt.alike {rule : Rule α} {enough : Nat} {p q : Path.Compiled α}
    (h : p.Rebuilt d rule enough) (same : p.erased = q.erased) : q.Rebuilt d rule enough := by
  intro σ c m s params runs at_rule length
  rw [← same]
  exact h σ c m s params runs at_rule length

structure Supply (d : Draft α) (g : Grammar α) (enough : Nat) (numbered : Prop)
    (E : Cargo σ α → Cargo σ' α → Prop) (c : Context σ α) (c' : Context σ' α) (n m : Nat) :
    Prop where
  loads : d.Loads g
  charts : d.known.Charts d.globalScope
  ties : Ties d c.renderer c'.renderer E
  runs : c.Runs n
  runs' : c'.Runs m
  low : n ≤ enough
  high : enough ≤ m
  stocked : Stocked d g enough numbered E c c'

namespace Supply

variable {enough n m i j : Nat} {shape : Shape α} {rule : Rule α} {b : Body α}
  {params : List (Value α)} {s : Session σ α} {s' : Session σ' α}

theorem had (h : Supply d g enough numbered E c c' n m) (hi : g.shapes[i]? = some shape)
    (hj : shape.rules[j]? = some rule) (hp : params.length = rule.body.params.length)
    (hs : Beside d numbered E s s') {place place' : Address} {p p' : Path.Compiled α}
    (cell : c.cellOf rule = some place) (found : s.store.paths.lookup place = some p)
    (cell' : c'.cellOf rule = some place') (found' : s'.store.paths.lookup place' = some p') :
    Fetched c.renderer c'.renderer E
      ((c.keptPath rule (c.enterBody rule.body) params).run s)
      ((c'.keptPath rule (c'.enterBody rule.body) params).run s') := by
  have here := Context.cell_of_cellOf cell
  have here' := Context.cell_of_cellOf cell'
  cases here.symm.trans here'
  obtain ⟨rebuilds, rebuilds'⟩ := h.stocked.rebuilds _ _ hs.tied
  have again := (rebuilds place p found).2 i j shape rule hi hj here
  have again' := (rebuilds' place p' found').2 i j shape rule hi hj here
  -- both paths are what building the rule here would give
  have alike : p.erased = p'.erased := by
    rcases again _ c' m s' params h.runs' hs.right hp with ⟨low, -⟩ | ⟨q, t, run, same, -⟩
    · exact absurd h.high (Nat.not_le.mpr low)
    rcases again' _ c' m s' params h.runs' hs.right hp with ⟨low, -⟩ | ⟨q', t', run', same', -⟩
    · exact absurd h.high (Nat.not_le.mpr low)
    rw [run] at run'
    cases run'
    exact same.symm.trans same'
  rw [Context.keptPath_hit cell found, Context.keptPath_hit cell' found']
  exact .found alike hs.left.building hs.right.building
    (h.stocked.had place _ _ p p' hs.tied alike found found')

theorem lent (h : Supply d g enough numbered E c c' n m) (hi : g.shapes[i]? = some shape)
    (hj : shape.rules[j]? = some rule) (hp : params.length = rule.body.params.length)
    (hs : Beside d numbered E s s') {place : Address} {p : Path.Compiled α}
    (cell : c.cellOf rule = some place) (found : s.store.paths.lookup place = some p)
    (missed : ∀ place, c'.cellOf rule = some place → s'.store.paths.lookup place = none) :
    Fetched c.renderer c'.renderer E
      ((c.keptPath rule (c.enterBody rule.body) params).run s)
      ((c'.keptPath rule (c'.enterBody rule.body) params).run s') := by
  obtain ⟨rebuilds, rebuilds'⟩ := h.stocked.rebuilds _ _ hs.tied
  have again := (rebuilds place p found).2 i j shape rule hi hj (Context.cell_of_cellOf cell)
  rcases again _ c' m s' params h.runs' hs.right hp with ⟨low, -⟩ | ⟨q, t, run, same, advanced⟩
  · exact absurd h.high (Nat.not_le.mpr low)
  have uid := h.runs'.uid_eq hs.right.building run advanced
  rw [Context.keptPath_hit cell found, Context.keptPath_miss missed, run]
  refine .found same.symm hs.left.building (advanced.building hs.right.building _ _)
    (h.stocked.lent rule place _ _ _ p q hs.tied same.symm cell found
      (advanced.gains missed uid rebuilds' fun place' cell' => ?_))
  exact rebuilds'.keepPath h.loads hi hj (Context.cell_of_cellOf cell') (uid ▸ rfl)
    (again.alike same.symm)

theorem borrowed (h : Supply d g enough numbered E c c' n m) (hi : g.shapes[i]? = some shape)
    (hj : shape.rules[j]? = some rule) (hp : params.length = rule.body.params.length)
    (hs : Beside d numbered E s s')
    (missed : ∀ place, c.cellOf rule = some place → s.store.paths.lookup place = none)
    {place : Address} {p' : Path.Compiled α} (cell' : c'.cellOf rule = some place)
    (found' : s'.store.paths.lookup place = some p') :
    Fetched c.renderer c'.renderer E
      ((c.keptPath rule (c.enterBody rule.body) params).run s)
      ((c'.keptPath rule (c'.enterBody rule.body) params).run s') := by
  obtain ⟨rebuilds, rebuilds'⟩ := h.stocked.rebuilds _ _ hs.tied
  have again := (rebuilds' place p' found').2 i j shape rule hi hj (Context.cell_of_cellOf cell')
  rw [Context.keptPath_hit cell' found', Context.keptPath_miss missed]
  rcases again _ c n s params h.runs hs.left hp with ⟨-, t, run⟩ | ⟨q, t, run, same, advanced⟩
  · rw [run]
    exact .quits
  have uid := h.runs.uid_eq hs.left.building run advanced
  rw [run]
  refine .found same (advanced.building hs.left.building _ _) hs.right.building
    (h.stocked.borrowed rule place _ _ _ q p' hs.tied same
      (advanced.gains missed uid rebuilds fun other cell => ?_) cell' found')
  exact rebuilds.keepPath h.loads hi hj (Context.cell_of_cellOf cell) (uid ▸ rfl)
    (again.alike same.symm)

theorem built (h : Supply d g enough numbered E c c' n m) (hi : g.shapes[i]? = some shape)
    (hj : shape.rules[j]? = some rule) (of : d.RuleOf i j shape rule b)
    (path : shape.isPath = true) (hp : params.length = rule.body.params.length)
    (hs : Beside d numbered E s s')
    (missed : ∀ place, c.cellOf rule = some place → s.store.paths.lookup place = none)
    (missed' : ∀ place, c'.cellOf rule = some place → s'.store.paths.lookup place = none) :
    Fetched c.renderer c'.renderer E
      ((c.keptPath rule (c.enterBody rule.body) params).run s)
      ((c'.keptPath rule (c'.enterBody rule.body) params).run s') := by
  have builds := (h.ties.still s.cargo s'.cargo).builds h.loads h.runs h.runs'
    (Nat.le_trans h.low h.high) of path params
    ⟨hs.left, hs.right, hs.faces, hs.tied, rfl, rfl⟩
  rw [Context.keptPath_miss missed, Context.keptPath_miss missed']
  generalize hx : (Context.buildPath rule (c.enterBody rule.body) params).run s = o at builds ⊢
  generalize (Context.buildPath rule (c'.enterBody rule.body) params).run s' = o' at builds ⊢
  cases builds with
  | quits => exact .quits
  | failed outside => exact .failed ⟨outside.left, outside.right, outside.tied.1⟩
  | @built p p' t t' alike uid uid' frame frame' outside =>
    obtain ⟨tied, paths, paths'⟩ := outside.tied
    have paths : t.store.paths = s.store.paths := paths
    have paths' : t'.store.paths = s'.store.paths := paths'
    obtain ⟨sound, sound'⟩ := h.ties.sound _ _ tied
    obtain ⟨rebuilds, rebuilds'⟩ := h.stocked.rebuilds _ _ tied
    have advanced := Session.advanced_numbered sound
    have advanced' := Session.advanced_numbered sound'
    have again : ∀ place, rule.cell = some place → p.Rebuilt d rule enough := by
      intro place cell
      have static : rule.isStatic = true := by rw [Rule.isStatic, cell]; rfl
      exact (h.runs.rebuilt h.loads h.charts of static hs.left hp hx).mono h.low
    refine .found alike (advanced.building outside.left _ _) (advanced'.building outside.right _ _)
      (h.stocked.built rule _ _ _ _ p p' tied alike (fun same => ?_)
        (advanced.gains (paths ▸ missed) uid rebuilds fun place cell => ?_)
        (advanced'.gains (paths' ▸ missed') uid' rebuilds' fun place cell => ?_))
    · rw [frame, frame']
      have height : s.stack.height = s'.stack.height :=
        congrArg Array.size (hs.faces.same trivial).slots
      have session : s.stack.session = s'.stack.session := hs.faces.numbered same
      simp only [Stack.frameRef, height, session]
    · have here := Context.cell_of_cellOf cell
      exact rebuilds.keepPath h.loads hi hj here (uid ▸ rfl) (again place here)
    · have here := Context.cell_of_cellOf cell
      exact rebuilds'.keepPath h.loads hi hj here (uid' ▸ rfl) ((again place here).alike alike)

theorem pathsTied (h : Supply d g enough numbered E c c' n m) :
    PathsTied d g numbered E c c' := by
  intro i j shape rule b hi hj of path x hx s s' hs
  refine Fetched.pathRule ?_
  rcases c.stock rule s with ⟨place, p, cell, found⟩ | missed
  · rcases c'.stock rule s' with ⟨place', p', cell', found'⟩ | missed'
    · exact h.had hi hj hx hs cell found cell' found'
    · exact h.lent hi hj hx hs cell found missed'
  · rcases c'.stock rule s' with ⟨place', p', cell', found'⟩ | missed'
    · exact h.borrowed hi hj hx hs missed cell' found'
    · exact h.built hi hj of path hx hs missed missed'

end Supply

/-- Two settings are side by side once it is known what comes of their paths, with fuel
enough on the second side to build again what the first side finds in its store. -/
theorem Setting.Matched.of_stocked {t : Setting σ α} {t' : Setting σ' α} {enough fuel extra : Nat}
    (loads : d.Loads g) (runs : t.Runs g) (runs' : t'.Runs g)
    (ties : Ties d t.renderer t'.renderer E)
    (stocked : ∀ n m, Stocked d g enough numbered E (t.level n) (t'.level m))
    (low : fuel ≤ enough) (high : enough ≤ extra) : Matched d g numbered E t t' fuel extra where
  loads := loads
  runs := runs
  runs' := runs'
  ties := ties
  path charts n hn := Supply.pathsTied ⟨loads, charts, ties, runs.level n, runs'.level (extra + n),
    Nat.le_trans (Nat.le_of_lt hn) low, Nat.le_add_right_of_le high, stocked n (extra + n)⟩

end

end ShapeGrammar
