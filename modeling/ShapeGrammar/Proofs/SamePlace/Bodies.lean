import ShapeGrammar.Proofs.SamePlace.Sessions

/-!
# Bodies entered at one place of a grammar

One body is entered in two sessions at the same place, each with its own fuel and its
own way of reusing what was worked out before. A constant define comes to the value
known for it on both sides, whether it is taken from the store or evaluated, and
folded ranges and arguments are what an evaluation gives. So the two entries end
alike, and what either side keeps on the way is sound.
-/

set_option autoImplicit false

namespace ShapeGrammar

open Attempt

variable {σ σ' α : Type} [Scalar α]

namespace Context

structure Paired (f : Footing α) (D : Cargo σ α → Cargo σ' α → Prop) (c : Context σ α)
    (c' : Context σ' α) : Prop where
  keeps : c.Keeps
  keeps' : c'.Keeps
  env : ∃ n m, n ≤ m ∧ c.env = Session.environmentAt n ∧ c'.env = Session.environmentAt m
  own : c.strategy.ownCoordinates = c'.strategy.ownCoordinates
  replace : f.draws → ∀ k scope head parent,
    InStep (Abreast.parting D) (Abreast f D k scope) Eq (c.replace head parent)
      (c'.replace head parent)

variable {f : Footing α} {D : Cargo σ α → Cargo σ' α → Prop} {c : Context σ α}
  {c' : Context σ' α} {k : Known α} {scope : Scope}

theorem Paired.env_inStep (h : Paired f D c c') (bond : Bond f D) :
    Env.InStep (Abreast.parting D) (Abreast f D k scope) f.free scope.isFixed c.env c'.env := by
  obtain ⟨n, m, hle, same, same'⟩ := h.env
  rw [same, same']
  exact Abreast.environmentAt bond hle

/-! ### Folding -/

theorem Paired.loopRange (h : Paired f D c c') (bond : Bond f D) {spec : LoopSpec α}
    (folded : spec.Folded) (hr : f.free ∨ spec.range.isConstantIn scope.isFixed = true) :
    InStep (Abreast.parting D) (Abreast f D k scope) Eq (c.loopRange spec) (c'.loopRange spec) := by
  intro s s' hs
  obtain ⟨n, m, -, same, same'⟩ := h.env
  rw [loopRange_afresh same (Session.unspoilt_of_matches hs.sees.left.known) folded,
    loopRange_afresh same' (Session.unspoilt_of_matches hs.sees.right.known) folded]
  have env : Env.InStep (Abreast.parting D) (Abreast f D k scope) f.free scope.isFixed
      c.afresh.env c'.afresh.env := h.env_inStep bond
  exact loopRange_inStep env.answers rfl spec (Expr.constant_uses hr)
    (fun _ _ _ _ ht => ⟨rfl, ht.cargo⟩) s s' hs

theorem Paired.opArgs (h : Paired f D c c') (bond : Bond f D) {o : Path.Op α}
    (folded : o.Folded) (ho : f.free ∨ o.isConstantIn scope.isFixed = true) :
    InStep (Abreast.parting D) (Abreast f D k scope) Eq (c.opArgs o) (c'.opArgs o) := by
  intro s s' hs
  obtain ⟨n, m, -, same, same'⟩ := h.env
  rw [opArgs_afresh same (Session.unspoilt_of_matches hs.sees.left.known) folded,
    opArgs_afresh same' (Session.unspoilt_of_matches hs.sees.right.known) folded]
  have env : Env.InStep (Abreast.parting D) (Abreast f D k scope) f.free scope.isFixed
      c.afresh.env c'.afresh.env := h.env_inStep bond
  exact opArgs_inStep env.answers rfl o (Path.Op.constant_uses ho) s s' hs

/-! ### Defines -/

def constantValue (c : Context σ α) (place : Address) (d : Define α) (span : Span) :
    Action σ α (Value α) :=
  if c.strategy.reuse then c.keptValue place d span else c.env.evalDefine d span

theorem define_constant (c : Context σ α) (head : Head α) {d : Define α} {place : Address}
    (function : d.isFunction = false) (cell : d.cell = some place) :
    c.define head d = (c.constantValue place d head.span >>= fun v =>
      Action.bindName d.name (.value v) head.span) := by
  unfold define constantValue
  rw [function, cell]
  cases c.strategy.reuse <;> rfl

theorem define_deferred (c : Context σ α) (head : Head α) {d : Define α}
    (function : d.isFunction = false) (cell : d.cell = none) :
    c.define head d = Action.bindName d.name (.deferred d) head.span := by
  unfold define
  rw [function, cell]
  rfl

/-- A constant define comes to what is known of it. At most it is kept. -/
theorem constantValue_run {n : Nat} (hc : c.env = Session.environmentAt n) {s : Session σ α}
    (seen : k.Matches (s.stack.visible s.view)) {values : Address → Option (Value α)}
    (sound : s.store.Sound values) {place : Address} {d : Define α} {span : Span}
    (function : d.isFunction = false) (constant : d.isConstantIn k.knows = true)
    (site : values place = d.known k span) :
    (∃ e, (c.constantValue place d span).run s = .failed e s ∧ d.outcome k span = .failed e ()) ∨
    ∃ v, d.outcome k span = .ok v () ∧ values place = some v ∧
      ((c.constantValue place d span).run s = .ok v s ∨
        (c.constantValue place d span).run s =
          .ok v { s with store := s.store.keep place v }) := by
  have value := Session.evalDefine_known seen n constant span
  rw [← hc] at value
  cases outcome : d.outcome k span with
  | failed e u =>
    left
    have known : values place = none := by simp [site, Define.known, function, constant, outcome]
    rw [outcome] at value
    refine ⟨e, ?_, rfl⟩
    unfold constantValue
    split
    · cases found : s.store.values.lookup place with
      | some v =>
        rw [sound place v found] at known
        cases known
      | none => simp [keptValue, found, value, Outcome.mapState]
    · exact value
  | ok v u =>
    right
    have known : values place = some v := by simp [site, Define.known, function, constant, outcome]
    rw [outcome] at value
    refine ⟨v, rfl, known, ?_⟩
    unfold constantValue
    split
    · cases found : s.store.values.lookup place with
      | some w =>
        rw [sound place w found] at known
        cases known
        left
        simp [keptValue, found]
      | none =>
        right
        simp only [keptValue, run_bind, run_state, found, value, Outcome.mapState]
        rfl
    · exact .inl value

theorem Paired.constantValue (h : Paired f D c c') (bond : Bond f D) {place : Address}
    {d : Define α} {span : Span} (function : d.isFunction = false)
    (constant : d.isConstantIn k.knows = true) (site : f.values place = d.known k span) :
    InStep (Abreast.parting D) (Abreast f D k scope)
      (fun v v' => v = v' ∧ f.values place = some v)
      (c.constantValue place d span) (c'.constantValue place d span) := by
  intro s s' hs
  obtain ⟨n, m, -, same, same'⟩ := h.env
  obtain ⟨sound, sound'⟩ := bond.sound _ _ hs.cargo
  have left := constantValue_run same hs.sees.left.known sound function constant site
  have right := constantValue_run same' hs.sees.right.known sound' function constant site
  rcases left with ⟨e, run, outcome⟩ | ⟨v, outcome, value, runs⟩
  · rcases right with ⟨e', run', outcome'⟩ | ⟨v', outcome', -, -⟩
    · rw [outcome] at outcome'
      cases outcome'
      rw [run, run']
      exact .together ⟨rfl, hs.cargo⟩
    · rw [outcome] at outcome'
      cases outcome'
  · rcases right with ⟨e', -, outcome'⟩ | ⟨v', outcome', -, runs'⟩
    · rw [outcome] at outcome'
      cases outcome'
    · rw [outcome] at outcome'
      cases outcome'
      have keep := bond.keep _ _ place v hs.cargo value
      have keep' := bond.keep' _ _ place v hs.cargo value
      rcases runs with run | run <;> rcases runs' with run' | run' <;> rw [run, run']
      · exact .ok ⟨rfl, value⟩ hs
      · exact .ok ⟨rfl, value⟩ ⟨hs.sees, keep'⟩
      · exact .ok ⟨rfl, value⟩ ⟨hs.sees, keep⟩
      · exact .ok ⟨rfl, value⟩ ⟨hs.sees, bond.keep' _ _ place v keep value⟩

theorem Paired.define (h : Paired f D c c') (bond : Bond f D) {place : Address} {head : Head α}
    {d : Define α} (clear : Statement.shadows (.define head d) = false)
    (site : f.values place = d.known k head.span) :
    Leads (Abreast.parting D) (Abreast f D k scope)
      (Abreast f D ((d.name, d.known k head.span) :: k) (d.entry scope :: scope)) Eq
      (c.define head (d.resolve scope place)) (c'.define head (d.resolve scope place)) := by
  suffices charted : k.Charts scope → Leads (Abreast.parting D) (Abreast f D k scope)
      (Abreast f D ((d.name, d.known k head.span) :: k) (d.entry scope :: scope)) Eq
      (c.define head (d.resolve scope place)) (c'.define head (d.resolve scope place)) from
    fun s s' hs => charted hs.sees.charts s s' hs
  intro charts
  have function' : (d.resolve scope place).isFunction = d.isFunction :=
    d.resolve_isFunction scope place
  cases function : d.isFunction with
  | true =>
    simp only [Context.define, function', function, Define.resolve_name]
    have pure : Builtin.namesPure d.name = false := by
      simpa [Statement.shadows, function] using clear
    have bears : Slot.Bears (d.name, d.known k head.span)
        ⟨d.name, .function (d.resolve scope place)⟩ := by
      refine ⟨rfl, ?_, fun _ _ => pure⟩
      simp [Define.known, function]
    exact Abreast.bindName ⟨by simp [Define.known, Define.entry, function], bears, bears,
      fun _ => rfl, by simp [Define.entry, function]⟩ head.span
  | false =>
    rw [function] at function'
    have cell := d.resolve_cell scope place function
    rw [← charts.knows] at cell
    cases constant : d.isConstantIn k.knows with
    | true =>
      rw [constant] at cell
      rw [define_constant c head function' cell, define_constant c' head function' cell,
        Define.resolve_name]
      refine Leads.bind (h.constantValue bond (by simpa using function) (by simpa using constant)
        (by simpa using site)) ?_
      rintro v _ ⟨rfl, value⟩
      have bears : Slot.Bears (d.name, d.known k head.span) ⟨d.name, .value v⟩ := by
        refine ⟨rfl, ?_, Slot.plain_value d.name v⟩
        intro w known
        rw [← site, value] at known
        cases known
        rfl
      refine Abreast.bindName ⟨⟨?_, ?_⟩, bears, bears, fun _ => rfl, fun _ _ => ⟨rfl, trivial⟩⟩
        head.span
      · simp [Define.entry, function]
      · simp [Define.entry, function, ← site, value, ← charts.knows, constant]
    | false =>
      rw [constant] at cell
      rw [define_deferred c head function' cell, define_deferred c' head function' cell,
        Define.resolve_name]
      have bears : Slot.Bears (d.name, d.known k head.span)
          ⟨d.name, .deferred (d.resolve scope place)⟩ := by
        refine ⟨rfl, ?_, Slot.plain_deferred d.name _⟩
        simp [Define.known, function, constant]
      refine Abreast.bindName ⟨⟨?_, ?_⟩, bears, bears, fun _ => rfl, ?_⟩ head.span
      · simp [Define.entry, function]
      · simp [Define.entry, Define.known, function, ← charts.knows, constant]
      · intro _ fixed
        refine ⟨rfl, ?_⟩
        simpa [Define.entry, function, Binding.FixedIn] using fixed

/-! ### Statements and bodies -/

/-- Statements in a row, each seeing what those before it bound. -/
theorem Paired.runAll_of {statements : List (Statement α)} {place : Address} {i : Nat}
    (sited : Statement.AllSited f k scope place i statements) (parent : Instance α) (follows : Bool)
    (hs : ∀ st ∈ statements, ∀ k scope place, st.Sited f k scope place → ∀ parent follows,
      Leads (Abreast.parting D) (Abreast f D k scope)
        (Abreast f D (st.known k) (st.scopeAfter scope))
        Eq (c.run (st.resolve scope place) parent follows)
        (c'.run (st.resolve scope place) parent follows)) :
    Leads (Abreast.parting D) (Abreast f D k scope)
      (Abreast f D (Statement.knownAll k statements) (Statement.scopeAfterAll scope statements)) Eq
      (c.runAll (Statement.resolveAll scope place i statements) parent follows)
      (c'.runAll (Statement.resolveAll scope place i statements) parent follows) := by
  induction statements generalizing k scope i with
  | nil =>
    rw [Statement.resolveAll, Context.runAll, Context.runAll]
    exact Leads.pure rfl
  | cons st rest ih =>
    rw [Statement.resolveAll, Context.runAll, Context.runAll]
    refine Leads.andThen (hs st (by simp) k scope _ sited.head parent follows) fun _ => ?_
    exact ih sited.tail fun st hst => hs st (by simp [hst])

/-- Two ways into one body, which may differ in what its parameters are given
where these are not fixed. -/
structure Seeds (f : Footing α) (paramsFixed : Bool) (seed seed' : List (Value α)) : Prop where
  length : seed.length = seed'.length
  same : f.free ∨ paramsFixed = true → seed = seed'

omit [Scalar α] in
theorem Seeds.refl (f : Footing α) (paramsFixed : Bool) (seed : List (Value α)) :
    Seeds f paramsFixed seed seed :=
  ⟨rfl, fun _ => rfl⟩

/-- Entering a body pushes a frame, so what the frame around it binds does not
matter. -/
theorem Paired.enterBody_of (h : Paired f D c c') {b : Body α} {paramsFixed : Bool}
    {place : Address} (sited : b.Sited f k scope paramsFixed place)
    (hs : ∀ st ∈ b.statements, ∀ k scope place, st.Sited f k scope place → ∀ parent follows,
      Leads (Abreast.parting D) (Abreast f D k scope)
        (Abreast f D (st.known k) (st.scopeAfter scope))
        Eq (c.run (st.resolve scope place) parent follows)
        (c'.run (st.resolve scope place) parent follows))
    (parent : Instance α) (follows : Bool) {seed seed' : List (Value α)}
    (seeds : Seeds f paramsFixed seed seed') :
    Leads (Abreast.parting D)
      (fun s s' => Faces f k scope s.control s'.control ∧ D s.cargo s'.cargo)
      (fun s s' => D s.cargo s'.cargo) Eq
      (c.enterBody (b.resolve scope paramsFixed place) parent follows seed)
      (c'.enterBody (b.resolve scope paramsFixed place) parent follows seed') := by
  obtain ⟨statements, params, slots⟩ := b
  rw [Body.resolve, enterBody, enterBody, ← seeds.length]
  by_cases count : seed.length = params.length
  · rw [if_neg (not_not_intro count), if_neg (not_not_intro count)]
    have pushes := (Action.pushes_bindParams params seed).bind fun _ =>
      (h.keeps.runAll (Statement.resolveAll (scope.bind paramsFixed params) place 0 statements)
        parent follows).bindKeeps fun _ => keeps_checkSlots slots
    have pushes' := (Action.pushes_bindParams params seed').bind fun _ =>
      (h.keeps'.runAll (Statement.resolveAll (scope.bind paramsFixed params) place 0 statements)
        parent follows).bindKeeps fun _ => keeps_checkSlots slots
    have bound : Leads (Abreast.parting D) (Abreast f D k scope)
        (Abreast f D (k.bind params) (scope.bind paramsFixed params)) Eq
        (Action.bindParams params seed) (Action.bindParams params seed') :=
      Abreast.bindParams count (seeds.length ▸ count) seeds.same
    have inside := Leads.andThen bound fun _ =>
      Leads.andThen (Paired.runAll_of sited.statements parent follows hs) fun _ =>
        Abreast.checkSlots slots
    exact Leads.wrap inside (Action.wraps_inFrame pushes.stack) (Action.wraps_inFrame pushes'.stack)
      (fun _ _ hs => ⟨.pushFrame hs.1, hs.2⟩) (fun _ _ _ _ _ ht => ht.cargo)
      (fun _ _ _ _ _ _ _ parted => parted) fun _ => id
  · rw [if_pos count, if_pos count]
    exact Leads.fail fun _ _ hs => ⟨rfl, hs.2⟩

/-- A statement runs alike in both sessions, and what follows it sees what it bound. -/
theorem Paired.run (h : Paired f D c c') (bond : Bond f D) (st : Statement α) :
    ∀ k scope place, st.Sited f k scope place → ∀ parent follows,
      Leads (Abreast.parting D) (Abreast f D k scope)
        (Abreast f D (st.known k) (st.scopeAfter scope))
        Eq (c.run (st.resolve scope place) parent follows)
        (c'.run (st.resolve scope place) parent follows) := by
  -- Bodies are entered anywhere: each in the scope and at the place that its statement
  -- gives it.
  induction st using Statement.induct (P := fun b => ∀ k scope paramsFixed place,
    b.Sited f k scope paramsFixed place → ∀ parent follows seed seed',
      Seeds f paramsFixed seed seed' → InStep (Abreast.parting D) (Abreast f D k scope) Eq
        (c.enterBody (b.resolve scope paramsFixed place) parent follows seed)
        (c'.enterBody (b.resolve scope paramsFixed place) parent follows seed')) with
  | body b hs k scope paramsFixed place sited parent follows seed seed' seeds =>
    exact Abreast.kept (h.keeps.enterBody _ parent follows seed)
      (h.keeps'.enterBody _ parent follows seed') fun s s' abreast =>
        h.enterBody_of sited hs parent follows seeds s s' ⟨abreast.sees.toFaces, abreast.cargo⟩
  | replace head =>
    intro k scope place sited parent follows
    rw [Statement.resolve, Context.run, Context.run]
    rcases sited.draws with draws | none
    · exact h.replace draws k scope head parent
    · have target : head.target = .none := by
        simp only [Statement.yield] at none
        split at none
        · assumption
        · cases none
      simp only [Context.replace, target]
      exact Leads.pure rfl
  | loop head spec body last hbody hlast =>
    intro k scope place sited parent follows
    have parts := sited.loop
    rw [Statement.resolve, Context.run, Context.run]
    refine loop_inStep (h.env_inStep bond).answers head (Bundle.constant_uses parts.mods) spec
      (h.loopRange bond parts.folded parts.range) parent follows ?_ ?_ ?_
    · simp only [startFrom, h.own]
    · exact fun i follows x => hbody _ _ _ _ parts.body i follows _ _ (.refl _ _ _)
    · exact fun i follows x => hlast _ _ _ _ parts.last i follows _ _ (.refl _ _ _)
  | transform head spec body hbody =>
    intro k scope place sited parent follows
    have parts := sited.transform
    rw [Statement.resolve, Context.run, Context.run]
    refine transform_inStep (h.env_inStep bond).answers ?_ head (Bundle.constant_uses parts.mods)
      spec (fun g hg => Symmetry.constant_uses (parts.generators g hg)) parent follows ?_ ?_
    · exact fun s s' t t' hs ht => ⟨hs.sees, bond.restore _ _ _ _ hs.cargo ht.cargo⟩
    · simp only [startFrom, h.own]
    · exact fun i follows => hbody _ _ _ _ parts.body i follows _ _ (.refl _ _ _)
  | branch head cond thenBody elseBody hthen helse =>
    intro k scope place sited parent follows
    have parts := sited.branch
    rw [Statement.resolve, Context.run, Context.run]
    exact branch_inStep (h.env_inStep bond).answers cond (Expr.constant_uses parts.cond) parent
      follows [] (hthen _ _ _ _ parts.thenBody parent follows _ _ (.refl _ _ _))
      (helse _ _ _ _ parts.elseBody parent follows _ _ (.refl _ _ _))
  | switch head selector keys bodies default hbodies hdefault =>
    intro k scope place sited parent follows
    have parts := sited.switch
    rw [Statement.resolve, Context.run, Context.run]
    refine Leads.andThen (selectKey_inStep (h.env_inStep bond).answers selector
      (Expr.constant_uses parts.selector)) fun key => ?_
    refine switch_inStep keys _ _ key parent follows fun b hb => ?_
    rcases hb with rfl | hb
    · exact hdefault _ _ _ _ parts.default parent follows _ _ (.refl _ _ _)
    · obtain ⟨i, b, found, rfl⟩ := Body.mem_resolveAll hb
      rw [Nat.add_comm 1 i]
      exact hbodies b (List.mem_of_getElem? found) _ _ _ _ (parts.bodies i b found) parent follows
        _ _ (.refl _ _ _)
  | define head d =>
    intro k scope place sited parent follows
    rw [Statement.resolve, Context.run, Context.run]
    exact h.define bond (sited.clear _ List.mem_cons_self)
      (by simpa [Statement.site] using sited.site [])
  | op head o =>
    intro k scope place sited parent follows
    rw [Statement.resolve, Context.run, Context.run]
    have folded : o.Folded := fun args same => same ▸ sited.made.op_inv
    exact op_inStep o (h.opArgs bond folded sited.fixed) parent follows h.own fun args m =>
      Abreast.buildWith bond _ (fun p => p.append_erased _ _ _ _ _) (keeps_append _ _ _ _ args m)
        (keeps_append _ _ _ _ args m)
  | command head spec =>
    intro k scope place sited parent follows
    rw [Statement.resolve, Context.run, Context.run]
    have fixed := sited.fixed
    simp only [Statement.isFixed, Bool.and_eq_true] at fixed
    exact command_inStep (h.env_inStep bond).answers head
      (Bundle.constant_uses (fixed.imp_right And.left)) spec
      (Path.CommandSpec.constant_uses (fixed.imp_right And.right)) fun command =>
        Abreast.buildWith bond _ (fun p => p.addCommand_erased command) (keeps_addCommand _ command)
          (keeps_addCommand _ command)

theorem Paired.enterBody (h : Paired f D c c') (bond : Bond f D) {b : Body α} {paramsFixed : Bool}
    {place : Address} (sited : b.Sited f k scope paramsFixed place) (parent : Instance α)
    (follows : Bool) {seed seed' : List (Value α)} (seeds : Seeds f paramsFixed seed seed') :
    Leads (Abreast.parting D)
      (fun s s' => Faces f k scope s.control s'.control ∧ D s.cargo s'.cargo)
      (fun s s' => D s.cargo s'.cargo) Eq
      (c.enterBody (b.resolve scope paramsFixed place) parent follows seed)
      (c'.enterBody (b.resolve scope paramsFixed place) parent follows seed') :=
  h.enterBody_of sited (fun st _ => h.run bond st) parent follows seeds

theorem Paired.runGlobals (h : Paired f D c c') (bond : Bond f D) (k : Known α) (scope : Scope)
    {statements : List (Statement α)} {i : Nat}
    (defines : ∀ st ∈ statements, ∃ head d, st = .define head d)
    (clear : ∀ st ∈ statements, st.shadows = false)
    (site : ∀ j, f.values [i + j] = Statement.siteAll k statements [j]) (parent : Instance α)
    (follows : Bool) :
    Leads (Abreast.parting D) (Abreast f D k scope)
      (Abreast f D (Statement.knownAll k statements) (Statement.scopeAfterAll scope statements)) Eq
      (c.runAll (Statement.resolveAll scope [] i statements) parent follows)
      (c'.runAll (Statement.resolveAll scope [] i statements) parent follows) := by
  induction statements generalizing k scope i with
  | nil =>
    rw [Statement.resolveAll, Context.runAll, Context.runAll]
    exact Leads.pure rfl
  | cons st rest ih =>
    obtain ⟨head, d, rfl⟩ := defines _ List.mem_cons_self
    rw [Statement.resolveAll, Context.runAll, Context.runAll, Statement.resolve, Context.run,
      Context.run]
    refine Leads.andThen (h.define bond (clear _ List.mem_cons_self) ?_) fun _ => ?_
    · simpa [Statement.siteAll, Statement.site] using site 0
    · refine ih _ _ (fun st hst => defines st (by simp [hst]))
        (fun st hst => clear st (by simp [hst])) ?_
      intro j
      have next := site (j + 1)
      rw [Statement.siteAll] at next
      rw [Nat.add_right_comm i 1 j]
      exact next

end Context

end ShapeGrammar
