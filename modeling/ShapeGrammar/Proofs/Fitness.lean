import ShapeGrammar.Proofs.Sites

/-!
# Statements fit to be run

Outside a path a statement may replace shapes that exist, have rules and take
the arguments given; inside a path it may draw by operators and commands. Every
body is counted as it is entered. All of this is settled when a grammar is
loaded, provided that nothing was appended to a body after it was counted.
-/

set_option autoImplicit false

namespace ShapeGrammar

variable {α : Type}

/-! ### What is asked of a statement -/

structure Body.Counts (n : Nat) (b : Body α) : Prop where
  params : b.params.length = n
  slots : b.slots = Body.countSlots b.params b.statements

def Shape.Takes (n : Nat) (shape : Shape α) : Prop :=
  shape.params.length = n ∧ shape.rules ≠ []

def Head.Resolves (shapes : List (Shape α)) (h : Head α) : Prop :=
  ∀ index, h.target = .shape index →
    ∃ shape, shapes[index]? = some shape ∧ shape.Takes h.args.length

/-- A statement that can be run inside a path, or outside of one. -/
inductive Statement.Fit (shapes : List (Shape α)) (inPath : Bool) : Statement α → Prop
  | replace {h : Head α} (outside : h.target ≠ .none → inPath = false)
      (resolves : h.Resolves shapes) : Fit shapes inPath (.replace h)
  | loop {h : Head α} {spec : LoopSpec α} {body last : Body α} (counts : body.Counts 1)
      (hbody : ∀ st ∈ body.statements, Fit shapes inPath st) (counts' : last.Counts 1)
      (hlast : ∀ st ∈ last.statements, Fit shapes inPath st) :
      Fit shapes inPath (.loop h spec body last)
  | transform {h : Head α} {spec : TransformSpec α} {body : Body α} (counts : body.Counts 0)
      (hbody : ∀ st ∈ body.statements, Fit shapes inPath st) :
      Fit shapes inPath (.transform h spec body)
  | branch {h : Head α} {cond : Expr α} {thenBody elseBody : Body α} (counts : thenBody.Counts 0)
      (hthen : ∀ st ∈ thenBody.statements, Fit shapes inPath st) (counts' : elseBody.Counts 0)
      (helse : ∀ st ∈ elseBody.statements, Fit shapes inPath st) :
      Fit shapes inPath (.branch h cond thenBody elseBody)
  | switch {h : Head α} {selector : Expr α} {keys : List (Int × Nat)} {bodies : List (Body α)}
      {default : Body α} (counts : ∀ b ∈ bodies, b.Counts 0)
      (hbodies : ∀ b ∈ bodies, ∀ st ∈ b.statements, Fit shapes inPath st)
      (counts' : default.Counts 0) (hdefault : ∀ st ∈ default.statements, Fit shapes inPath st) :
      Fit shapes inPath (.switch h selector keys bodies default)
  | define (h : Head α) (d : Define α) : Fit shapes inPath (.define h d)
  | op (h : Head α) (o : Path.Op α) (inside : inPath = true) : Fit shapes inPath (.op h o)
  | command (h : Head α) (c : Path.CommandSpec α) (inside : inPath = true) :
      Fit shapes inPath (.command h c)

/-! ### What the load settles -/

/-- The bodies of choices and transforms are as they were made, with nothing
appended since. -/
def Statement.Tidy : Statement α → Prop
  | .transform _ _ body => body = .ofStatements body.statements
  | .branch _ _ thenBody elseBody =>
    thenBody = .ofStatements thenBody.statements ∧ elseBody = .ofStatements elseBody.statements
  | .switch _ _ _ bodies default =>
    (∀ b ∈ bodies, b = .ofStatements b.statements) ∧ default = .ofStatements default.statements
  | _ => True

def Draft.Tidy (d : Draft α) : Prop := ∀ b ∈ d.bodies, ∀ st ∈ b.flatten, st.Tidy

/-- A path replaces nothing, and any other shape draws by no operator or command. -/
def Yield.Suits (inPath : Bool) (y : Yield) : Prop :=
  if inPath then y.replacement = false else y.operator = false ∧ y.command = false

theorem Yield.suits_join {inPath : Bool} {a b : Yield} :
    (a.join b).Suits inPath ↔ a.Suits inPath ∧ b.Suits inPath := by
  cases inPath with
  | true => simp [Suits, join]
  | false =>
    simp only [Suits, join, Bool.or_eq_false_iff]
    exact and_and_and_comm

theorem Yield.Suits.inPath {inPath : Bool} {y : Yield} (h : y.Suits inPath)
    (draws : y.operator = true ∨ y.command = true) : inPath = true := by
  cases inPath with
  | true => rfl
  | false =>
    obtain ⟨operator, command⟩ : y.operator = false ∧ y.command = false := h
    simp [operator, command] at draws

structure Body.Checked [Scalar α] (shapes : List (Shape α)) (inPath : Bool) (b : Body α) :
    Prop where
  made : ∀ st ∈ b.statements, st.Made
  parts : ∀ st ∈ b.flatten, st.Tidy ∧ st.head.referenceProblems shapes = []
  suits : b.yield.Suits inPath

structure Statement.Checked [Scalar α] (shapes : List (Shape α)) (inPath : Bool)
    (st : Statement α) : Prop where
  made : st.Made
  self : st.Tidy ∧ st.head.referenceProblems shapes = []
  parts : ∀ x ∈ st.inner, x.Tidy ∧ x.head.referenceProblems shapes = []
  suits : st.yield.Suits inPath

theorem Statement.inner_subset {statements : List (Statement α)} {st : Statement α}
    (h : st ∈ statements) : st.inner ⊆ Statement.flattenAll statements := by
  induction statements with
  | nil => cases h
  | cons other rest ih =>
    rw [Statement.flattenAll]
    rcases List.mem_cons.mp h with rfl | h
    · exact fun x hx => List.mem_cons_of_mem _ (List.mem_append_left _ hx)
    · exact fun x hx => List.mem_cons_of_mem _ (List.mem_append_right _ (ih h hx))

theorem Statement.suits_of_mem {inPath : Bool} {statements : List (Statement α)}
    (h : (Statement.yieldAll statements).Suits inPath) {st : Statement α} (hst : st ∈ statements) :
    st.yield.Suits inPath := by
  induction statements with
  | nil => cases hst
  | cons other rest ih =>
    rw [Statement.yieldAll, Yield.suits_join] at h
    rcases List.mem_cons.mp hst with rfl | hst
    · exact h.1
    · exact ih h.2 hst

theorem Body.suits_of_mem {inPath : Bool} {bodies : List (Body α)}
    (h : (Body.yieldAll bodies).Suits inPath) {b : Body α} (hb : b ∈ bodies) :
    b.yield.Suits inPath := by
  induction bodies with
  | nil => cases hb
  | cons other rest ih =>
    rw [Body.yieldAll, Yield.suits_join] at h
    rcases List.mem_cons.mp hb with rfl | hb
    · exact h.1
    · exact ih h.2 hb

theorem Statement.mem_resolveAll {scope : Scope} {place : Address} {i : Nat}
    {statements : List (Statement α)} {st : Statement α}
    (h : st ∈ Statement.resolveAll scope place i statements) :
    ∃ other ∈ statements, ∃ scope' place', st = other.resolve scope' place' := by
  induction statements generalizing scope i with
  | nil => cases h
  | cons other rest ih =>
    rw [Statement.resolveAll] at h
    rcases List.mem_cons.mp h with rfl | h
    · exact ⟨other, List.mem_cons_self, scope, place ++ [i], rfl⟩
    · obtain ⟨found, hfound, resolved⟩ := ih h
      exact ⟨found, List.mem_cons_of_mem _ hfound, resolved⟩

mutual

/-- What a body yields does not depend on its names. -/
theorem Body.yield_resolve (scope : Scope) (fixed : Bool) (place : Address) (b : Body α) :
    (b.resolve scope fixed place).yield = b.yield := by
  cases b with
  | mk statements params slots =>
    rw [Body.resolve, Body.yield, Body.yield]
    exact Statement.yieldAll_resolveAll _ place 0 statements

theorem Statement.yield_resolve (scope : Scope) (place : Address) (st : Statement α) :
    (st.resolve scope place).yield = st.yield := by
  cases st with
  | loop h spec body last =>
    simp only [Statement.resolve, Statement.yield, Body.yield_resolve _ _ _ body,
      Body.yield_resolve _ _ _ last]
  | transform h spec body =>
    simp only [Statement.resolve, Statement.yield, Body.yield_resolve _ _ _ body]
  | branch h cond thenBody elseBody =>
    simp only [Statement.resolve, Statement.yield, Body.yield_resolve _ _ _ thenBody,
      Body.yield_resolve _ _ _ elseBody]
  | switch h selector keys bodies default =>
    simp only [Statement.resolve, Statement.yield, Body.yieldAll_resolveAll _ _ _ bodies,
      Body.yield_resolve _ _ _ default]
  | _ => rfl

theorem Statement.yieldAll_resolveAll (scope : Scope) (place : Address) (i : Nat)
    (statements : List (Statement α)) :
    Statement.yieldAll (Statement.resolveAll scope place i statements) =
      Statement.yieldAll statements := by
  cases statements with
  | nil => rfl
  | cons st rest =>
    rw [Statement.resolveAll, Statement.yieldAll, Statement.yieldAll,
      Statement.yield_resolve _ _ st, Statement.yieldAll_resolveAll _ _ _ rest]

theorem Body.yieldAll_resolveAll (scope : Scope) (place : Address) (i : Nat)
    (bodies : List (Body α)) :
    Body.yieldAll (Body.resolveAll scope place i bodies) = Body.yieldAll bodies := by
  cases bodies with
  | nil => rfl
  | cons b rest =>
    rw [Body.resolveAll, Body.yieldAll, Body.yieldAll, Body.yield_resolve _ _ _ b,
      Body.yieldAll_resolveAll _ _ _ rest]

end

theorem Statement.countP_resolveAll (scope : Scope) (place : Address) (i : Nat)
    (statements : List (Statement α)) :
    (Statement.resolveAll scope place i statements).countP isDefine =
      statements.countP isDefine := by
  induction statements generalizing scope i with
  | nil => rfl
  | cons st rest ih =>
    have kind : (st.resolve scope (place ++ [i])).isDefine = st.isDefine := by
      cases st <;> rfl
    simp only [Statement.resolveAll, List.countP_cons, ih, kind]

theorem Body.Counts.resolve {n : Nat} {b : Body α} (h : b.Counts n) (scope : Scope) (fixed : Bool)
    (place : Address) : (b.resolve scope fixed place).Counts n := by
  obtain ⟨statements, params, slots⟩ := b
  rw [Body.resolve]
  refine ⟨h.params, h.slots.trans ?_⟩
  simp only [Body.countSlots, Statement.countP_resolveAll]

theorem Body.counts_make (params : List Param) (statements : List (Statement α)) :
    (Body.make params statements).Counts params.length :=
  ⟨rfl, rfl⟩

theorem Body.counts_of_eq {b : Body α} (h : b = .ofStatements b.statements) : b.Counts 0 := by
  rw [h]
  exact Body.counts_make [] _

section Checked

variable [Scalar α] {shapes : List (Shape α)} {inPath : Bool}

theorem Body.Checked.statement {b : Body α} (h : b.Checked shapes inPath) {st : Statement α}
    (hst : st ∈ b.statements) : st.Checked shapes inPath := by
  obtain ⟨statements, params, slots⟩ := b
  exact {
    made := h.made st hst
    self := h.parts st (Statement.mem_flattenAll hst)
    parts := fun x hx => h.parts x (Statement.inner_subset hst hx)
    suits := Statement.suits_of_mem h.suits hst }

namespace Statement.Checked

variable {h : Head α}

theorem replace (checked : (Statement.replace h).Checked shapes inPath)
    (drawn : h.target ≠ .none) : inPath = false := by
  have suits := checked.suits
  cases inPath with
  | true => simp [Statement.yield, drawn, Yield.Suits] at suits
  | false => rfl

theorem loop {spec : LoopSpec α} {body last : Body α}
    (checked : (Statement.loop h spec body last).Checked shapes inPath) :
    (body.Counts 1 ∧ body.Checked shapes inPath) ∧ last.Counts 1 ∧ last.Checked shapes inPath := by
  obtain ⟨-, ⟨var, hb, hl⟩, made, made'⟩ := checked.made.loop_inv
  have suits := Yield.suits_join.mp checked.suits
  have counts : body.Counts 1 := by
    rw [hb]
    exact Body.counts_make [var] _
  have counts' : last.Counts 1 := by
    rw [hl]
    exact Body.counts_make [var] _
  exact ⟨⟨counts, made, fun x hx => checked.parts x (List.mem_append_left _ hx), suits.1⟩,
    counts', made', fun x hx => checked.parts x (List.mem_append_right _ hx), suits.2⟩

theorem transform {spec : TransformSpec α} {body : Body α}
    (checked : (Statement.transform h spec body).Checked shapes inPath) :
    body.Counts 0 ∧ body.Checked shapes inPath :=
  ⟨Body.counts_of_eq checked.self.1, checked.made.transform_inv, checked.parts, checked.suits⟩

theorem branch {cond : Expr α} {thenBody elseBody : Body α}
    (checked : (Statement.branch h cond thenBody elseBody).Checked shapes inPath) :
    (thenBody.Counts 0 ∧ thenBody.Checked shapes inPath) ∧
      elseBody.Counts 0 ∧ elseBody.Checked shapes inPath := by
  obtain ⟨made, made'⟩ := checked.made.branch_inv
  obtain ⟨tidy, tidy'⟩ := checked.self.1
  have suits := Yield.suits_join.mp checked.suits
  exact ⟨⟨Body.counts_of_eq tidy, made,
      fun x hx => checked.parts x (List.mem_append_left _ hx), suits.1⟩,
    Body.counts_of_eq tidy', made',
      fun x hx => checked.parts x (List.mem_append_right _ hx), suits.2⟩

theorem switch {selector : Expr α} {keys : List (Int × Nat)} {bodies : List (Body α)}
    {default : Body α}
    (checked : (Statement.switch h selector keys bodies default).Checked shapes inPath) :
    (∀ b ∈ bodies, b.Counts 0 ∧ b.Checked shapes inPath) ∧
      default.Counts 0 ∧ default.Checked shapes inPath := by
  obtain ⟨made, made'⟩ := checked.made.switch_inv
  obtain ⟨tidy, tidy'⟩ := checked.self.1
  have suits := Yield.suits_join.mp checked.suits
  refine ⟨fun b hb => ⟨Body.counts_of_eq (tidy b hb), made b hb, fun x hx => ?_,
      Body.suits_of_mem suits.1 hb⟩,
    Body.counts_of_eq tidy', made',
      fun x hx => checked.parts x (List.mem_append_right _ hx), suits.2⟩
  exact checked.parts x (List.mem_append_left _ (Body.mem_flattenAll hb hx))

theorem op {o : Path.Op α} (checked : (Statement.op h o).Checked shapes inPath) :
    inPath = true :=
  checked.suits.inPath (.inl rfl)

theorem command {c : Path.CommandSpec α}
    (checked : (Statement.command h c).Checked shapes inPath) : inPath = true :=
  checked.suits.inPath (.inr rfl)

end Statement.Checked

/-- What was checked is fit to be run once it is resolved. -/
theorem Statement.Checked.fit {st : Statement α} {resolved : List (Shape α)}
    (follow : ∀ h : Head α, h.referenceProblems shapes = [] → h.Resolves resolved) :
    st.Checked shapes inPath → ∀ scope place, (st.resolve scope place).Fit resolved inPath := by
  induction st using Statement.induct (P := fun b => b.Checked shapes inPath →
    ∀ scope fixed place, ∀ st ∈ (b.resolve scope fixed place).statements,
      st.Fit resolved inPath) with
  | body b hs checked scope fixed place st hst =>
    have statement : ∀ st ∈ b.statements, st.Checked shapes inPath := fun _ => checked.statement
    obtain ⟨statements, params, slots⟩ := b
    rw [Body.resolve] at hst
    obtain ⟨other, hother, scope', place', rfl⟩ := Statement.mem_resolveAll hst
    exact hs other hother (statement other hother) scope' place'
  | replace h => exact fun checked _ _ => .replace checked.replace (follow h checked.self.2)
  | loop h spec body last hbody hlast =>
    intro checked scope place
    obtain ⟨⟨counts, inside⟩, counts', inside'⟩ := checked.loop
    rw [Statement.resolve]
    exact .loop (counts.resolve _ _ _) (hbody inside _ _ _) (counts'.resolve _ _ _)
      (hlast inside' _ _ _)
  | transform h spec body hbody =>
    intro checked scope place
    obtain ⟨counts, inside⟩ := checked.transform
    rw [Statement.resolve]
    exact .transform (counts.resolve _ _ _) (hbody inside _ _ _)
  | branch h cond thenBody elseBody hthen helse =>
    intro checked scope place
    obtain ⟨⟨counts, inside⟩, counts', inside'⟩ := checked.branch
    rw [Statement.resolve]
    exact .branch (counts.resolve _ _ _) (hthen inside _ _ _) (counts'.resolve _ _ _)
      (helse inside' _ _ _)
  | switch h selector keys bodies default hbodies hdefault =>
    intro checked scope place
    obtain ⟨each, counts', inside'⟩ := checked.switch
    have resolves : ∀ b ∈ Body.resolveAll scope place 1 bodies, b.Counts 0 ∧
        ∀ st ∈ b.statements, st.Fit resolved inPath := by
      intro b hb
      obtain ⟨j, other, hj, rfl⟩ := Body.mem_resolveAll hb
      have mem := List.mem_of_getElem? hj
      obtain ⟨counts, inside⟩ := each other mem
      exact ⟨counts.resolve _ _ _, hbodies other mem inside _ _ _⟩
    rw [Statement.resolve]
    exact .switch (fun b hb => (resolves b hb).1) (fun b hb => (resolves b hb).2)
      (counts'.resolve _ _ _) (hdefault inside' _ _ _)
  | define h d => exact fun _ _ _ => .define h _
  | op h o => exact fun checked _ _ => .op h o checked.op
  | command h c => exact fun checked _ _ => .command h c checked.command

end Checked

/-! ### Loaded grammars -/

theorem Head.referenceProblems_isError {shapes : List (Shape α)} {h : Head α} {p : Diagnostic}
    (hp : p ∈ h.referenceProblems shapes) : p.code.isError = true := by
  unfold referenceProblems at hp
  split at hp
  case h_1 =>
    split at hp
    · rw [List.mem_singleton.mp hp]
      rfl
    · rcases List.mem_append.mp hp with hp | hp
      · split at hp
        · cases hp
        · rw [List.mem_singleton.mp hp]
          rfl
      · split at hp
        · rw [List.mem_singleton.mp hp]
          rfl
        · cases hp
  case h_2 => cases hp

variable [Scalar α]

theorem Rule.length_normalized (rules : List (Rule α)) :
    (Rule.normalized rules).length = rules.length := by
  unfold normalized shared
  simp only
  split <;> simp

theorem Rule.length_runningSums (sum : α) (rules : List (Rule α)) :
    (Rule.runningSums sum rules).length = rules.length := by
  induction rules generalizing sum with
  | nil => rfl
  | cons r rest ih => simp [runningSums, ih]

namespace Draft

variable {d : Draft α} {g : Grammar α}

/-- A reference that the load had nothing against can be followed. -/
theorem resolves_of_build (hg : d.build = .ok g) {h : Head α}
    (checked : h.referenceProblems d.shapes = []) : h.Resolves g.shapes := by
  intro index target
  obtain ⟨-, rfl⟩ := build_eq_ok.mp hg
  unfold Head.referenceProblems at checked
  simp only [target] at checked
  cases found : d.shapes[index]? with
  | none => simp [found] at checked
  | some s =>
    simp only [found, List.append_eq_nil_iff, ite_eq_left_iff, reduceCtorEq, imp_false,
      Decidable.not_not, ite_eq_right_iff] at checked
    refine ⟨resolveShape d.globalScope index s, by simp [resolved, found], checked.1.symm, ?_⟩
    have rules : s.rules ≠ [] := by simpa using checked.2
    intro none
    have length := congrArg List.length none
    simp only [resolveShape, Shape.weighted, List.length_mapIdx, Rule.length_normalized,
      List.length_nil] at length
    exact rules (List.length_eq_zero_iff.mp length)

theorem length_cumulative (hg : d.build = .ok g) {i : Nat} {shape : Shape α}
    (h : g.shapes[i]? = some shape) : shape.cumulative.length = shape.rules.length := by
  obtain ⟨s, -, rfl⟩ := build_shape hg h
  simp [resolveShape, Shape.weighted, Rule.length_runningSums]

theorem RuleOf.suits {i j : Nat} {shape : Shape α} {rule : Rule α} {b : Body α}
    (h : RuleOf d i j shape rule b) (hg : d.build = .ok g) : b.yield.Suits shape.isPath := by
  cases path : shape.isPath with
  | true => exact h.no_replacement hg path
  | false => exact h.no_operator hg path

theorem RuleOf.checked {i j : Nat} {shape : Shape α} {rule : Rule α} {b : Body α}
    (h : RuleOf d i j shape rule b) (hg : d.build = .ok g) (tidy : d.Tidy) :
    b.Checked d.shapes shape.isPath where
  made := h.made
  parts st hst := by
    refine ⟨tidy b h.mem_bodies st hst, List.eq_nil_iff_forall_not_mem.mpr fun p hp => ?_⟩
    have problem : p ∈ d.referenceProblems := by
      refine List.mem_flatMap.mpr ⟨b, List.mem_append_left _ h.mem_bodies, ?_⟩
      exact List.mem_flatMap.mpr ⟨st, hst, hp⟩
    have fine := no_problem hg (p := p) (by simp [allProblems, problem])
    rw [Head.referenceProblems_isError hp] at fine
    cases fine
  suits := h.suits hg

/-- The statements of a loaded rule are fit to be run. -/
theorem RuleOf.fit {i j : Nat} {shape : Shape α} {rule : Rule α} {b : Body α}
    (h : RuleOf d i j shape rule b) (hg : d.build = .ok g) (tidy : d.Tidy) :
    rule.body.Counts shape.params.length ∧
      ∀ st ∈ rule.body.statements, st.Fit g.shapes shape.isPath := by
  have checked := h.checked hg tidy
  have counts : b.Counts shape.params.length := ⟨congrArg List.length h.params, h.slots⟩
  rw [h.body]
  refine ⟨counts.resolve _ _ _, fun st hst => ?_⟩
  have statement : ∀ st ∈ b.statements, st.Checked d.shapes shape.isPath :=
    fun _ => checked.statement
  obtain ⟨statements, params, slots⟩ := b
  rw [Body.resolve] at hst
  obtain ⟨other, hother, scope, place, rfl⟩ := Statement.mem_resolveAll hst
  exact (statement other hother).fit (fun _ => resolves_of_build hg) scope place

/-- The globals of a loaded grammar are counted, too. -/
theorem globals_counted (hd : d.Drafted) (hg : d.build = .ok g) :
    g.globals.slots = g.globals.statements.countP Statement.isDefine := by
  obtain ⟨-, rfl⟩ := build_eq_ok.mp hg
  have counted := congrArg Body.slots hd.regular.globalSlots
  simp only [resolved, Statement.countP_resolveAll]
  rw [counted]
  simp [Body.make, Body.countSlots]

end Draft

end ShapeGrammar
