import ShapeGrammar.Proofs.Fitness

/-!
# Names bound apart

The names that one entry of a body binds are to differ. The load reports those
that do not: parameters of bodies, variables of loops, defines and globals. What
it found nothing against is put here in the form that a run can use. The
parameters of functions are left out of these checks.
-/

set_option autoImplicit false

namespace ShapeGrammar

variable {α : Type}

/-! ### What the load checks -/

def Define.repeatsParam (d : Define α) : Bool :=
  d.isFunction && !decide (d.params.map Param.name).Nodup

def Statement.repeatsParam : Statement α → Bool
  | .define _ d => d.repeatsParam
  | _ => false

def Draft.DistinctParams (d : Draft α) : Prop :=
  ∀ b ∈ d.globals :: d.bodies, ∀ st ∈ b.flatten, st.repeatsParam = false

theorem paramProblems_eq_nil {seen : List String} {params : List Param}
    (h : paramProblems seen params = []) :
    (params.map Param.name).Nodup ∧ ∀ name ∈ params.map Param.name, name ∉ seen := by
  induction params generalizing seen with
  | nil => simp
  | cons p rest ih =>
    rw [paramProblems, List.append_eq_nil_iff] at h
    obtain ⟨distinct, fresh⟩ := ih h.2
    have new : p.name ∉ seen := by
      intro taken
      simp [taken] at h
    refine ⟨List.nodup_cons.mpr ⟨fun mem => ?_, distinct⟩, ?_⟩
    · exact fresh p.name mem List.mem_cons_self
    · refine List.forall_mem_cons.mpr ⟨new, fun name hname taken => ?_⟩
      exact fresh name hname (List.mem_cons_of_mem _ taken)

theorem Statement.nameProblemsAll_eq_nil {seen : List String} {statements : List (Statement α)}
    (h : nameProblemsAll seen statements = []) :
    (statements.flatMap bound).Nodup ∧ (∀ name ∈ statements.flatMap bound, name ∉ seen) ∧
      ∀ st ∈ statements, st.innerNameProblems = [] := by
  induction statements generalizing seen with
  | nil => simp
  | cons st rest ih =>
    rw [nameProblemsAll, List.append_eq_nil_iff, List.append_eq_nil_iff] at h
    obtain ⟨⟨own, inner⟩, later⟩ := h
    obtain ⟨distinct, fresh, inside⟩ := ih later
    have new : ∀ name ∈ st.bound, name ∉ seen := by
      intro name hname taken
      have none := List.flatMap_eq_nil_iff.mp own name hname
      simp [taken] at none
    have single : st.bound.Nodup := by cases st <;> simp [bound]
    rw [List.flatMap_cons]
    refine ⟨List.nodup_append.mpr ⟨single, distinct, ?_⟩, ?_,
      List.forall_mem_cons.mpr ⟨inner, inside⟩⟩
    · rintro name hname _ hother rfl
      exact fresh name hother (List.mem_append_left _ hname)
    · refine List.forall_mem_append.mpr ⟨new, fun name hname taken => ?_⟩
      exact fresh name hname (List.mem_append_right _ taken)

def Body.Distinct (b : Body α) : Prop :=
  (b.params.map Param.name ++ b.statements.flatMap Statement.bound).Nodup

theorem Body.nameProblems_eq_nil {b : Body α} (h : b.nameProblems = []) :
    b.Distinct ∧ ∀ st ∈ b.statements, st.innerNameProblems = [] := by
  obtain ⟨statements, params, slots⟩ := b
  rw [nameProblems, List.append_eq_nil_iff] at h
  obtain ⟨distinct, -⟩ := paramProblems_eq_nil h.1
  obtain ⟨distinct', fresh, inside⟩ := Statement.nameProblemsAll_eq_nil h.2
  refine ⟨List.nodup_append.mpr ⟨distinct, distinct', ?_⟩, inside⟩
  rintro name hname _ hother rfl
  exact fresh name hother hname

/-- A statement in which no body binds a name twice, and no function is called
with two parameters of one name. -/
inductive Statement.Distinct : Statement α → Prop
  | replace (h : Head α) : Distinct (.replace h)
  | loop {h : Head α} {spec : LoopSpec α} {body last : Body α} (apart : body.Distinct)
      (inside : ∀ st ∈ body.statements, Distinct st) (apart' : last.Distinct)
      (inside' : ∀ st ∈ last.statements, Distinct st) : Distinct (.loop h spec body last)
  | transform {h : Head α} {spec : TransformSpec α} {body : Body α} (apart : body.Distinct)
      (inside : ∀ st ∈ body.statements, Distinct st) : Distinct (.transform h spec body)
  | branch {h : Head α} {cond : Expr α} {thenBody elseBody : Body α} (apart : thenBody.Distinct)
      (inside : ∀ st ∈ thenBody.statements, Distinct st) (apart' : elseBody.Distinct)
      (inside' : ∀ st ∈ elseBody.statements, Distinct st) :
      Distinct (.branch h cond thenBody elseBody)
  | switch {h : Head α} {selector : Expr α} {keys : List (Int × Nat)} {bodies : List (Body α)}
      {default : Body α} (apart : ∀ b ∈ bodies, b.Distinct)
      (inside : ∀ b ∈ bodies, ∀ st ∈ b.statements, Distinct st) (apart' : default.Distinct)
      (inside' : ∀ st ∈ default.statements, Distinct st) :
      Distinct (.switch h selector keys bodies default)
  | define (h : Head α) {d : Define α}
      (params : d.isFunction = true → (d.params.map Param.name).Nodup) : Distinct (.define h d)
  | op (h : Head α) (o : Path.Op α) : Distinct (.op h o)
  | command (h : Head α) (c : Path.CommandSpec α) : Distinct (.command h c)

theorem Statement.bound_resolveAll (scope : Scope) (place : Address) (i : Nat)
    (statements : List (Statement α)) :
    (resolveAll scope place i statements).flatMap bound = statements.flatMap bound := by
  induction statements generalizing scope i with
  | nil => rfl
  | cons st rest ih =>
    have same : (st.resolve scope (place ++ [i])).bound = st.bound := by
      cases st with
      | define h d =>
        rw [resolve]
        simp only [bound, Define.resolve_name]
      | _ => rfl
    rw [resolveAll, List.flatMap_cons, List.flatMap_cons, same, ih]

theorem Body.Distinct.resolve {b : Body α} (h : b.Distinct) (scope : Scope) (fixed : Bool)
    (place : Address) : (b.resolve scope fixed place).Distinct := by
  obtain ⟨statements, params, slots⟩ := b
  rw [Body.resolve]
  unfold Body.Distinct
  rw [Statement.bound_resolveAll]
  exact h

theorem Body.nameProblemsAll_mem {bodies : List (Body α)} (h : Body.nameProblemsAll bodies = [])
    {b : Body α} (hb : b ∈ bodies) : b.nameProblems = [] := by
  induction bodies with
  | nil => cases hb
  | cons other rest ih =>
    rw [Body.nameProblemsAll, List.append_eq_nil_iff] at h
    rcases List.mem_cons.mp hb with rfl | hb
    · exact h.1
    · exact ih h.2 hb

theorem Statement.distinct_resolveAll_of {statements : List (Statement α)}
    (hs : ∀ st ∈ statements, st.innerNameProblems = [] →
      (∀ x ∈ st :: st.inner, x.repeatsParam = false) →
      ∀ scope place, (st.resolve scope place).Distinct)
    (checked : ∀ st ∈ statements, st.innerNameProblems = [])
    (params : ∀ x ∈ flattenAll statements, x.repeatsParam = false)
    (scope : Scope) (place : Address) (i : Nat) :
    ∀ st ∈ resolveAll scope place i statements, st.Distinct := by
  intro st hst
  obtain ⟨other, hother, scope', place', rfl⟩ := mem_resolveAll hst
  refine hs other hother (checked other hother) ?_ scope' place'
  refine List.forall_mem_cons.mpr ⟨params other (mem_flattenAll hother), fun x hx => ?_⟩
  exact params x (inner_subset hother hx)

/-- What the load had nothing against binds its names apart once it is resolved. -/
theorem Statement.distinct_resolve (st : Statement α) : st.innerNameProblems = [] →
    (∀ x ∈ st :: st.inner, x.repeatsParam = false) →
    ∀ scope place, (st.resolve scope place).Distinct := by
  -- Of a body this is said for the statements that it resolves to, as their names were
  -- checked together.
  induction st using Statement.induct (P := fun b => b.nameProblems = [] →
    (∀ x ∈ b.flatten, x.repeatsParam = false) → ∀ scope fixed place,
      ∀ st ∈ (b.resolve scope fixed place).statements, st.Distinct) with
  | body b hs checked params scope fixed place st hst =>
    have inside := (Body.nameProblems_eq_nil checked).2
    obtain ⟨statements, parameters, slots⟩ := b
    rw [Body.flatten] at params
    rw [Body.resolve] at hst
    exact distinct_resolveAll_of hs inside params _ _ _ st hst
  | replace h => exact fun _ _ _ _ => .replace h
  | loop h spec body last hbody hlast =>
    intro checked params scope place
    rw [innerNameProblems, List.append_eq_nil_iff] at checked
    rw [Statement.inner] at params
    have params := (List.forall_mem_append.mp (List.forall_mem_cons.mp params).2)
    rw [resolve]
    exact .loop ((Body.nameProblems_eq_nil checked.1).1.resolve _ _ _)
      (hbody checked.1 params.1 _ _ _) ((Body.nameProblems_eq_nil checked.2).1.resolve _ _ _)
      (hlast checked.2 params.2 _ _ _)
  | transform h spec body hbody =>
    intro checked params scope place
    rw [innerNameProblems] at checked
    rw [Statement.inner] at params
    rw [resolve]
    exact .transform ((Body.nameProblems_eq_nil checked).1.resolve _ _ _)
      (hbody checked (List.forall_mem_cons.mp params).2 _ _ _)
  | branch h cond thenBody elseBody hthen helse =>
    intro checked params scope place
    rw [innerNameProblems, List.append_eq_nil_iff] at checked
    rw [Statement.inner] at params
    have params := (List.forall_mem_append.mp (List.forall_mem_cons.mp params).2)
    rw [resolve]
    exact .branch ((Body.nameProblems_eq_nil checked.1).1.resolve _ _ _)
      (hthen checked.1 params.1 _ _ _) ((Body.nameProblems_eq_nil checked.2).1.resolve _ _ _)
      (helse checked.2 params.2 _ _ _)
  | switch h selector keys bodies default hbodies hdefault =>
    intro checked params scope place
    rw [innerNameProblems, List.append_eq_nil_iff] at checked
    rw [Statement.inner] at params
    have params := (List.forall_mem_append.mp (List.forall_mem_cons.mp params).2)
    rw [resolve]
    refine .switch (fun b hb => ?_) (fun b hb => ?_)
      ((Body.nameProblems_eq_nil checked.2).1.resolve _ _ _) (hdefault checked.2 params.2 _ _ _)
    · obtain ⟨j, other, found, rfl⟩ := Body.mem_resolveAll hb
      have none := Body.nameProblemsAll_mem checked.1 (List.mem_of_getElem? found)
      exact (Body.nameProblems_eq_nil none).1.resolve _ _ _
    · obtain ⟨j, other, found, rfl⟩ := Body.mem_resolveAll hb
      have mem := List.mem_of_getElem? found
      exact hbodies other mem (Body.nameProblemsAll_mem checked.1 mem)
        (fun x hx => params.1 x (Body.mem_flattenAll mem hx)) _ _ _
  | define h d =>
    intro _ params scope place
    have distinct := (List.forall_mem_cons.mp params).1
    rw [resolve]
    refine .define h fun function => ?_
    rw [Define.resolve_isFunction] at function
    have same : (d.resolve scope place).params = d.params := by
      unfold Define.resolve
      split <;> rfl
    simpa [repeatsParam, Define.repeatsParam, function, same] using distinct
  | op h o => exact fun _ _ _ _ => .op h o
  | command h c => exact fun _ _ _ _ => .command h c

theorem Statement.distinct_resolveAll {statements : List (Statement α)}
    (checked : ∀ st ∈ statements, st.innerNameProblems = [])
    (params : ∀ x ∈ flattenAll statements, x.repeatsParam = false)
    (scope : Scope) (place : Address) (i : Nat) :
    ∀ st ∈ resolveAll scope place i statements, st.Distinct :=
  distinct_resolveAll_of (fun st _ => st.distinct_resolve) checked params scope place i

/-! ### Repeated names are errors -/

theorem paramProblems_code {seen : List String} {params : List Param} :
    ∀ p ∈ paramProblems seen params, p.code = .duplicateName := by
  induction params generalizing seen with
  | nil => exact List.forall_mem_nil _
  | cons q rest ih =>
    rw [paramProblems]
    refine List.forall_mem_append.mpr ⟨?_, ih⟩
    split
    · exact List.forall_mem_singleton.mpr rfl
    · exact List.forall_mem_nil _

theorem Statement.nameProblems_code {seen : List String} (st : Statement α) :
    ∀ p ∈ st.nameProblems seen, p.code = .duplicateName := by
  intro p hp
  obtain ⟨name, -, hp⟩ := List.mem_flatMap.mp hp
  split at hp
  · exact List.mem_singleton.mp hp ▸ rfl
  · cases hp

theorem Statement.nameProblemsAll_code {statements : List (Statement α)}
    (hs : ∀ st ∈ statements, ∀ p ∈ st.innerNameProblems, p.code = .duplicateName)
    (seen : List String) : ∀ p ∈ nameProblemsAll seen statements, p.code = .duplicateName := by
  induction statements generalizing seen with
  | nil =>
    rw [nameProblemsAll]
    exact List.forall_mem_nil _
  | cons st rest ih =>
    obtain ⟨here, later⟩ := List.forall_mem_cons.mp hs
    rw [nameProblemsAll]
    refine List.forall_mem_append.mpr ⟨?_, ih later _⟩
    exact List.forall_mem_append.mpr ⟨st.nameProblems_code, here⟩

theorem Body.nameProblems_code_of {b : Body α}
    (hs : ∀ st ∈ b.statements, ∀ p ∈ st.innerNameProblems, p.code = .duplicateName) :
    ∀ p ∈ b.nameProblems, p.code = .duplicateName := by
  obtain ⟨statements, params, slots⟩ := b
  rw [nameProblems]
  exact List.forall_mem_append.mpr
    ⟨paramProblems_code, Statement.nameProblemsAll_code hs (params.map Param.name)⟩

theorem Body.nameProblemsAll_code {bodies : List (Body α)}
    (hs : ∀ b ∈ bodies, ∀ p ∈ b.nameProblems, p.code = .duplicateName) :
    ∀ p ∈ nameProblemsAll bodies, p.code = .duplicateName := by
  induction bodies with
  | nil =>
    rw [nameProblemsAll]
    exact List.forall_mem_nil _
  | cons b rest ih =>
    obtain ⟨here, later⟩ := List.forall_mem_cons.mp hs
    rw [nameProblemsAll]
    exact List.forall_mem_append.mpr ⟨here, ih later⟩

theorem Statement.innerNameProblems_code (st : Statement α) :
    ∀ p ∈ st.innerNameProblems, p.code = .duplicateName := by
  induction st using Statement.induct (P := fun b =>
    ∀ p ∈ b.nameProblems, p.code = .duplicateName) with
  | body b hs p hp => exact Body.nameProblems_code_of hs p hp
  | loop h spec body last hbody hlast =>
    rw [innerNameProblems]
    exact List.forall_mem_append.mpr ⟨hbody, hlast⟩
  | transform h spec body hbody =>
    rw [innerNameProblems]
    exact hbody
  | branch h cond thenBody elseBody hthen helse =>
    rw [innerNameProblems]
    exact List.forall_mem_append.mpr ⟨hthen, helse⟩
  | switch h selector keys bodies default hbodies hdefault =>
    rw [innerNameProblems]
    exact List.forall_mem_append.mpr ⟨Body.nameProblemsAll_code hbodies, hdefault⟩
  | _ =>
    rw [innerNameProblems]
    exact List.forall_mem_nil _

theorem Body.nameProblems_code (b : Body α) : ∀ p ∈ b.nameProblems, p.code = .duplicateName :=
  nameProblems_code_of fun st _ => st.innerNameProblems_code

/-! ### Loaded grammars -/

def Grammar.Distinct (g : Grammar α) : Prop :=
  ∀ shape ∈ g.shapes, ∀ rule ∈ shape.rules,
    rule.body.Distinct ∧ ∀ st ∈ rule.body.statements, st.Distinct

variable [Scalar α]

theorem Draft.nameProblems_eq_nil {d : Draft α} {g : Grammar α} (hg : d.build = .ok g)
    {b : Body α} (hb : b ∈ d.globals :: d.bodies) : b.nameProblems = [] := by
  refine List.eq_nil_iff_forall_not_mem.mpr fun p hp => ?_
  have mem : p ∈ d.nameProblems := List.mem_flatMap.mpr ⟨b, hb, hp⟩
  have fine := Draft.no_problem hg (p := p) (by simp [Draft.allProblems, mem])
  rw [b.nameProblems_code p hp] at fine
  cases fine

theorem Draft.build_distinct {d : Draft α} {g : Grammar α} (drafted : d.Drafted)
    (built : d.build = .ok g) (params : d.DistinctParams) : g.Distinct := by
  intro shape hshape rule hrule
  obtain ⟨i, found⟩ := List.getElem?_of_mem hshape
  obtain ⟨j, hj⟩ := List.getElem?_of_mem hrule
  obtain ⟨b, of⟩ := Draft.build_rule drafted built found hj
  have mem : b ∈ d.globals :: d.bodies := List.mem_cons_of_mem _ of.mem_bodies
  obtain ⟨apart, checked⟩ := Body.nameProblems_eq_nil (Draft.nameProblems_eq_nil built mem)
  have inside := params b mem
  rw [of.body]
  refine ⟨apart.resolve _ _ _, ?_⟩
  obtain ⟨statements, parameters, slots⟩ := b
  rw [Body.flatten] at inside
  rw [Body.resolve]
  exact Statement.distinct_resolveAll checked inside _ _ _

theorem Draft.globals_distinct {d : Draft α} {g : Grammar α} (built : d.build = .ok g)
    (params : d.DistinctParams) :
    (g.globals.statements.flatMap Statement.bound).Nodup ∧
      ∀ st ∈ g.globals.statements, st.Distinct := by
  obtain ⟨apart, checked⟩ := Body.nameProblems_eq_nil
    (Draft.nameProblems_eq_nil built List.mem_cons_self)
  have inside := params d.globals List.mem_cons_self
  obtain ⟨-, rfl⟩ := Draft.build_eq_ok.mp built
  change ((Statement.resolveAll [] [] 0 d.globals.statements).flatMap Statement.bound).Nodup ∧
    ∀ st ∈ Statement.resolveAll [] [] 0 d.globals.statements, st.Distinct
  generalize d.globals = b at apart checked inside ⊢
  obtain ⟨statements, parameters, slots⟩ := b
  rw [Body.flatten] at inside
  rw [Statement.bound_resolveAll]
  exact ⟨(List.nodup_append.mp apart).2.1, Statement.distinct_resolveAll checked inside _ _ _⟩

end ShapeGrammar
