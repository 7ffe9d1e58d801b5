import ShapeGrammar.Proofs.Evaluation
import ShapeGrammar.Proofs.Guided

/-!
# Statements side by side

Each kind of statement, given contexts whose evaluations are in step and
bodies that are in step. Nothing is said here about what relates the states,
so that every relation between two expansions, and every invariant of one,
goes through the same lemmas.
-/

set_option autoImplicit false

namespace ShapeGrammar

open Attempt

/-! ### Paths apart from their handles -/

namespace Path.Compiled

variable {α : Type}

def erased (p : Compiled α) : Compiled α := { p with frame := .detached, uid := none }

theorem eq_of_erased {p p' : Compiled α} (same : p.erased = p'.erased)
    (uid : p.uid = p'.uid) (frame : p.frame = p'.frame) : p = p' := by
  cases p
  cases p'
  simp only [erased, mk.injEq] at same uid frame ⊢
  exact ⟨same.1, same.2.1, same.2.2.1, same.2.2.2.1, frame, uid, same.2.2.2.2.2.2⟩

theorem allCommands_erased (p : Compiled α) : p.erased.allCommands = p.allCommands := rfl

theorem addCommand_erased (p : Compiled α) (c : Command α) :
    p.erased.addCommand c = (p.addCommand c).map erased := by
  unfold addCommand erased
  split <;> rfl

variable [Scalar α]

theorem append_erased (p : Compiled α) (op : Operator) (flags : Flags) (isCubic : Bool)
    (args : Args α) (m : Affine α) :
    p.erased.append op flags isCubic args m =
      (p.append op flags isCubic args m).map erased := by
  unfold append ready erased
  split
  · rfl
  · split <;> rfl

theorem sealed_erased (p : Compiled α) : p.erased.sealed = p.sealed.erased := by
  unfold sealed uncovered erased
  split
  · rfl
  · split <;> rfl

theorem sealed_alike {p p' : Compiled α} (h : p.erased = p'.erased) :
    p.sealed.erased = p'.sealed.erased := by
  rw [← sealed_erased, ← sealed_erased, h]

end Path.Compiled

/-! ### Statements -/

variable {σ σ' α : Type}

/-- What holds of a body whenever it holds of its statements, and of a statement
whenever it holds of the bodies inside it, holds of every statement. -/
theorem Statement.induct {P : Body α → Prop} {Q : Statement α → Prop}
    (body : ∀ b : Body α, (∀ st ∈ b.statements, Q st) → P b)
    (replace : ∀ h, Q (.replace h))
    (loop : ∀ h spec body last, P body → P last → Q (.loop h spec body last))
    (transform : ∀ h spec body, P body → Q (.transform h spec body))
    (branch : ∀ h cond thenBody elseBody, P thenBody → P elseBody →
      Q (.branch h cond thenBody elseBody))
    (switch : ∀ h selector keys bodies default, (∀ b ∈ bodies, P b) → P default →
      Q (.switch h selector keys bodies default))
    (define : ∀ h d, Q (.define h d))
    (op : ∀ h o, Q (.op h o))
    (command : ∀ h c, Q (.command h c)) (st : Statement α) : Q st := by
  refine @Statement.rec α P Q (fun l => ∀ st ∈ l, Q st) (fun l => ∀ b ∈ l, P b)
    ?_ replace loop transform branch ?_ define op command ?_ ?_ ?_ ?_ st
  · intro statements params slots hs
    exact body ⟨statements, params, slots⟩ hs
  · intro h selector keys bodies default hb hd
    exact switch h selector keys bodies default hb hd
  · simp
  · intro st rest hst hrest
    simpa using ⟨hst, hrest⟩
  · simp
  · intro b rest hb hrest
    simpa using ⟨hb, hrest⟩

/-- Both are refused for one reason, or both are done. -/
inductive Path.Compiled.Both (B : Path.Compiled α → Path.Compiled α → Prop) :
    Except Broken (Path.Compiled α) → Except Broken (Path.Compiled α) → Prop
  | error (what : Broken) : Both B (.error what) (.error what)
  | ok {q q' : Path.Compiled α} (done : B q q') : Both B (.ok q) (.ok q')

/-- What does not look at handles does the same to paths that differ in them. -/
theorem Path.Compiled.both_erased {f : Path.Compiled α → Except Broken (Path.Compiled α)}
    (hf : ∀ p, f p.erased = (f p).map erased) {p p' : Path.Compiled α}
    (same : p.erased = p'.erased) : Both (fun q q' => q.erased = q'.erased) (f p) (f p') := by
  have results : (f p).map erased = (f p').map erased := by rw [← hf, ← hf, same]
  generalize f p = o at results ⊢
  generalize f p' = o' at results ⊢
  cases o <;> cases o' <;> simp only [Except.map, reduceCtorEq, Except.error.injEq] at results
  · exact results ▸ .error _
  · exact .ok (Except.ok.inj results)

theorem Path.Compiled.rel_erased {o o' : Option (Path.Compiled α)}
    (h : o.map erased = o'.map erased) : Option.Rel (fun p p' => p.erased = p'.erased) o o' := by
  cases o <;> cases o' <;> simp only [Option.map_none, Option.map_some, reduceCtorEq] at h
  · exact .none
  · exact .some (Option.some.inj h)

/-- Open paths that are related stay so under what is done to each. -/
theorem Context.buildWith_across {d : Parting Stop Stop (Session σ α) (Session σ' α)}
    {P : Session σ α → Session σ' α → Prop} {B : Path.Compiled α → Path.Compiled α → Prop}
    (what : String) {f f' : Path.Compiled α → Except Broken (Path.Compiled α)}
    (hf : ∀ p p', B p p' → Path.Compiled.Both B (f p) (f' p'))
    (building : ∀ s s', P s s' → Option.Rel B s.building s'.building)
    (built : ∀ s s' p p' q q', P s s' → s.building = some p → s'.building = some p' →
      f p = .ok q → f' p' = .ok q' → B q q' →
      P { s with building := some q } { s' with building := some q' })
    (part : ∀ what s s', P s s' →
      d.together (.fault (.broken what)) (.fault (.broken what)) s s') :
    InStep d P Eq (buildWith what f) (buildWith what f') := by
  intro s s' hs
  have open_ := building s s' hs
  simp only [buildWith]
  cases hp : s.building with
  | none =>
    rw [hp] at open_
    cases hp' : s'.building with
    | none => exact .together (part _ s s' hs)
    | some p' =>
      rw [hp'] at open_
      cases open_
  | some p =>
    rw [hp] at open_
    cases hp' : s'.building with
    | none =>
      rw [hp'] at open_
      cases open_
    | some p' =>
      rw [hp'] at open_
      cases open_ with
      | some related =>
        have both := hf p p' related
        simp only
        cases hq : f p <;> cases hq' : f' p' <;> rw [hq, hq'] at both <;> cases both
        · exact .together (part _ s s' hs)
        case ok.ok.ok done => exact .ok rfl (built s s' p p' _ _ hs hp hp' hq hq' done)

/-- Paths that differ in their handles stay so under what is done to both. -/
theorem Context.buildWith_inStep {d : Parting Stop Stop (Session σ α) (Session σ' α)}
    {P : Session σ α → Session σ' α → Prop} (what : String)
    {f : Path.Compiled α → Except Broken (Path.Compiled α)}
    (hf : ∀ p, f p.erased = (f p).map Path.Compiled.erased)
    (building : ∀ s s', P s s' →
      s.building.map Path.Compiled.erased = s'.building.map Path.Compiled.erased)
    (built : ∀ s s' p p' q q', P s s' → s.building = some p → s'.building = some p' →
      f p = .ok q → f p' = .ok q' → q.erased = q'.erased →
      P { s with building := some q } { s' with building := some q' })
    (part : ∀ what s s', P s s' →
      d.together (.fault (.broken what)) (.fault (.broken what)) s s') :
    InStep d P Eq (buildWith what f) (buildWith what f) := by
  refine buildWith_across (B := fun p p' => p.erased = p'.erased) what ?_ ?_ built part
  · intro p p' same
    exact Path.Compiled.both_erased hf same
  · intro s s' hs
    exact Path.Compiled.rel_erased (building s s' hs)

variable [Scalar α]

/-- A relation of instances that lasts when both are adjusted, put back to the
origin or made instances of one shape. -/
structure Instance.Congruence (R : Instance α → Instance α → Prop) : Prop where
  apply : ∀ i i' m, R i i' → R (i.apply m) (i'.apply m)
  origin : ∀ i i', R i i' → R { i with transform := .identity } { i' with transform := .identity }
  renamed : ∀ i i' shape params, R i i' →
    R { i with shape := shape, params := params } { i' with shape := shape, params := params }

theorem Instance.Congruence.eq : Congruence (Eq : Instance α → Instance α → Prop) where
  apply _ _ _ same := same ▸ rfl
  origin _ _ same := same ▸ rfl
  renamed _ _ _ _ same := same ▸ rfl

namespace Context

variable {d : Parting Stop Stop (Session σ α) (Session σ' α)}
  {P : Session σ α → Session σ' α → Prop} {asked : Expr.Use → Prop}
  {c : Context σ α} {c' : Context σ' α} {R : Instance α → Instance α → Prop}

theorem adjust_across (hR : Instance.Congruence R) (h : Env.Answers d P asked c.env c'.env)
    {i i' : Instance α} (hi : R i i') (mods : Bundle α) (hm : ∀ u ∈ mods.uses, asked u) :
    InStep d P R (c.adjust i mods) (c'.adjust i' mods) := by
  unfold adjust
  split
  · exact Leads.pure hi
  · exact Leads.andThen (h.evalBundle mods hm) fun m => Leads.pure (hR.apply i i' m hi)

theorem adjust_inStep (h : Env.Answers d P asked c.env c'.env) (i : Instance α)
    (mods : Bundle α) (hm : ∀ u ∈ mods.uses, asked u) :
    InStep d P Eq (c.adjust i mods) (c'.adjust i mods) :=
  adjust_across .eq h rfl mods hm

theorem startFrom_across (hR : Instance.Congruence R)
    (own : c.strategy.ownCoordinates = c'.strategy.ownCoordinates) (opsOnly follows : Bool)
    {i i' : Instance α} (hi : R i i') :
    R (c.startFrom opsOnly follows i) (c'.startFrom opsOnly follows i') := by
  unfold startFrom
  rw [← own]
  split
  · exact hR.origin i i' hi
  · exact hi

/-- The arguments that are bound are as many as were paired with a parameter. -/
theorem bindArgs_inStep (h : Env.Answers d P asked c.env c'.env) (params : List Param)
    (args : List (Expr α)) (ha : ∀ e ∈ args, ∀ u ∈ e.uses, asked u)
    (hl : args.length = params.length) :
    InStep d P (fun vs vs' => vs = vs' ∧ vs.length = params.length)
      (c.bindArgs params args) (c'.bindArgs params args) := by
  induction params generalizing args with
  | nil => exact Leads.pure ⟨rfl, rfl⟩
  | cons p params ih =>
    cases args with
    | nil => cases hl
    | cons e args =>
      refine Leads.andThen (h.eval e (ha e (by simp))) fun v => ?_
      refine h.settled e.span (v.conforms_ordinary _ _ _) fun _ _ => ?_
      refine Leads.bind (ih args (fun e he => ha e (by simp [he])) (by simpa using hl)) ?_
      rintro vs _ ⟨rfl, hvs⟩
      exact Leads.pure ⟨rfl, by simp [hvs]⟩

theorem case_enterAll (c : Context σ α) (keys : List (Int × Nat)) (bodies : List (Body α))
    (default : Body α) (key : Int) :
    Switch.case ⟨keys, c.enterAll bodies, c.enterBody default⟩ key =
      c.enterBody (Switch.case ⟨keys, bodies, default⟩ key) := by
  have guided := Guided.case_enterAll (fun _ => c) [] keys bodies default key
  rwa [Guided.enterAll_const, Guided.enterBody_const, Guided.enterBody_const] at guided

/-- Only a primitive asks the renderer, and only a shape is expanded further. -/
theorem replace_across (hR : Instance.Congruence R) (h : Env.Answers d P asked c.env c'.env)
    (head : Head α) (hm : ∀ u ∈ head.mods.uses, asked u)
    (ha : ∀ e ∈ head.args, ∀ u ∈ e.uses, asked u) (hg : c.grammar = c'.grammar)
    (problem : ∀ span p s s', P s s' →
      d.together (.fault (.grammar ⟨span, p⟩)) (.fault (.grammar ⟨span, p⟩)) s s')
    (primitive : ∀ p, head.target = .primitive p → ∀ i i' : Instance α, R i i' → InStep d P Eq
      (do if ← c.consult i then
          Attempt.update fun s => { s with renderer := c.renderer.drawPrimitive i p s.renderer })
      (do if ← c'.consult i' then
          Attempt.update fun s => { s with renderer := c'.renderer.drawPrimitive i' p s.renderer }))
    (expand : ∀ index shape, head.target = .shape index → c.grammar.shapes[index]? = some shape →
      ∀ i i' : Instance α, R i i' → i.shape = some index → i.params.length = shape.params.length →
        InStep d P Eq (c.expand i) (c'.expand i')) {parent parent' : Instance α}
    (hp : R parent parent') :
    InStep d P Eq (c.replace head parent) (c'.replace head parent') := by
  unfold replace
  split
  · exact Leads.pure rfl
  case h_2 p target =>
    exact Leads.bind (adjust_across hR h hp head.mods hm) fun child child' hc =>
      primitive p target _ _ (hR.renamed child child' none [] hc)
  case h_3 index target =>
    rw [← hg]
    split
    · exact Leads.fail fun s s' hs => problem _ _ s s' hs
    case h_2 shape hshape =>
      refine Leads.bind (adjust_across hR h hp head.mods hm) fun child child' hc => ?_
      by_cases hl : head.args.length = shape.params.length
      · rw [if_neg (not_not_intro hl), if_neg (not_not_intro hl)]
        refine Leads.bind (bindArgs_inStep h shape.params head.args ha hl) ?_
        rintro values _ ⟨rfl, hvalues⟩
        exact expand index shape target hshape _ _ (hR.renamed child child' _ _ hc) rfl hvalues
      · rw [if_pos hl, if_pos hl]
        exact Leads.fail fun s s' hs => problem _ _ s s' hs

theorem replace_inStep (h : Env.Answers d P asked c.env c'.env) (head : Head α)
    (hm : ∀ u ∈ head.mods.uses, asked u)
    (ha : ∀ e ∈ head.args, ∀ u ∈ e.uses, asked u) (hg : c.grammar = c'.grammar)
    (problem : ∀ span p s s', P s s' →
      d.together (.fault (.grammar ⟨span, p⟩)) (.fault (.grammar ⟨span, p⟩)) s s')
    (primitive : ∀ p, head.target = .primitive p → ∀ i : Instance α, InStep d P Eq
      (do if ← c.consult i then
          Attempt.update fun s => { s with renderer := c.renderer.drawPrimitive i p s.renderer })
      (do if ← c'.consult i then
          Attempt.update fun s => { s with renderer := c'.renderer.drawPrimitive i p s.renderer }))
    (expand : ∀ index shape, head.target = .shape index → c.grammar.shapes[index]? = some shape →
      ∀ i : Instance α, i.shape = some index → i.params.length = shape.params.length →
        InStep d P Eq (c.expand i) (c'.expand i)) (parent : Instance α) :
    InStep d P Eq (c.replace head parent) (c'.replace head parent) := by
  refine replace_across .eq h head hm ha hg problem ?_ ?_ rfl
  · rintro p target i _ rfl
    exact primitive p target i
  · rintro index shape target hshape i _ rfl
    exact expand index shape target hshape i

/-! ### Loops -/

theorem loopRange_inStep (h : Env.Answers d P asked c.env c'.env)
    (hr : c.strategy.reuse = c'.strategy.reuse) (spec : LoopSpec α)
    (he : ∀ u ∈ spec.range.uses, asked u)
    (problem : ∀ span p s s', P s s' →
      d.together (.fault (.grammar ⟨span, p⟩)) (.fault (.grammar ⟨span, p⟩)) s s') :
    InStep d P Eq (c.loopRange spec) (c'.loopRange spec) := by
  unfold loopRange
  rw [← hr]
  split
  · exact Leads.pure rfl
  · refine Leads.andThen (h.eval spec.range he) fun v => ?_
    cases LoopRange.ofValue v with
    | ok range => exact Leads.pure rfl
    | error p => exact Leads.fail fun s s' hs => problem _ _ s s' hs

theorem passes_across (hR : Instance.Congruence R) (h : Env.Answers d P asked c.env c'.env)
    (mods : Bundle α) (hm : ∀ u ∈ mods.uses, asked u) (range : LoopRange α)
    {body : Instance α → List (Value α) → Action σ α Unit}
    {body' : Instance α → List (Value α) → Action σ' α Unit}
    (hb : ∀ i i', R i i' → ∀ x, InStep d P Eq (body i [.number x]) (body' i' [.number x]))
    (left i : Nat) (last : α) {running running' : Instance α} (hr : R running running') :
    InStep d P (fun a b => a.1 = b.1 ∧ R a.2 b.2) (c.passes mods range body left i last running)
      (c'.passes mods range body' left i last running') := by
  induction left generalizing i last running running' with
  | zero => exact Leads.pure ⟨rfl, hr⟩
  | succ left ih =>
    refine Leads.andThen (hb running running' hr _) fun _ => ?_
    exact Leads.bind (adjust_across hR h hr mods hm) fun _ _ next => ih _ _ next

theorem loop_across (hR : Instance.Congruence R) (h : Env.Answers d P asked c.env c'.env)
    (head : Head α) (hm : ∀ u ∈ head.mods.uses, asked u) (spec : LoopSpec α)
    (hr : InStep d P Eq (c.loopRange spec) (c'.loopRange spec))
    {body last : Entering σ α} {body' last' : Entering σ' α} {parent parent' : Instance α}
    (follows : Bool)
    (hs : R (c.startFrom spec.opsOnly follows parent) (c'.startFrom spec.opsOnly follows parent'))
    (hb : ∀ i i', R i i' → ∀ follows x,
      InStep d P Eq (body i follows [.number x]) (body' i' follows [.number x]))
    (hl : ∀ i i', R i i' → ∀ follows x,
      InStep d P Eq (last i follows [.number x]) (last' i' follows [.number x])) :
    InStep d P Eq (c.loop head spec body last parent follows)
      (c'.loop head spec body' last' parent' follows) := by
  refine Leads.andThen hr fun range => ?_
  refine Leads.bind (passes_across hR h head.mods hm range (fun i i' hi x => hb i i' hi _ x)
    _ _ _ hs) ?_
  rintro ⟨x, running⟩ ⟨_, running'⟩ ⟨rfl, next⟩
  exact hl running running' next _ x

theorem loop_inStep (h : Env.Answers d P asked c.env c'.env) (head : Head α)
    (hm : ∀ u ∈ head.mods.uses, asked u) (spec : LoopSpec α)
    (hr : InStep d P Eq (c.loopRange spec) (c'.loopRange spec))
    {body last : Entering σ α} {body' last' : Entering σ' α} (parent : Instance α) (follows : Bool)
    (hs : c.startFrom spec.opsOnly follows parent = c'.startFrom spec.opsOnly follows parent)
    (hb : ∀ i follows x, InStep d P Eq (body i follows [.number x]) (body' i follows [.number x]))
    (hl : ∀ i follows x, InStep d P Eq (last i follows [.number x]) (last' i follows [.number x])) :
    InStep d P Eq (c.loop head spec body last parent follows)
      (c'.loop head spec body' last' parent follows) := by
  refine loop_across .eq h head hm spec hr follows hs ?_ ?_
  · rintro i _ rfl
    exact hb i
  · rintro i _ rfl
    exact hl i

/-! ### Transforms -/

theorem cloned_across (hR : Instance.Congruence R) {saved saved' : Random}
    {base base' : Instance α} (hbase : R base base')
    (hs : ∀ s s', P s s' → P { s with random := saved } { s' with random := saved' })
    {body : Instance α → Action σ α Unit} {body' : Instance α → Action σ' α Unit}
    (hb : ∀ i i', R i i' → InStep d P Eq (body i) (body' i')) (replicas : List (Adjustment α)) :
    InStep d P Eq (cloned saved base body replicas) (cloned saved' base' body' replicas) := by
  induction replicas with
  | nil => exact Leads.pure rfl
  | cons m rest ih =>
    refine Leads.andThen (Leads.update hs) fun _ => ?_
    exact Leads.andThen (hb _ _ (hR.apply base base' m hbase)) fun _ => ih

theorem chained_across (hR : Instance.Congruence R) {body : Instance α → Action σ α Unit}
    {body' : Instance α → Action σ' α Unit}
    (hb : ∀ i i', R i i' → InStep d P Eq (body i) (body' i')) {running running' : Instance α}
    (hr : R running running') (replicas : List (Adjustment α)) :
    InStep d P Eq (chained body running replicas) (chained body' running' replicas) := by
  induction replicas generalizing running running' with
  | nil => exact Leads.pure rfl
  | cons m rest ih =>
    have next := hR.apply running running' m hr
    exact Leads.andThen (hb _ _ next) fun _ => ih next

/-- The random state saved before the replicas is put back before each clone. -/
theorem transform_across (hR : Instance.Congruence R) (h : Env.Answers d P asked c.env c'.env)
    (save : ∀ s s' t t', P s s' → P t t' →
      P { s with random := t.random } { s' with random := t'.random })
    (head : Head α) (hm : ∀ u ∈ head.mods.uses, asked u) (spec : TransformSpec α)
    (hg : ∀ g ∈ spec.generators, ∀ u ∈ g.uses, asked u)
    {body : Entering σ α} {body' : Entering σ' α} {parent parent' : Instance α} (follows : Bool)
    (hs : R (c.startFrom spec.opsOnly follows parent) (c'.startFrom spec.opsOnly follows parent'))
    (hb : ∀ i i', R i i' → ∀ follows, InStep d P Eq (body i follows []) (body' i' follows [])) :
    InStep d P Eq (c.transform head spec body parent follows)
      (c'.transform head spec body' parent' follows) := by
  refine Leads.bind (adjust_across hR h hs head.mods hm) fun base base' hbase => ?_
  refine Leads.andThen (h.productFrom spec.generators hg _) fun replicas => ?_
  refine Leads.bind Leads.state fun t t' ht => ?_
  simp only
  split
  · exact cloned_across hR hbase (fun s s' hs => save s s' t t' hs ht)
      (fun i i' hi => hb i i' hi _) replicas
  · exact chained_across hR (fun i i' hi => hb i i' hi _) hbase replicas

theorem transform_inStep (h : Env.Answers d P asked c.env c'.env)
    (save : ∀ s s' t t', P s s' → P t t' →
      P { s with random := t.random } { s' with random := t'.random })
    (head : Head α) (hm : ∀ u ∈ head.mods.uses, asked u) (spec : TransformSpec α)
    (hg : ∀ g ∈ spec.generators, ∀ u ∈ g.uses, asked u)
    {body : Entering σ α} {body' : Entering σ' α} (parent : Instance α) (follows : Bool)
    (hs : c.startFrom spec.opsOnly follows parent = c'.startFrom spec.opsOnly follows parent)
    (hb : ∀ i follows, InStep d P Eq (body i follows []) (body' i follows [])) :
    InStep d P Eq (c.transform head spec body parent follows)
      (c'.transform head spec body' parent follows) := by
  refine transform_across .eq h save head hm spec hg follows hs ?_
  rintro i _ rfl
  exact hb i

/-! ### Choices -/

theorem branch_inStep (h : Env.Answers d P asked c.env c'.env) (cond : Expr α)
    (hc : ∀ u ∈ cond.uses, asked u)
    {thenBody elseBody : Entering σ α} {thenBody' elseBody' : Entering σ' α}
    (parent : Instance α) {parent' : Instance α} (follows : Bool) (seed : List (Value α))
    (ht : InStep d P Eq (thenBody parent follows seed) (thenBody' parent' follows seed))
    (he : InStep d P Eq (elseBody parent follows seed) (elseBody' parent' follows seed)) :
    InStep d P Eq (c.branch cond thenBody elseBody parent follows seed)
      (c'.branch cond thenBody' elseBody' parent' follows seed) := by
  refine Leads.andThen (h.eval cond hc) fun v => ?_
  refine h.settled cond.span v.truth_ordinary fun b _ => ?_
  cases b
  · exact he
  · exact ht

/-- The key selects one of the bodies, the same on both sides. -/
theorem switch_inStep (keys : List (Int × Nat)) (bodies : List (Body α)) (default : Body α)
    (key : Int) (parent : Instance α) {parent' : Instance α} (follows : Bool)
    (hb : ∀ b, b = default ∨ b ∈ bodies →
      InStep d P Eq (c.enterBody b parent follows []) (c'.enterBody b parent' follows [])) :
    InStep d P Eq
      (Switch.case ⟨keys, c.enterAll bodies, c.enterBody default⟩ key parent follows [])
      (Switch.case ⟨keys, c'.enterAll bodies, c'.enterBody default⟩ key parent' follows []) := by
  rw [c.case_enterAll, c'.case_enterAll]
  exact hb _ (Switch.case_eq_default_or_mem ⟨keys, bodies, default⟩ key)

/-- Statements in a row, in contexts that run each of them in step. -/
theorem runAll_inStep {statements : List (Statement α)} {parent parent' : Instance α}
    {follows : Bool}
    (hs : ∀ st ∈ statements, InStep d P Eq (c.run st parent follows) (c'.run st parent' follows)) :
    InStep d P Eq (c.runAll statements parent follows) (c'.runAll statements parent' follows) := by
  induction statements with
  | nil =>
    rw [runAll, runAll]
    exact Leads.pure rfl
  | cons st rest ih =>
    rw [runAll, runAll]
    exact Leads.andThen (hs st List.mem_cons_self) fun _ =>
      ih fun other mem => hs other (List.mem_cons_of_mem _ mem)

theorem selectKey_inStep (h : Env.Answers d P asked c.env c'.env) (selector : Expr α)
    (hs : ∀ u ∈ selector.uses, asked u) :
    InStep d P Eq (c.selectKey selector) (c'.selectKey selector) := by
  refine Leads.andThen (h.eval selector hs) fun v => ?_
  cases v with
  | number x =>
    simp only
    split
    · exact Leads.pure rfl
    · exact h.fail selector.span nofun
  | flag b => exact h.fail selector.span nofun
  | tuple xs => exact h.fail selector.span nofun
  | adjustment m => exact h.fail selector.span nofun

/-! ### Path statements -/

theorem evalArgs_inStep (h : Env.Answers d P asked c.env c'.env)
    (given : List (Path.ArgName × Expr α))
    (hg : ∀ arg ∈ given, ∀ u ∈ arg.2.uses, asked u) (args : Path.Args α) :
    InStep d P Eq (c.evalArgs given args) (c'.evalArgs given args) := by
  induction given generalizing args with
  | nil => exact Leads.pure rfl
  | cons arg rest ih =>
    exact Leads.andThen (h.evalNumber arg.2 (hg arg (by simp))) fun v =>
      ih (fun arg hr => hg arg (by simp [hr])) _

theorem opArgs_inStep (h : Env.Answers d P asked c.env c'.env)
    (hr : c.strategy.reuse = c'.strategy.reuse) (o : Path.Op α)
    (ho : ∀ u ∈ o.uses, asked u) :
    InStep d P Eq (c.opArgs o) (c'.opArgs o) := by
  unfold opArgs
  rw [← hr]
  split
  · exact Leads.pure rfl
  · exact evalArgs_inStep h o.args
      (fun arg harg u hu => ho u (List.mem_flatMap.mpr ⟨arg, harg, hu⟩)) _

theorem evalNumberOr_inStep (h : Env.Answers d P asked c.env c'.env) (otherwise : α)
    (e : Option (Expr α)) (he : ∀ x ∈ e, ∀ u ∈ x.uses, asked u) :
    InStep d P Eq (c.evalNumberOr otherwise e) (c'.evalNumberOr otherwise e) := by
  cases e with
  | none => exact Leads.pure rfl
  | some e => exact h.evalNumber e (he e rfl)

/-- Operators draw in the coordinates of the instance, or in their own. -/
theorem op_across (hR : Instance.Congruence R) (o : Path.Op α)
    (ha : InStep d P Eq (c.opArgs o) (c'.opArgs o)) {parent parent' : Instance α} (follows : Bool)
    (hp : R parent parent') (hm : c.strategy.ownCoordinates = c'.strategy.ownCoordinates)
    (hb : ∀ args i i', R i i' → InStep d P Eq
      (buildWith o.operator.name fun p => p.append o.operator o.flags o.isCubic args i.transform)
      (buildWith o.operator.name fun p => p.append o.operator o.flags o.isCubic args i'.transform)) :
    InStep d P Eq (c.op o parent follows) (c'.op o parent' follows) := by
  refine Leads.andThen ha fun args => ?_
  rw [hm]
  simp only
  split
  · exact hb args parent parent' hp
  · exact hb args { parent with transform := .identity } { parent' with transform := .identity }
      (hR.origin parent parent' hp)

theorem op_inStep (o : Path.Op α) (ha : InStep d P Eq (c.opArgs o) (c'.opArgs o))
    (parent : Instance α) (follows : Bool)
    (hm : c.strategy.ownCoordinates = c'.strategy.ownCoordinates)
    (hb : ∀ args m, InStep d P Eq
      (buildWith o.operator.name fun p => p.append o.operator o.flags o.isCubic args m)
      (buildWith o.operator.name fun p => p.append o.operator o.flags o.isCubic args m)) :
    InStep d P Eq (c.op o parent follows) (c'.op o parent follows) := by
  refine op_across .eq o ha follows rfl hm ?_
  rintro args i _ rfl
  exact hb args i.transform

theorem command_inStep (h : Env.Answers d P asked c.env c'.env) (head : Head α)
    (hm : ∀ u ∈ head.mods.uses, asked u) (spec : Path.CommandSpec α)
    (hs : ∀ u ∈ spec.uses, asked u)
    (hb : ∀ command, InStep d P Eq (buildWith "path command" fun p => p.addCommand command)
      (buildWith "path command" fun p => p.addCommand command)) :
    InStep d P Eq (c.command head spec) (c'.command head spec) := by
  have hw : ∀ x ∈ spec.width, ∀ u ∈ x.uses, asked u := fun x hx u hu =>
    hs u (List.mem_flatMap.mpr ⟨x, by simp_all [Path.CommandSpec.exprs], hu⟩)
  have hi : ∀ x ∈ spec.miter, ∀ u ∈ x.uses, asked u := fun x hx u hu =>
    hs u (List.mem_flatMap.mpr ⟨x, by simp_all [Path.CommandSpec.exprs], hu⟩)
  refine Leads.andThen (h.evalBundle head.mods hm) fun adjust => ?_
  refine Leads.andThen (evalNumberOr_inStep h _ spec.width hw) fun width => ?_
  exact Leads.andThen (evalNumberOr_inStep h _ spec.miter hi) fun miter => hb _

end Context

/-! ### Drawing a path -/

def Renderer.drawAll (r : Renderer σ α) (i : Instance α) (uid : Nat) (p : Path.Compiled α)
    (commands : List (Path.Command α)) (x : σ) : σ :=
  commands.foldl (fun x command => r.drawPath (i.apply command.adjust) uid p command x) x

/-- What every command keeps between two renderers is kept by all of them. -/
theorem Renderer.drawAll_rel {r : Renderer σ α} {r' : Renderer σ' α} {R : σ → σ' → Prop}
    {i i' : Instance α} {uid uid' : Nat} {p p' : Path.Compiled α}
    (step : ∀ command x x', R x x' →
      R (r.drawPath (i.apply command.adjust) uid p command x)
        (r'.drawPath (i'.apply command.adjust) uid' p' command x'))
    (commands : List (Path.Command α)) {x : σ} {x' : σ'} (h : R x x') :
    R (r.drawAll i uid p commands x) (r'.drawAll i' uid' p' commands x') :=
  List.foldl_rel h fun command _ => step command

/-- To draw a path changes the state of the renderer and nothing else. -/
theorem Context.drawCommands_eq (c : Context σ α) (i : Instance α) (uid : Nat)
    (p : Path.Compiled α) (commands : List (Path.Command α)) :
    c.drawCommands i uid p commands = Attempt.update fun s =>
      { s with renderer := c.renderer.drawAll i uid p commands s.renderer } := by
  induction commands with
  | nil => rfl
  | cons command rest ih =>
    rw [drawCommands, ih]
    rfl

end ShapeGrammar
