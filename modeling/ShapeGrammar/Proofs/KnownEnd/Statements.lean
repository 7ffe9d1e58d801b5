import ShapeGrammar.Proofs.KnownEnd.Sessions

/-!
# Statements of two runs, one of them known to its end

Evaluation in a quiet grammar asks for nothing that could tell the two runs apart. What
remains is how a value or a path is taken from the store and how the renderer answers;
given these, every statement of a quiet grammar, every rule and every shape is foreseen.
-/

set_option autoImplicit false

namespace ShapeGrammar

open Attempt

variable {σ α β : Type} [Scalar α]

namespace Context

variable {k : Pairing σ α} {c : Context σ α}

/-! ### Evaluation -/

/-- The action does nothing but evaluate, and asks for quiet uses only. -/
def Reads (c : Context σ α) (x : Action σ α β) : Prop :=
  ∀ (d : Parting Stop Stop (Session σ α) (Session σ α)) (P : Session σ α → Session σ α → Prop),
    (∀ e s s', P s s' → d.together e e s s') →
      Env.Answers d P (fun u => u.isQuiet = true) c.env c.env → InStep d P Eq x x

theorem Reads.store {x : Action σ α β} (h : c.Reads x) {fuel : Nat}
    (env : c.env = Session.environmentAt fuel) (s : Session σ α) :
    (x.run s).state.store = s.store := by
  let D (t _ : Session σ α) : Prop := t.store = s.store
  have inStep : Env.InStep (Twins.parting False D fun _ => False) (Twins False D) True
      (fun _ => true) c.env c.env := by
    rw [env]
    exact Twins.environmentAt_inStep (fun same _ _ _ _ _ _ => same) (Nat.le_refl fuel) (.inl rfl)
  have ends := h (Twins.parting False D fun _ => False) (Twins False D)
    (fun _ _ _ hs => ⟨rfl, hs⟩) (inStep.free.mono fun _ _ => trivial) s s
    ⟨rfl, rfl, rfl, rfl, nofun, rfl⟩
  generalize x.run s = o at ends ⊢
  cases ends with
  | ok _ state => exact state.rest
  | together parted => exact parted.2.rest
  | alone never => exact never.elim

theorem Reads.foresees {x : Action σ α β} (h : c.Reads x) {fuel : Nat}
    (env : c.env = Session.environmentAt fuel) : k.Foresees x x := by
  have answers : Env.Answers (Parting.alike k.Holds) k.Holds (·.isQuiet = true) c.env c.env := by
    rw [env]
    exact Muted.environmentAt_answers Pairing.unmoved fuel
  exact .of_level (h.store env) (h _ _ (fun _ _ _ hs => ⟨rfl, hs⟩) answers)

/-- A context whose evaluations nest to some depth, with a renderer that answers alike,
and with values and shapes that are foreseen. -/
structure Foreseen (k : Pairing σ α) (c : Context σ α) : Prop where
  keeps : c.Keeps
  env : ∃ fuel, c.env = Session.environmentAt fuel
  cutoff : ∀ i depth a x b y, k.tied a x b y →
    (c.renderer.cutoff i depth x).1 = (c.renderer.cutoff i depth y).1 ∧
      k.tied a (c.renderer.cutoff i depth x).2 b (c.renderer.cutoff i depth y).2
  primitive : ∀ i p a x b y, k.tied a x b y →
    k.tied a (c.renderer.drawPrimitive i p x) b (c.renderer.drawPrimitive i p y)
  value : ∀ place (d : Define α) span, d.body.Quiet →
    k.Foresees (c.keptValue place d span) (c.keptValue place d span)
  expand : ∀ i, k.Foresees (c.expand i) (c.expand i)

namespace Foreseen

theorem reads (h : c.Foreseen k) {x : Action σ α β} (reads : c.Reads x) : k.Foresees x x := by
  obtain ⟨fuel, env⟩ := h.env
  exact reads.foresees env

theorem adjust (h : c.Foreseen k) (i : Instance α) {mods : Bundle α}
    (quiet : ∀ u ∈ mods.uses, u.isQuiet = true) :
    k.Foresees (c.adjust i mods) (c.adjust i mods) :=
  h.reads fun _ _ _ env => adjust_inStep env i mods quiet

/-! ### Drawing -/

theorem consult (h : c.Foreseen k) (i : Instance α) :
    k.Foresees (c.consult i) (c.consult i) := by
  refine .of_level (fun s => ?_) fun s s' hs => ?_
  · simp only [Context.consult]
    split <;> rfl
  · obtain ⟨verdict, next⟩ := h.cutoff i (s.depth + 1) _ _ _ _ hs.rest.tied
    simp only [Context.consult, ← hs.rest.depth]
    generalize c.renderer.cutoff i (s.depth + 1) s.renderer = answer at verdict next ⊢
    generalize c.renderer.cutoff i (s.depth + 1) s'.renderer = answer' at verdict next ⊢
    obtain ⟨v, r⟩ := answer
    obtain ⟨v', r'⟩ := answer'
    cases verdict
    have after : k.Holds { s with renderer := r } { s' with depth := s.depth, renderer := r' } :=
      { hs with rest := { hs.rest with depth := rfl, tied := next } }
    cases v with
    | expand => exact .ok rfl after
    | skip => exact .ok rfl after
    | abort => exact .together ⟨rfl, after⟩

theorem replace (h : c.Foreseen k) {head : Head α}
    (quiet : ∀ u ∈ head.uses, u.isQuiet = true) (parent : Instance α) :
    k.Foresees (c.replace head parent) (c.replace head parent) := by
  have adjust := h.adjust parent fun u hu => quiet u (List.mem_append_left _ hu)
  have args : ∀ e ∈ head.args, ∀ u ∈ e.uses, u.isQuiet = true := fun e he u hu =>
    quiet u (List.mem_append_right _ (List.mem_flatMap.mpr ⟨e, he, hu⟩))
  unfold Context.replace
  split
  · exact .pure ()
  case h_2 p _ =>
    refine adjust.andThen fun child => (h.consult _).andThen fun drawn => ?_
    split
    · refine .of_level (fun _ => rfl) (Leads.update fun s s' hs => ?_)
      have drawn := h.primitive { child with shape := none, params := [] } p _ _ _ _ hs.rest.tied
      exact { hs with rest := { hs.rest with tied := drawn } }
    · exact .pure ()
  · split
    · exact .fail _
    case h_2 index _ shape _ =>
      refine adjust.andThen fun child => ?_
      by_cases length : head.args.length = shape.params.length
      · rw [if_neg (not_not_intro length)]
        have bind : c.Reads (c.bindArgs shape.params head.args) := fun _ _ _ env s s' hs =>
          (bindArgs_inStep env shape.params head.args args length s s' hs).weaken (.refl _)
            (fun _ _ => id) fun _ _ => And.left
        exact (h.reads bind).andThen fun values => h.expand _
      · rw [if_pos length]
        exact .fail _

/-! ### Loops and transforms -/

theorem passes (h : c.Foreseen k) {mods : Bundle α} (quiet : ∀ u ∈ mods.uses, u.isQuiet = true)
    (range : LoopRange α) {body : Instance α → List (Value α) → Action σ α Unit}
    (hb : ∀ i seed, k.Foresees (body i seed) (body i seed)) (left i : Nat) (last : α)
    (running : Instance α) :
    k.Foresees (c.passes mods range body left i last running)
      (c.passes mods range body left i last running) := by
  induction left generalizing i last running with
  | zero => exact .pure _
  | succ left ih =>
    exact (hb running _).andThen fun _ => (h.adjust running quiet).andThen fun next => ih _ _ next

theorem loop (h : c.Foreseen k) {head : Head α} {spec : LoopSpec α}
    (mods : ∀ u ∈ head.mods.uses, u.isQuiet = true)
    (range : ∀ u ∈ spec.range.uses, u.isQuiet = true) {body last : Entering σ α}
    (hb : ∀ i follows seed, k.Foresees (body i follows seed) (body i follows seed))
    (hl : ∀ i follows seed, k.Foresees (last i follows seed) (last i follows seed))
    (parent : Instance α) (follows : Bool) :
    k.Foresees (c.loop head spec body last parent follows)
      (c.loop head spec body last parent follows) := by
  have ranges : c.Reads (c.loopRange spec) := fun _ _ problem env =>
    loopRange_inStep env rfl spec range fun _ _ s s' hs => problem _ s s' hs
  refine (h.reads ranges).andThen fun range => ?_
  exact (h.passes mods range (fun i seed => hb i _ seed) _ _ _ _).andThen fun last =>
    hl last.2 _ _

omit [Scalar α] in
theorem restore (k : Pairing σ α) :
    k.Foresees (Attempt.update fun s => { s with random := k.random } : Action σ α Unit)
      (Attempt.update fun s => { s with random := k.random' }) :=
  .of_level (fun _ => rfl) (Leads.update fun _ _ hs =>
    { hs with rest := { hs.rest with random := rfl, random' := rfl } })

theorem forward_cloned {body : Instance α → Action σ α Unit} (hb : ∀ i, (body i).Forward)
    (saved : Random) (base : Instance α) (replicas : List (Adjustment α)) :
    (cloned saved base body replicas).Forward := by
  induction replicas with
  | nil => exact Action.forward_of_store fun _ => rfl
  | cons m rest ih =>
    exact (Action.forward_of_store fun _ => rfl).bind fun _ => (hb _).bind fun _ => ih

theorem cloned {body : Instance α → Action σ α Unit} (hb : ∀ i, k.Foresees (body i) (body i))
    (base : Instance α) (replicas : List (Adjustment α)) :
    k.Foresees (cloned k.random base body replicas) (cloned k.random' base body replicas) := by
  induction replicas with
  | nil => exact .pure ()
  | cons m rest ih => exact (restore k).andThen fun _ => (hb _).andThen fun _ => ih

theorem chained {body : Instance α → Action σ α Unit} (hb : ∀ i, k.Foresees (body i) (body i))
    (running : Instance α) (replicas : List (Adjustment α)) :
    k.Foresees (chained body running replicas) (chained body running replicas) := by
  induction replicas generalizing running with
  | nil => exact .pure ()
  | cons m rest ih => exact (hb _).andThen fun _ => ih _

theorem transform (h : c.Foreseen k) {head : Head α} {spec : TransformSpec α}
    (mods : ∀ u ∈ head.mods.uses, u.isQuiet = true)
    (generators : ∀ g ∈ spec.generators, ∀ u ∈ g.uses, u.isQuiet = true) {body : Entering σ α}
    (hb : ∀ i follows seed, k.Foresees (body i follows seed) (body i follows seed))
    (parent : Instance α) (follows : Bool) :
    k.Foresees (c.transform head spec body parent follows)
      (c.transform head spec body parent follows) := by
  have product : c.Reads (Symmetry.product c.env spec.generators) := fun _ _ _ env =>
    env.productFrom spec.generators generators _
  refine (h.adjust _ mods).andThen fun base => (h.reads product).andThen fun replicas => ?_
  refine .of_state (fun s => ?_) fun s s' hs => ?_
  · simp only
    split
    · exact forward_cloned (fun i => (hb i _ _).forward) _ base replicas
    · exact (chained (fun i => hb i _ _) base replicas).forward
  · simp only [hs.rest.random, hs.rest.random']
    split
    · exact cloned (fun i => hb i _ _) base replicas
    · exact chained (fun i => hb i _ _) base replicas

/-! ### Other statements -/

theorem branch (h : c.Foreseen k) {cond : Expr α} (quiet : ∀ u ∈ cond.uses, u.isQuiet = true)
    {thenBody elseBody : Entering σ α} {parent : Instance α} {follows : Bool}
    {seed : List (Value α)}
    (ht : k.Foresees (thenBody parent follows seed) (thenBody parent follows seed))
    (he : k.Foresees (elseBody parent follows seed) (elseBody parent follows seed)) :
    k.Foresees (c.branch cond thenBody elseBody parent follows seed)
      (c.branch cond thenBody elseBody parent follows seed) := by
  have eval : c.Reads (c.env.eval cond) := fun _ _ _ env => env.eval cond quiet
  refine (h.reads eval).andThen fun v => ?_
  have settle : c.Reads (c.env.settle cond.span v.truth) := fun _ _ _ env =>
    env.settle cond.span v.truth_ordinary
  refine (h.reads settle).andThen fun b => ?_
  cases b
  · exact he
  · exact ht

theorem define (h : c.Foreseen k) {head : Head α} {d : Define α} (quiet : d.body.Quiet) :
    k.Foresees (c.define head d) (c.define head d) := by
  have value : ∀ v : Value α, (Binding.value v).Quiet := fun _ => trivial
  have function : (Binding.function d).Quiet := quiet
  have deferred : (Binding.deferred d).Quiet := quiet
  have eval : c.Reads (c.env.evalDefine d head.span) := fun _ _ _ env =>
    env.evalDefine d head.span quiet
  unfold Context.define
  split
  · exact .bindName d.name function head.span
  · split
    · simp only
      split
      · exact (h.value _ d head.span quiet).andThen fun v => .bindName d.name (value v) head.span
      · exact (h.reads eval).andThen fun v => .bindName d.name (value v) head.span
    · exact .bindName d.name deferred head.span

theorem op (h : c.Foreseen k) {o : Path.Op α} (quiet : ∀ u ∈ o.uses, u.isQuiet = true)
    (parent : Instance α) (follows : Bool) :
    k.Foresees (c.op o parent follows) (c.op o parent follows) := by
  have args : c.Reads (c.opArgs o) := fun _ _ _ env => opArgs_inStep env rfl o quiet
  refine (h.reads args).andThen fun args => .buildWith _ fun p p' kin => ?_
  exact kin.both (fun p => p.append_erased _ _ _ _ _) fun _ _ => Path.Compiled.append_keeps

theorem command (h : c.Foreseen k) {head : Head α} {spec : Path.CommandSpec α}
    (mods : ∀ u ∈ head.mods.uses, u.isQuiet = true)
    (quiet : ∀ u ∈ spec.uses, u.isQuiet = true) :
    k.Foresees (c.command head spec) (c.command head spec) := by
  have bundle : c.Reads (c.env.evalBundle head.mods) := fun _ _ _ env =>
    env.evalBundle head.mods mods
  have number : ∀ otherwise (e : Option (Expr α)), (∀ x ∈ e, x ∈ spec.exprs) →
      c.Reads (c.evalNumberOr otherwise e) := fun otherwise e mem _ _ _ env =>
    evalNumberOr_inStep env otherwise e fun x hx u hu =>
      quiet u (List.mem_flatMap.mpr ⟨x, mem x hx, hu⟩)
  have width := number Path.defaultWidth spec.width fun x hx => by
    simp_all [Path.CommandSpec.exprs]
  have miter := number Path.defaultMiter spec.miter fun x hx => by
    simp_all [Path.CommandSpec.exprs]
  refine (h.reads bundle).andThen fun adjust => (h.reads width).andThen fun width =>
    (h.reads miter).andThen fun miter => .buildWith _ fun p p' kin => ?_
  exact kin.both (fun p => p.addCommand_erased _) fun _ _ => Path.Compiled.addCommand_keeps

/-! ### Bodies -/

theorem runAll {statements : List (Statement α)} {parent : Instance α} {follows : Bool}
    (hs : ∀ st ∈ statements, k.Foresees (c.run st parent follows) (c.run st parent follows)) :
    k.Foresees (c.runAll statements parent follows) (c.runAll statements parent follows) := by
  induction statements with
  | nil =>
    rw [Context.runAll]
    exact .pure ()
  | cons st rest ih =>
    rw [Context.runAll]
    exact (hs st List.mem_cons_self).andThen fun _ =>
      ih fun st hst => hs st (List.mem_cons_of_mem _ hst)

theorem enterBody_of (h : c.Foreseen k) {b : Body α}
    (hs : ∀ st ∈ b.statements, ∀ parent follows,
      k.Foresees (c.run st parent follows) (c.run st parent follows))
    (parent : Instance α) (follows : Bool) (seed : List (Value α)) :
    k.Foresees (c.enterBody b parent follows seed) (c.enterBody b parent follows seed) := by
  obtain ⟨statements, params, slots⟩ := b
  rw [Context.enterBody]
  split
  · exact .fail _
  · have pushes := (Action.pushes_bindParams params seed).bind fun _ =>
      (h.keeps.runAll statements parent follows).bindKeeps fun _ => keeps_checkSlots slots
    refine .inFrame pushes.stack pushes.stack ?_
    exact (Pairing.Foresees.bindParams params seed).andThen fun _ =>
      (runAll fun st hst => hs st hst parent follows).andThen fun _ => .checkSlots slots

theorem run (h : c.Foreseen k) (st : Statement α) : st.Quiet → (∀ x ∈ st.inner, x.Quiet) →
    ∀ parent follows, k.Foresees (c.run st parent follows) (c.run st parent follows) := by
  -- That a body is quiet says the same of all statements inside it, however deep.
  induction st using Statement.induct (P := fun b => b.Quiet → ∀ parent follows seed,
    k.Foresees (c.enterBody b parent follows seed) (c.enterBody b parent follows seed)) with
  | body b hs quiet parent follows seed =>
    refine h.enterBody_of (fun st hst => ?_) parent follows seed
    exact hs st hst (quiet.statement hst).1 (quiet.statement hst).2
  | replace head =>
    intro quiet _ parent follows
    rw [Context.run]
    exact h.replace quiet.uses parent
  | loop head spec body last hbody hlast =>
    intro quiet inner parent follows
    rw [Context.run]
    apply h.loop
    · exact fun u hu => quiet.uses u (List.mem_append_left _ (List.mem_append_left _ hu))
    · exact fun u hu => quiet.uses u (List.mem_append_right _ hu)
    · exact hbody fun x hx => inner x (List.mem_append_left _ hx)
    · exact hlast fun x hx => inner x (List.mem_append_right _ hx)
  | transform head spec body hbody =>
    intro quiet inner parent follows
    rw [Context.run]
    apply h.transform
    · exact fun u hu => quiet.uses u (List.mem_append_left _ (List.mem_append_left _ hu))
    · exact fun g hg u hu => quiet.uses u
        (List.mem_append_right _ (List.mem_flatMap.mpr ⟨g, hg, hu⟩))
    · exact hbody inner
  | branch head cond thenBody elseBody hthen helse =>
    intro quiet inner parent follows
    rw [Context.run]
    apply h.branch
    · exact fun u hu => quiet.uses u (List.mem_append_right _ hu)
    · exact hthen (fun x hx => inner x (List.mem_append_left _ hx)) _ _ _
    · exact helse (fun x hx => inner x (List.mem_append_right _ hx)) _ _ _
  | switch head selector keys bodies default hbodies hdefault =>
    intro quiet inner parent follows
    rw [Context.run]
    have select : c.Reads (c.selectKey selector) := fun _ _ _ env =>
      selectKey_inStep env selector fun u hu => quiet.uses u (List.mem_append_right _ hu)
    refine (h.reads select).andThen fun key => ?_
    rw [c.case_enterAll]
    rcases Switch.case_eq_default_or_mem ⟨keys, bodies, default⟩ key with same | mem
    · rw [same]
      exact hdefault (fun x hx => inner x (List.mem_append_right _ hx)) _ _ _
    · exact hbodies _ mem (fun x hx =>
        inner x (List.mem_append_left _ (Body.mem_flattenAll mem hx))) _ _ _
  | define head d =>
    intro quiet _ parent follows
    rw [Context.run]
    exact h.define quiet.body
  | op head o =>
    intro quiet _ parent follows
    rw [Context.run]
    exact h.op (fun u hu => quiet.uses u (List.mem_append_right _ hu)) parent follows
  | command head spec =>
    intro quiet _ parent follows
    rw [Context.run]
    apply h.command
    · exact fun u hu => quiet.uses u (List.mem_append_left _ (List.mem_append_left _ hu))
    · exact fun u hu => quiet.uses u (List.mem_append_right _ hu)

theorem enterBody (h : c.Foreseen k) {b : Body α} (quiet : b.Quiet) (parent : Instance α)
    (follows : Bool) (seed : List (Value α)) :
    k.Foresees (c.enterBody b parent follows seed) (c.enterBody b parent follows seed) :=
  h.enterBody_of (fun st hst => h.run st (quiet.statement hst).1 (quiet.statement hst).2) parent
    follows seed

/-! ### Rules -/

theorem rule (h : c.Foreseen k) (shape : Shape α) {rule : Rule α} (quiet : rule.body.Quiet)
    (path : shape.isPath = true → ∀ i, k.Foresees (c.pathRule rule (c.enterBody rule.body) i)
      (c.pathRule rule (c.enterBody rule.body) i)) (i : Instance α) :
    k.Foresees (c.rule shape rule (c.enterBody rule.body) i)
      (c.rule shape rule (c.enterBody rule.body) i) := by
  have inside : ∀ view, k.Foresees
      (Action.underView view (if shape.isPath then c.pathRule rule (c.enterBody rule.body) i
        else c.enterBody rule.body i true i.params))
      (Action.underView view (if shape.isPath then c.pathRule rule (c.enterBody rule.body) i
        else c.enterBody rule.body i true i.params)) := by
    intro view
    apply Pairing.Foresees.underView
    split
    case isTrue isPath => exact path isPath i
    case isFalse => exact h.enterBody quiet i true i.params
  refine .of_state (fun s => (inside _).forward) fun s s' hs => ?_
  rw [hs.height, hs.rest.globalsEnd]
  exact inside _

theorem selectRule_single {shape : Shape α} (single : shape.rules.length ≤ 1) :
    (selectRule shape : Action σ α (Rule α)) =
        Action.problem .none (.shapeWithoutRules shape.name) ∨
      ∃ rule ∈ shape.rules, (selectRule shape : Action σ α (Rule α)) = Pure.pure rule := by
  unfold selectRule
  match rules : shape.rules, single with
  | [], _ => exact .inl rfl
  | [only], _ => exact .inr ⟨only, List.mem_cons_self, rfl⟩

theorem expandShape (h : c.Foreseen k) (quiet : c.grammar.Quiet)
    (path : ∀ shape ∈ c.grammar.shapes, shape.isPath = true → ∀ rule ∈ shape.rules, ∀ i,
      k.Foresees (c.pathRule rule (c.enterBody rule.body) i)
        (c.pathRule rule (c.enterBody rule.body) i)) (i : Instance α) :
    k.Foresees (c.expandShape i) (c.expandShape i) := by
  unfold Context.expandShape
  split
  · exact .fail _
  · split
    · exact .fail _
    case h_2 shape found =>
      have mem : shape ∈ c.grammar.shapes := List.mem_of_getElem? found
      refine (h.consult i).andThen fun drawn => ?_
      split
      · apply Pairing.Foresees.deeper
        rcases selectRule_single (σ := σ) (quiet.single shape mem) with none | ⟨rule, hr, only⟩
        · rw [none]
          exact .fail _
        · rw [only, pure_bind]
          exact h.rule shape (quiet.rules shape mem rule hr)
            (fun isPath => path shape mem isPath rule hr) i
      · exact .pure ()

end Foreseen

end Context

end ShapeGrammar
