import ShapeGrammar.Proofs.SameSight.Statements

/-!
# Shapes with the same globals in sight

A shape is expanded in sight of the globals alone. Two expansions that begin on
the same globals, at the same depth, therefore go in step whatever lies between:
the rule drawn is the same, its body goes in step, and a path is built or
taken from the store on both sides.
-/

set_option autoImplicit false

namespace ShapeGrammar

open Attempt

variable {σ α β γ : Type}

/-! ### On common ground -/

/-- The globals lie complete at the bottom of both stacks, at one depth of one
session. -/
structure Control.Grounded (G : List (Slot α)) (δ : Nat) (κ κ' : Control α) : Prop where
  below : κ.globalsEnd ≤ κ.stack.height
  below' : κ'.globalsEnd ≤ κ'.stack.height
  globals : Stack.below κ.stack.slots 0 κ.globalsEnd = G
  globals' : Stack.below κ'.stack.slots 0 κ'.globalsEnd = G
  depth : κ.depth = δ
  depth' : κ'.depth = δ
  session : κ.stack.session = κ'.stack.session

def Ground.rule (G : List (Slot α)) (δ : Nat) : Ground α where
  holds := Control.Grounded G δ
  extend κ κ' extra h :=
    { h with
      below := by
        simp only [Control.extend, Stack.height_extend]
        exact Nat.le_trans h.below (Nat.le_add_right _ _)
      below' := by
        simp only [Control.extend, Stack.height_extend]
        exact Nat.le_trans h.below' (Nat.le_add_right _ _)
      globals := (κ.stack.below_extend extra 0 h.below).trans h.globals
      globals' := (κ'.stack.below_extend extra 0 h.below').trans h.globals' }
  pushFrame κ κ' h := { h with }

structure Afoot (m : Pact σ) (G : List (Slot α)) (δ : Nat) (s s' : Session σ α) : Prop extends
    m.Holds s s' where
  ground : Control.Grounded G δ s.control s'.control

namespace Afoot

variable {m : Pact σ} {G : List (Slot α)} {δ : Nat}

theorem kept {same : β → γ → Prop} {x : Action σ α β} {y : Action σ α γ}
    (hx : Action.Keeps x) (hy : Action.Keeps y)
    (h : Leads m.parting (Afoot m G δ) m.Holds same x y) :
    InStep m.parting (Afoot m G δ) same x y := by
  intro s s' hs
  refine ((h s s' hs).and_ends (hx s) (hy s')).weaken (.refl _) ?_ fun _ _ => id
  rintro t t' ⟨holds, left, right⟩
  refine ⟨holds, ?_⟩
  rw [left, right]
  exact hs.ground

theorem fail {same : β → γ → Prop} {Q : Session σ α → Session σ α → Prop} {e : Stop}
    (he : m.admits e) : Leads m.parting (Afoot m G δ) Q same
      (Attempt.fail e : Action σ α β) (Attempt.fail e : Action σ α γ) :=
  Pact.fail_leads he fun _ _ h => h.toHolds

theorem deeper {s s' : Session σ α} (h : Afoot m G δ s s') :
    Afoot m G (δ + 1) { s with depth := s.depth + 1 } { s' with depth := s'.depth + 1 } where
  level level := congrArg (fun κ : Control α => { κ with depth := κ.depth + 1 }) (h.level level)
  cargo := h.cargo
  ground := { h.ground with
    depth := congrArg (· + 1) h.ground.depth
    depth' := congrArg (· + 1) h.ground.depth' }

/-- A rule that begins sees the globals. -/
theorem atRule {s s' : Session σ α} (h : Afoot m G δ s s') :
    AtBody m (.rule G δ) G { s with view := .rule s.stack.height (some s.globalsEnd) }
      { s' with view := .rule s'.stack.height (some s'.globalsEnd) } where
  toHolds := h.toHolds.view fun level =>
    congrArg (fun κ : Control α => View.rule κ.stack.height (some κ.globalsEnd)) (h.level level)
  visible := (s.stack.visible_rule h.ground.below).trans h.ground.globals
  visible' := (s'.stack.visible_rule h.ground.below').trans h.ground.globals'
  view := .rule (Nat.le_refl _) h.ground.below
  view' := .rule (Nat.le_refl _) h.ground.below'
  ground := { h.ground with }

end Afoot

theorem Reading.afoot {m : Pact σ} {G : List (Slot α)} {δ : Nat}
    {shown : Scope → List (Slot α) → Prop} {scope : Scope} {s s' : Session σ α}
    (h : Reading m (.rule G δ) shown scope s s') : Afoot m G δ s s' := by
  obtain ⟨V, -, hs⟩ := h
  exact ⟨hs.toHolds, hs.ground⟩

/-! ### Paths -/

theorem AtBody.opening [Scalar α] {m : Pact σ} {G V : List (Slot α)} {δ : Nat}
    {s s' : Session σ α} (h : AtBody m (.rule G δ) V s s') :
    AtBody m (.rule G δ) V s.opening s'.opening where
  level level := congrArg
    (fun κ : Control α => { κ with opened := some (κ.stack.frameRef, none, false) })
    (h.level level)
  cargo := { h.cargo with building := rfl }
  visible := h.visible
  visible' := h.visible'
  view := h.view
  view' := h.view'
  ground := { h.ground with }

theorem Pact.Holds.shallower {m : Pact σ} {s s' : Session σ α} (h : m.Holds s s') :
    m.Holds { s with depth := s.depth - 1 } { s' with depth := s'.depth - 1 } :=
  h.map (fun s => { s with depth := s.depth - 1 }) (fun s => { s with depth := s.depth - 1 })
    (fun _ same => congrArg (fun κ : Control α => { κ with depth := κ.depth - 1 }) same) rfl rfl

theorem Pact.Holds.closing {m : Pact σ} {s s' : Session σ α} (h : m.Holds s s') :
    m.Holds { s with building := none } { s' with building := none } where
  level level := congrArg (fun κ : Control α => { κ with opened := none }) (h.level level)
  cargo := { h.cargo with building := rfl }

variable [Scalar α]

/-- Paths finished on both sides are twins. -/
theorem Path.Compiled.Twin.finished {old : Nat → Prop} {p p' : Path.Compiled α} {f f' : FrameRef}
    (erased : p.erased = p'.erased) (frame : p.frame = f) (frame' : p'.frame = f')
    (session : f.session = f'.session) {uid : Nat} (same : old uid → f = f') :
    Twin old { p.sealed with uid := some uid } { p'.sealed with uid := some uid } where
  same := ⟨sealed_alike erased, rfl⟩
  session := by
    simp only [sealed_frame, frame, frame', session]
  frame known := by
    simp only [sealed_frame, frame, frame', same (known uid rfl)]

/-- Two builds of one rule come to the same path, if at all. -/
theorem Context.buildPath_atBody {m : Pact σ} {G V : List (Slot α)} {δ : Nat} (rule : Rule α)
    {body body' : Entering σ α} {params : List (Value α)}
    (keeps : Action.Keeps (body (.root rule.shape) false params))
    (keeps' : Action.Keeps (body' (.root rule.shape) false params))
    (h : Leads m.parting (AtBody m (.rule G δ) V) m.Holds Eq
      (body (.root rule.shape) false params) (body' (.root rule.shape) false params)) :
    Leads m.parting (AtBody m (.rule G δ) V) m.Holds (Path.Compiled.Twin m.old)
      (buildPath rule body params) (buildPath rule body' params) := by
  intro s s' hs
  have same := hs.cargo.building
  simp only [Session.cargo] at same
  cases hb : s.building with
  | some p =>
    have some' : s'.building.isSome := by
      rw [hb] at same
      obtain ⟨p', hp', -⟩ := Option.map_eq_some_iff.mp same.symm
      simp [hp']
    rw [buildPath_nested rule _ params (by simp [hb]), buildPath_nested rule _ params some']
    exact .together ⟨rfl, m.usual _ (.broken _), hs.toHolds⟩
  | none =>
    have none' : s'.building = none := by
      rw [hb] at same
      exact Option.map_eq_none_iff.mp same.symm
    refine buildPath_meets rule keeps keeps' hb none' (h _ _ hs.opening) ?_
      (fun _ _ _ _ parted => ⟨parted.1, parted.2.1, parted.2.2.closing⟩) fun _ => id
    intro t t' p p' ht hp hp' frame frame'
    have erased : p.erased = p'.erased := by
      have building := ht.cargo.building
      simpa [Session.cargo, hp, hp'] using building
    have uid : t.store.nextUid = t'.store.nextUid := ht.cargo.nextUid
    have stack : m.old t.store.nextUid → s.stack.frameRef = s'.stack.frameRef := fun old =>
      congrArg (fun κ : Control α => κ.stack.frameRef)
        (hs.level (ht.cargo.fresh _ (Nat.le_refl _) old))
    refine ⟨?_, ht.closing.level, { ht.closing.cargo with
      nextUid := congrArg (· + 1) uid
      fresh := fun later hl => ht.cargo.fresh later (Nat.le_of_succ_le hl) }⟩
    rw [← uid]
    exact .finished erased frame frame' hs.ground.session stack

/-! ### Shapes -/

def Path.Compiled.Twins (old : Nat → Prop) : PathRel α := fun uid p uid' p' =>
  uid = uid' ∧ p.Twin old p'

/-- Two guided expansions of one grammar whose rules are fit to be read in the
scope of the globals. -/
structure Ensemble (m : Pact σ) (g : Grammar α) (r : Renderer σ α)
    (shown : Scope → List (Slot α) → Prop) (fit : Scope → Statement α → Prop) (globals : Scope)
    (c c' : Guided σ α) : Prop extends Tuned m shown fit c c' where
  grammar : ∀ scope, (c scope).grammar = g
  grammar' : ∀ scope, (c' scope).grammar = g
  renderer : ∀ scope, (c scope).renderer = r
  renderer' : ∀ scope, (c' scope).renderer = r
  respects : r.Respects (Path.Compiled.Twins m.old) m.like
  fits : ∀ shape ∈ g.shapes, ∀ rule ∈ shape.rules, ∀ p ∈ rule.body.placed globals false, fit p.1 p.2

namespace Ensemble

variable {m : Pact σ} {g : Grammar α} {r : Renderer σ α} {shown : Scope → List (Slot α) → Prop}
  {fit : Scope → Statement α → Prop} {globals : Scope} {c c' : Guided σ α} {G : List (Slot α)}
  {δ : Nat}

omit [Scalar α] in
/-- The renderer gives one answer, and lets a shape be expanded only if it could. -/
theorem consult (h : Ensemble m g r shown fit globals c c') (scope : Scope) (i : Instance α) :
    InStep m.parting (Afoot m G δ)
      (fun drawn drawn' =>
        drawn = drawn' ∧ (drawn = true → ∃ ρ, (r.cutoff i (δ + 1) ρ).1 = .expand))
      ((c scope).consult i) ((c' scope).consult i) := by
  refine Afoot.kept ((c scope).keeps_consult i) ((c' scope).keeps_consult i) fun s s' hs => ?_
  have asked : r.cutoff i (s.depth + 1) s.renderer = r.cutoff i (δ + 1) s.renderer :=
    congrArg (fun depth => r.cutoff i (depth + 1) s.renderer) hs.ground.depth
  have asked' : r.cutoff i (s'.depth + 1) s'.renderer = r.cutoff i (δ + 1) s'.renderer :=
    congrArg (fun depth => r.cutoff i (depth + 1) s'.renderer) hs.ground.depth'
  obtain ⟨verdict, next⟩ := h.respects.cutoff i (δ + 1) _ _ hs.cargo.renderer
  simp only [Session.cargo] at verdict next
  simp only [Context.consult, h.renderer, h.renderer', asked, asked']
  have allowed : (r.cutoff i (δ + 1) s.renderer).1 = .expand →
      ∃ ρ, (r.cutoff i (δ + 1) ρ).1 = .expand :=
    fun expands => ⟨_, expands⟩
  generalize r.cutoff i (δ + 1) s.renderer = answer at verdict next allowed ⊢
  generalize r.cutoff i (δ + 1) s'.renderer = answer' at verdict next ⊢
  obtain ⟨v, ρ⟩ := answer
  obtain ⟨v', ρ'⟩ := answer'
  cases verdict
  have holds : m.Holds { s with renderer := ρ } { s' with renderer := ρ' } :=
    ⟨hs.level, { hs.cargo with renderer := next }⟩
  cases v with
  | expand => exact .ok ⟨rfl, fun _ => allowed rfl⟩ holds
  | skip => exact .ok ⟨rfl, by simp⟩ holds
  | abort => exact .together ⟨rfl, m.usual _ .aborted, holds⟩

/-- Replacements go in step if shapes are expanded in step. -/
theorem concert (h : Ensemble m g r shown fit globals c c')
    (expand : ∀ scope i,
      InStep m.parting (Afoot m G δ) Eq ((c scope).expand i) ((c' scope).expand i)) :
    Concert m (.rule G δ) shown fit c c' where
  toTuned := h.toTuned
  replace scope head parent hf := by
    have asked : Env.Answers m.parting (Reading m (.rule G δ) shown scope) (· ∈ head.uses)
        (c scope).env (c' scope).env :=
      Reading.answers (h.keeps scope).env (h.keeps' scope).env fun V hV => h.env scope V _ hf hV
    refine Context.replace_inStep asked head (fun u hu => by simp [Head.uses, hu])
      (fun e he u hu => List.mem_append_right _ (List.mem_flatMap.mpr ⟨e, he, hu⟩))
      ((h.grammar scope).trans (h.grammar' scope).symm)
      (fun _ _ _ _ hs => ⟨rfl, m.usual _ (.grammar _), hs.holds⟩) ?_ ?_ parent
    · intro p _ i
      have primitive : Leads m.parting (Afoot m G δ) m.Holds Eq
          (do if ← (c scope).consult i then Attempt.update fun s => { s with
            renderer := (c scope).renderer.drawPrimitive i p s.renderer })
          (do if ← (c' scope).consult i then Attempt.update fun s => { s with
            renderer := (c' scope).renderer.drawPrimitive i p s.renderer }) := by
        refine Leads.bind (h.consult scope i) ?_
        rintro drawn _ ⟨rfl, -⟩
        split
        · refine Leads.update fun s s' hs => ?_
          rw [h.renderer, h.renderer']
          exact ⟨hs.level, { hs.cargo with
            renderer := h.respects.primitive i p _ _ hs.cargo.renderer }⟩
        · exact fun _ _ hs => .ok rfl hs.toHolds
      have keeps : ∀ d : Context σ α, Action.Keeps (do if ← d.consult i then
          Attempt.update fun s =>
            { s with renderer := d.renderer.drawPrimitive i p s.renderer }) := by
        refine fun d => (d.keeps_consult i).bind fun drawn => ?_
        split
        · exact Action.keeps_update fun _ => rfl
        · exact Action.keeps_pure ()
      exact Reading.kept (keeps _) (keeps _) fun s s' hs => primitive s s' hs.afoot
    · intro index shape _ _ i _ _
      refine Reading.kept ((h.keeps scope).expand i) ((h.keeps' scope).expand i) fun s s' hs => ?_
      exact (expand scope i s s' hs.afoot).weaken (.refl _) (fun _ _ later => later.toHolds)
        fun _ _ => id

theorem drawCommands (h : Ensemble m g r shown fit globals c c') (scope : Scope) (i : Instance α)
    (uid : Nat) {p p' : Path.Compiled α} (twin : p.Twin m.old p')
    (commands : List (Path.Command α)) :
    InStep m.parting m.Holds Eq ((c scope).drawCommands i uid p commands)
      ((c' scope).drawCommands i uid p' commands) := by
  rw [Context.drawCommands_eq, Context.drawCommands_eq, h.renderer, h.renderer']
  refine Leads.update fun s s' hs => ⟨hs.level, { hs.cargo with renderer := ?_ }⟩
  exact Renderer.drawAll_rel (fun command _ _ => h.respects.path _ uid uid p p' command _ _
    ⟨rfl, twin⟩) commands hs.cargo.renderer

/-- A static rule takes its path from the store, or builds and keeps it. -/
theorem keptPath (h : Ensemble m g r shown fit globals c c') (scope : Scope) {rule : Rule α}
    {body body' : Entering σ α} {params : List (Value α)}
    (build : Leads m.parting (AtBody m (.rule G δ) G) m.Holds (Path.Compiled.Twin m.old)
      (Context.buildPath rule body params) (Context.buildPath rule body' params)) :
    Leads m.parting (AtBody m (.rule G δ) G) m.Holds (Path.Compiled.Twin m.old)
      ((c scope).keptPath rule body params) ((c' scope).keptPath rule body' params) := by
  unfold Context.keptPath
  rw [← h.strategy scope]
  split
  · exact build
  case h_2 place _ =>
    refine Leads.bind Leads.state fun s s' hs => ?_
    have found := lookup_rel hs.cargo.paths place
    simp only [Session.cargo] at found
    generalize s.store.paths.lookup place = o at found ⊢
    generalize s'.store.paths.lookup place = o' at found ⊢
    cases found with
    | some twin => exact fun _ _ ht => .ok twin ht.toHolds
    | none =>
      refine Leads.bind build fun p p' twin => ?_
      refine Leads.andThen (Q := m.Holds) (Leads.update fun t t' ht => ?_) fun _ => Leads.pure twin
      exact ⟨ht.level, { ht.cargo with paths := .cons ⟨rfl, twin⟩ ht.cargo.paths }⟩

theorem rule (h : Ensemble m g r shown fit globals c c')
    (concert : Concert m (.rule G δ) shown fit c c')
    (hG : shown globals G) {shape : Shape α} (hshape : shape ∈ g.shapes) {rule : Rule α}
    (hrule : rule ∈ shape.rules) (i : Instance α) :
    InStep m.parting (Afoot m G δ) Eq
      ((c globals).rule shape rule (c.enterBody globals false rule.body) i)
      ((c' globals).rule shape rule (c'.enterBody globals false rule.body) i) := by
  refine Afoot.kept (Context.keeps_rule _ shape rule (h.keeps.enterBody globals false rule.body) i)
    (Context.keeps_rule _ shape rule (h.keeps'.enterBody globals false rule.body) i) ?_
  intro s s' hs
  have body : ∀ parent follows seed, Leads m.parting (AtBody m (.rule G δ) G) m.Holds Eq
      (c.enterBody globals false rule.body parent follows seed)
      (c'.enterBody globals false rule.body parent follows seed) := fun parent follows seed =>
    concert.enterBody (h.fits shape hshape rule hrule) parent follows seed hG
  refine Pact.underView hs.toHolds ?_
  have inside : Leads m.parting (AtBody m (.rule G δ) G) m.Holds Eq
      (if shape.isPath then (c globals).pathRule rule (c.enterBody globals false rule.body) i
        else c.enterBody globals false rule.body i true i.params)
      (if shape.isPath then (c' globals).pathRule rule (c'.enterBody globals false rule.body) i
        else c'.enterBody globals false rule.body i true i.params) := by
    split
    · have build := Context.buildPath_atBody rule (h.keeps.enterBody _ _ _ _ _ _)
        (h.keeps'.enterBody _ _ _ _ _ _) (body (.root rule.shape) false i.params)
      refine Leads.bind (h.keptPath globals build) fun p p' twin => ?_
      unfold Path.Compiled.identity
      rw [← twin.same.2, ← p.allCommands_erased, ← p'.allCommands_erased, twin.same.1]
      cases p.uid with
      | none => exact Pact.fail_leads (m.usual _ (.broken _)) fun _ _ => id
      | some uid => exact h.drawCommands globals i uid twin _
    · exact body i true i.params
  exact inside _ _ hs.atRule

theorem selectRule (shape : Shape α) :
    InStep m.parting (Afoot m G δ) (fun rule rule' => rule = rule' ∧ rule ∈ shape.rules)
      (Context.selectRule shape : Action σ α (Rule α)) (Context.selectRule shape) := by
  unfold Context.selectRule
  split
  · exact Afoot.fail (m.usual _ (.grammar _))
  case h_2 only single => exact Leads.pure ⟨rfl, by simp [single]⟩
  · refine Leads.bind Leads.state fun s s' hs => ?_
    have random : s.random = s'.random := hs.cargo.random
    simp only [random]
    refine Leads.andThen (Q := Afoot m G δ) (Leads.update fun t t' ht => ?_) fun _ => ?_
    · exact ⟨⟨ht.level, { ht.cargo with random := rfl }⟩, ht.ground⟩
    · split
      case h_1 rule found =>
        obtain ⟨j, -, hj⟩ := Option.bind_eq_some_iff.mp found
        exact Leads.pure ⟨rfl, List.mem_of_getElem? hj⟩
      case h_2 => exact Afoot.fail (m.usual _ (.broken _))

/-- A shape is expanded in step if, wherever the renderer may let it, shapes are
expanded in step one level deeper. -/
theorem expandShape (h : Ensemble m g r shown fit globals c c') (hG : shown globals G)
    (expand : (∃ i ρ, (r.cutoff i (δ + 1) ρ).1 = .expand) → ∀ scope i,
      InStep m.parting (Afoot m G (δ + 1)) Eq ((c scope).expand i) ((c' scope).expand i))
    (i : Instance α) :
    InStep m.parting (Afoot m G δ) Eq (c.expandShape globals i) (c'.expandShape globals i) := by
  refine Afoot.kept (h.keeps.expandShape globals i) (h.keeps'.expandShape globals i) ?_
  unfold Guided.expandShape
  split
  · exact Afoot.fail (m.usual _ (.broken _))
  · rw [h.grammar, h.grammar']
    split
    · exact Afoot.fail (m.usual _ (.broken _))
    case h_2 shape found =>
      refine Leads.bind (h.consult globals i) ?_
      rintro drawn _ ⟨rfl, allowed⟩
      split
      case isFalse => exact fun _ _ hs => .ok rfl hs.toHolds
      case isTrue expands =>
        obtain ⟨ρ, answer⟩ := allowed expands
        have concert := h.concert (expand ⟨i, ρ, answer⟩)
        have chosen : Leads m.parting (Afoot m G (δ + 1)) (Afoot m G (δ + 1)) Eq
            (Context.selectRule shape >>= fun rule =>
              (c globals).rule shape rule (c.enterBody globals false rule.body) i)
            (Context.selectRule shape >>= fun rule =>
              (c' globals).rule shape rule (c'.enterBody globals false rule.body) i) := by
          refine Leads.bind (selectRule shape) ?_
          rintro rule _ ⟨rfl, hrule⟩
          exact h.rule concert hG (List.mem_of_getElem? found) hrule i
        refine Leads.wrap chosen (Action.wraps_deeper _) (Action.wraps_deeper _)
          (fun _ _ hs => hs.deeper) (fun _ _ _ _ _ ht => ht.toHolds.shallower)
          (fun _ _ _ _ _ _ _ parted => ⟨parted.1, parted.2.1, parted.2.2.shallower⟩) fun _ => id

end Ensemble

end ShapeGrammar
