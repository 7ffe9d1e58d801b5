import ShapeGrammar.Proofs.Restoration

/-!
# Taking notes of a run

A run may leave a note with its renderer whenever it has taken a rule. A run
without notes is one whose notes change nothing.
-/

set_option autoImplicit false

namespace ShapeGrammar

variable {σ α : Type} [Scalar α]

def Context.expandNoting (c : Context σ α) (note : Rule α → σ → σ) (i : Instance α) :
    Action σ α Unit :=
  match i.shape with
  | none => Action.broken .noShape
  | some index =>
    match c.grammar.shapes[index]? with
    | none => Action.broken (.missingShape index)
    | some shape => do
      if ← c.consult i then
        Action.deeper do
          let rule ← selectRule shape
          Attempt.update fun s => { s with renderer := note rule s.renderer }
          c.rule shape rule (c.enterBody rule.body) i

namespace Setting

variable (t : Setting σ α) (note : Rule α → σ → σ)

def expandNoting : Nat → Instance α → Action σ α Unit
  | 0, _ => Attempt.fail .outOfFuel
  | fuel + 1, i => (t.contextAt fuel (expandNoting fuel)).expandNoting note i

def runFromNoting (fuel : Nat) (start : Shape α) : Action σ α Unit := do
  let root : Instance α := .root start.index
  (t.contextAt fuel (t.expandNoting note fuel)).runAll t.grammar.globals.statements root true
  let s ← Attempt.state
  if s.stack.frameSize ≠ t.grammar.globals.slots then Action.broken .globalFrame
  else
    Attempt.update fun s => { s with globalsEnd := s.stack.height }
    t.expandNoting note fuel root

def runNoting (fuel : Nat) (start : Nat) : Action σ α Unit :=
  match t.grammar.shapes[start]? with
  | none => Action.problem .none (.noSuchShape start)
  | some shape =>
    if shape.params.length ≠ 0 then
      Action.problem .none (.startArguments shape.name shape.params.length)
    else do
      Attempt.update fun s => { s with random := t.startRandom shape.name, view := .full }
      Action.inFrame (t.runFromNoting note fuel shape)

theorem expandNoting_id (fuel : Nat) : t.expandNoting (fun _ => id) fuel = t.expand fuel := by
  induction fuel with
  | zero => rfl
  | succ fuel ih =>
    funext i
    rw [expandNoting, ih, expand]
    rfl

theorem runFromNoting_id (fuel : Nat) :
    t.runFromNoting (fun _ => id) fuel = t.runFrom fuel := by
  funext start
  unfold runFromNoting runFrom
  rw [expandNoting_id]

theorem runNoting_id (fuel start : Nat) :
    t.runNoting (fun _ => id) fuel start = t.run fuel start := by
  unfold runNoting
  rw [runFromNoting_id]
  rfl

end Setting

theorem Context.Keeps.expandNoting {c : Context σ α} (h : c.Keeps) (note : Rule α → σ → σ)
    (i : Instance α) : Action.Keeps (c.expandNoting note i) := by
  unfold Context.expandNoting
  split
  · exact Action.keeps_fail nofun
  · split
    · exact Action.keeps_fail nofun
    · refine (c.keeps_consult i).bind fun drawn => ?_
      split
      · refine Action.keeps_deeper ((Context.keeps_selectRule _).bind fun rule => ?_)
        refine Action.Keeps.bind (Action.keeps_update fun _ => rfl) fun _ => ?_
        exact Context.keeps_rule c _ rule (h.enterBody rule.body) i
      · exact Action.keeps_pure ()

namespace Setting

variable {t : Setting σ α} (ht : ∀ n, (t.environment n).Keeps) (note : Rule α → σ → σ)

include ht

theorem expandNoting_keeps (fuel : Nat) (i : Instance α) :
    Action.Keeps (t.expandNoting note fuel i) := by
  induction fuel generalizing i with
  | zero => exact Action.keeps_fail nofun
  | succ fuel ih => exact Context.Keeps.expandNoting ⟨ht fuel, ih⟩ note i

theorem runFromNoting_stack (fuel : Nat) (start : Shape α) (s : Session σ α) :
    ∃ extra, ((t.runFromNoting note fuel start).run s).state.stack = s.stack.extend extra := by
  have keeps : (t.contextAt fuel (t.expandNoting note fuel)).Keeps :=
    ⟨ht fuel, expandNoting_keeps ht note fuel⟩
  exact Action.stack_of_ends (Action.ends_based
    (keeps.runAll t.grammar.globals.statements (.root start.index) true)
    (expandNoting_keeps ht note fuel _) _ s)

end Setting

end ShapeGrammar
