import ShapeGrammar.Proofs.Noting
import ShapeGrammar.Proofs.Rendering
import ShapeGrammar.Proofs.SameStack.Evaluation

/-!
# Expansion on the same stack

Two expansions have the same slots, frames and view, and find the same in their
stores. Their instances may stand in different places, so that what they draw on
an open path may differ, and each has a renderer and notes of its own. As long as
the renderers give the same answers, the two go the same way.
-/

set_option autoImplicit false

namespace ShapeGrammar

open Attempt

variable {σ σ' α β : Type}

/-- Paths of one identity that share their geometry and commands, and their handles
where these are `numbered` alike. -/
structure Path.Compiled.Kin (numbered : Prop) (p p' : Path.Compiled α) : Prop where
  drawn : p.erased = p'.erased
  uid : p.uid = p'.uid
  frame : numbered → p.frame = p'.frame

theorem Path.Compiled.Kin.refl (numbered : Prop) (p : Path.Compiled α) : Kin numbered p p :=
  ⟨rfl, rfl, fun _ => rfl⟩

theorem Path.Compiled.Kin.eq {numbered : Prop} (yes : numbered) {p p' : Path.Compiled α}
    (h : Kin numbered p p') : p = p' :=
  eq_of_erased h.drawn h.uid (h.frame yes)

/-- What leaves handle and identity alone, and does not look at them, keeps paths
akin. -/
theorem Path.Compiled.Kin.both {numbered : Prop}
    {f : Path.Compiled α → Except Broken (Path.Compiled α)}
    (hf : ∀ p, f p.erased = (f p).map erased)
    (keeps : ∀ p q, f p = .ok q → q.uid = p.uid ∧ q.frame = p.frame) {p p' : Path.Compiled α}
    (h : Kin numbered p p') : Both (Kin numbered) (f p) (f p') := by
  have both := both_erased hf h.drawn
  generalize hq : f p = o at both
  generalize hq' : f p' = o' at both
  cases both with
  | error what => exact .error what
  | ok done =>
    obtain ⟨uid, frame⟩ := keeps p _ hq
    obtain ⟨uid', frame'⟩ := keeps p' _ hq'
    exact .ok ⟨done, by rw [uid, uid', h.uid], fun yes => by rw [frame, frame', h.frame yes]⟩

/-- From like states the renderers give one answer and go to like states, for
related instances and for paths that are akin. -/
structure Renderer.Concurs (r : Renderer σ α) (r' : Renderer σ' α) (numbered : Prop)
    (R : Instance α → Instance α → Prop) (like : σ → σ' → Prop) : Prop where
  cutoff : ∀ i i' depth s s', R i i' → like s s' →
    (r.cutoff i depth s).1 = (r'.cutoff i' depth s').1 ∧
      like (r.cutoff i depth s).2 (r'.cutoff i' depth s').2
  primitive : ∀ i i' p s s', R i i' → like s s' →
    like (r.drawPrimitive i p s) (r'.drawPrimitive i' p s')
  path : ∀ i i' uid p p' command s s', R i i' → Path.Compiled.Kin numbered p p' → like s s' →
    like (r.drawPath i uid p command s) (r'.drawPath i' uid p' command s')

/-! ### Sessions -/

/-- The rest of two sessions that are in parallel. Until they are `late`, where
their globals end does not matter. -/
structure Aligned (numbered : Prop) (B : Path.Compiled α → Path.Compiled α → Prop)
    (like : σ → σ' → Prop) (late : Prop) (s : Session σ α) (s' : Session σ' α) : Prop where
  values : s.store.values = s'.store.values
  paths : List.Forall₂ (fun e e' => e.1 = e'.1 ∧ Path.Compiled.Kin numbered e.2 e'.2)
    s.store.paths s'.store.paths
  nextUid : s.store.nextUid = s'.store.nextUid
  sessions : numbered → s.store.sessions = s'.store.sessions
  renderer : like s.renderer s'.renderer
  globalsEnd : late → s.globalsEnd = s'.globalsEnd
  depth : s.depth = s'.depth
  building : Option.Rel B s.building s'.building

namespace Aligned

variable {numbered : Prop} {B : Path.Compiled α → Path.Compiled α → Prop} {like : σ → σ' → Prop}
  {late : Prop}

theorem steady : Steady (Aligned numbered B like late : Session σ α → Session σ' α → Prop) :=
  fun h _ _ _ _ _ _ => { h with }

theorem ever {s : Session σ α} {s' : Session σ' α}
    (h : Twins numbered (Aligned numbered B like True) s s') :
    Twins numbered (Aligned numbered B like late) s s' :=
  { h with rest := { h.rest with globalsEnd := fun _ => h.rest.globalsEnd trivial } }

abbrev parting (numbered : Prop) (B : Path.Compiled α → Path.Compiled α → Prop)
    (like : σ → σ' → Prop) (late : Prop) : Parting Stop Stop (Session σ α) (Session σ' α) :=
  Twins.parting numbered (Aligned numbered B like late) fun _ => False

abbrev Moves (numbered : Prop) (B : Path.Compiled α → Path.Compiled α → Prop)
    (like : σ → σ' → Prop) (late : Prop) (x : Action σ α β) (y : Action σ' α β) : Prop :=
  Twins.Level numbered (Aligned numbered B like late) (fun _ => False) x y

theorem moves_deeper {x : Action σ α β} {y : Action σ' α β} (h : Moves numbered B like late x y) :
    Moves numbered B like late (Action.deeper x) (Action.deeper y) := by
  refine Leads.wrap h (Action.wraps_deeper x) (Action.wraps_deeper y) ?_ ?_ ?_ fun _ => id
  · exact fun _ _ hs => { hs with
      rest := { hs.rest with depth := congrArg (· + 1) hs.rest.depth } }
  · exact fun _ _ _ _ _ ht => { ht with
      rest := { ht.rest with depth := congrArg (· - 1) ht.rest.depth } }
  · exact fun _ _ _ _ _ _ _ parted => ⟨parted.1, { parted.2 with
      rest := { parted.2.rest with depth := congrArg (· - 1) parted.2.rest.depth } }⟩

theorem moves_checkSlots (declared : Nat) :
    Moves numbered B like late (checkSlots declared : Action σ α Unit)
      (checkSlots declared : Action σ' α Unit) := by
  refine Twins.level_of_state fun s s' hs => ?_
  simp only [hs.frameSize]
  split
  · exact Twins.level_fail _
  · exact Leads.pure rfl

theorem moves_consult {c : Context σ α} {c' : Context σ' α} {R : Instance α → Instance α → Prop}
    (h : c.renderer.Concurs c'.renderer numbered R like) {i i' : Instance α} (hi : R i i') :
    Moves numbered B like late (c.consult i) (c'.consult i') := by
  intro s s' hs
  obtain ⟨verdict, next⟩ := h.cutoff i i' (s.depth + 1) _ _ hi hs.rest.renderer
  rw [hs.rest.depth] at verdict next
  simp only [Context.consult, hs.rest.depth]
  generalize c.renderer.cutoff i (s'.depth + 1) s.renderer = answer at verdict next ⊢
  generalize c'.renderer.cutoff i' (s'.depth + 1) s'.renderer = answer' at verdict next ⊢
  obtain ⟨v, r⟩ := answer
  obtain ⟨v', r'⟩ := answer'
  cases verdict
  cases v with
  | expand => exact .ok rfl { hs with rest := { hs.rest with depth := rfl, renderer := next } }
  | skip => exact .ok rfl { hs with rest := { hs.rest with depth := rfl, renderer := next } }
  | abort =>
    exact .together ⟨rfl, { hs with rest := { hs.rest with depth := rfl, renderer := next } }⟩

theorem moves_buildWith (what : String)
    {f f' : Path.Compiled α → Except Broken (Path.Compiled α)}
    (hf : ∀ p p', B p p' → Path.Compiled.Both B (f p) (f' p')) :
    Moves numbered B like late (Context.buildWith what f : Action σ α Unit)
      (Context.buildWith what f' : Action σ' α Unit) :=
  Context.buildWith_across what hf (fun _ _ hs => hs.rest.building)
    (fun _ _ _ _ _ _ hs _ _ _ _ done =>
      { hs with rest := { hs.rest with building := .some done } })
    fun _ _ _ hs => ⟨rfl, hs⟩

end Aligned

variable [Scalar α]

/-- How instances are related, and open paths that are drawn on from them. -/
structure Angle (R : Instance α → Instance α → Prop)
    (B : Path.Compiled α → Path.Compiled α → Prop) : Prop where
  congruence : Instance.Congruence R
  shape : ∀ i i', R i i' → i.shape = i'.shape
  params : ∀ i i', R i i' → i.params = i'.params
  append : ∀ i i' op flags isCubic args p p', R i i' → B p p' →
    Path.Compiled.Both B (p.append op flags isCubic args i.transform)
      (p'.append op flags isCubic args i'.transform)
  command : ∀ command p p', B p p' →
    Path.Compiled.Both B (p.addCommand command) (p'.addCommand command)

theorem Path.Compiled.append_keeps {p q : Path.Compiled α} {op : Path.Operator} {flags : Path.Flags}
    {isCubic : Bool} {args : Path.Args α} {m : Affine α}
    (built : p.append op flags isCubic args m = .ok q) : q.uid = p.uid ∧ q.frame = p.frame := by
  unfold append ready at built
  split at built
  · cases built
  · split at built <;> cases built <;> exact ⟨rfl, rfl⟩

omit [Scalar α] in
theorem Path.Compiled.addCommand_keeps {p q : Path.Compiled α} {command : Path.Command α}
    (built : p.addCommand command = .ok q) : q.uid = p.uid ∧ q.frame = p.frame := by
  unfold addCommand at built
  split at built
  · cases built
  · cases built
    exact ⟨rfl, rfl⟩

theorem Angle.straight (numbered : Prop) : Angle (α := α) Eq (Path.Compiled.Kin numbered) where
  congruence := .eq
  shape _ _ same := same ▸ rfl
  params _ _ same := same ▸ rfl
  append i i' op flags isCubic args p p' same kin := by
    cases same
    exact kin.both (f := (·.append op flags isCubic args i.transform))
      (fun p => p.append_erased op flags isCubic args i.transform)
      fun _ _ => Path.Compiled.append_keeps
  command command p p' kin :=
    kin.both (f := (·.addCommand command)) (fun p => p.addCommand_erased command)
      fun _ _ => Path.Compiled.addCommand_keeps

structure Context.Parallel (numbered : Prop) (R : Instance α → Instance α → Prop)
    (B : Path.Compiled α → Path.Compiled α → Prop) (like : σ → σ' → Prop) (c : Context σ α)
    (c' : Context σ' α) : Prop where
  keeps : c.Keeps
  keeps' : c'.Keeps
  grammar : c.grammar = c'.grammar
  strategy : c.strategy = c'.strategy
  angle : Angle R B
  renderer : c.renderer.Concurs c'.renderer numbered R like
  env : ∀ B late, Env.InStep (Aligned.parting numbered B like late)
    (Twins numbered (Aligned numbered B like late)) True (fun _ => true) c.env c'.env
  expand : ∀ i i', R i i' → Aligned.Moves numbered B like True (c.expand i) (c'.expand i')

namespace Context.Parallel

open Aligned

variable {numbered : Prop} {R : Instance α → Instance α → Prop}
  {B : Path.Compiled α → Path.Compiled α → Prop} {like : σ → σ' → Prop} {late : Prop}
  {c : Context σ α} {c' : Context σ' α}

/-! ### Statements -/

theorem keptValue (h : Parallel numbered R B like c c') (place : Address) (d : Define α)
    (span : Span) :
    Moves numbered B like late (c.keptValue place d span) (c'.keptValue place d span) := by
  refine Twins.level_of_state fun s s' hs => ?_
  rw [hs.rest.values]
  split
  · exact Leads.pure rfl
  · refine Leads.andThen ((h.env B late).evalDefine d span (.inl trivial)) fun v => ?_
    refine Leads.andThen (Leads.update fun t t' ht => ?_) fun _ => Leads.pure rfl
    exact { ht with rest := { ht.rest with values := congrArg ((place, v) :: ·) ht.rest.values } }

theorem define (h : Parallel numbered R B like c c') (head : Head α) (d : Define α) :
    Moves numbered B like late (c.define head d) (c'.define head d) := by
  unfold Context.define
  rw [h.strategy]
  split
  · exact Twins.level_bindName steady _ _ _
  · split
    · simp only
      split
      · exact Leads.andThen (h.keptValue _ d head.span) fun v => Twins.level_bindName steady _ _ _
      · exact Leads.andThen ((h.env B late).evalDefine d head.span (.inl trivial)) fun v =>
          Twins.level_bindName steady _ _ _
    · exact Twins.level_bindName steady _ _ _

theorem replace (h : Parallel numbered R B like c c') (head : Head α) {parent parent' : Instance α}
    (hp : R parent parent') :
    Moves numbered B like True (c.replace head parent) (c'.replace head parent') := by
  refine replace_across h.angle.congruence (h.env B True).free head (fun _ _ => trivial)
    (fun _ _ _ _ => trivial) h.grammar (fun _ _ _ _ hs => ⟨rfl, hs⟩) ?_
    (fun _ _ _ _ i i' hi _ _ => h.expand i i' hi) hp
  intro p _ i i' hi
  refine Leads.andThen (moves_consult h.renderer hi) fun drawn => ?_
  split
  · refine Leads.update fun s s' hs => ?_
    have drawn := h.renderer.primitive i i' p _ _ hi hs.rest.renderer
    exact { hs with rest := { hs.rest with renderer := drawn } }
  · exact Leads.pure rfl

theorem enterBody_of (h : Parallel numbered R B like c c') {b : Body α}
    (hs : ∀ st ∈ b.statements, ∀ parent parent', R parent parent' → ∀ follows,
      Moves numbered B like True (c.run st parent follows) (c'.run st parent' follows))
    {parent parent' : Instance α} (hp : R parent parent') (follows : Bool)
    (seed : List (Value α)) :
    Moves numbered B like True (c.enterBody b parent follows seed)
      (c'.enterBody b parent' follows seed) := by
  obtain ⟨statements, params, slots⟩ := b
  rw [Context.enterBody, Context.enterBody]
  split
  · exact Twins.level_fail _
  · have pushes := (Action.pushes_bindParams params seed).bind fun _ =>
      (h.keeps.runAll statements parent follows).bindKeeps fun _ => keeps_checkSlots slots
    have pushes' := (Action.pushes_bindParams params seed).bind fun _ =>
      (h.keeps'.runAll statements parent' follows).bindKeeps fun _ => keeps_checkSlots slots
    refine Twins.level_inFrame steady pushes.stack pushes'.stack ?_
    refine Leads.andThen (Twins.level_bindParams steady params seed) fun _ => ?_
    refine Leads.andThen (Context.runAll_inStep fun st hst => hs st hst _ _ hp follows) ?_
    exact fun _ => moves_checkSlots slots

theorem run (h : Parallel numbered R B like c c') (st : Statement α) :
    ∀ parent parent', R parent parent' → ∀ follows,
      Moves numbered B like True (c.run st parent follows) (c'.run st parent' follows) := by
  have own : c.strategy.ownCoordinates = c'.strategy.ownCoordinates := by rw [h.strategy]
  have reuse : c.strategy.reuse = c'.strategy.reuse := by rw [h.strategy]
  have congruence := h.angle.congruence
  have free := (h.env B True).free
  -- The instances are left general, as loops and transforms lead from one to the next on
  -- both sides.
  induction st using Statement.induct (P := fun b => ∀ parent parent', R parent parent' →
    ∀ follows seed, Moves numbered B like True (c.enterBody b parent follows seed)
      (c'.enterBody b parent' follows seed)) with
  | body b hs parent parent' hp follows seed => exact h.enterBody_of hs hp follows seed
  | replace head =>
    intro parent parent' hp follows
    rw [Context.run, Context.run]
    exact h.replace head hp
  | loop head spec body last hbody hlast =>
    intro parent parent' hp follows
    rw [Context.run, Context.run]
    refine loop_across congruence free head (fun _ _ => trivial) spec ?_ follows
      (startFrom_across congruence own _ follows hp)
      (fun i i' hi follows x => hbody i i' hi follows _)
      fun i i' hi follows x => hlast i i' hi follows _
    exact loopRange_inStep free reuse spec (fun _ _ => trivial) fun _ _ _ _ hs => ⟨rfl, hs⟩
  | transform head spec body hbody =>
    intro parent parent' hp follows
    rw [Context.run, Context.run]
    exact transform_across congruence free (fun _ _ _ _ hs ht =>
      { hs with random := ht.random, rest := { hs.rest with } })
      head (fun _ _ => trivial) spec (fun _ _ _ _ => trivial) follows
      (startFrom_across congruence own _ follows hp)
      fun i i' hi follows => hbody i i' hi follows _
  | branch head cond thenBody elseBody hthen helse =>
    intro parent parent' hp follows
    rw [Context.run, Context.run]
    exact branch_inStep free cond (fun _ _ => trivial) parent follows []
      (hthen _ _ hp _ _) (helse _ _ hp _ _)
  | switch head selector keys bodies default hbodies hdefault =>
    intro parent parent' hp follows
    rw [Context.run, Context.run]
    refine Leads.andThen (selectKey_inStep free selector fun _ _ => trivial) fun key => ?_
    refine switch_inStep keys bodies default key parent follows fun b hb => ?_
    rcases hb with rfl | hb
    · exact hdefault _ _ hp _ _
    · exact hbodies b hb _ _ hp _ _
  | define head d =>
    intro parent parent' hp follows
    rw [Context.run, Context.run]
    exact h.define head d
  | op head o =>
    intro parent parent' hp follows
    rw [Context.run, Context.run]
    exact op_across congruence o (opArgs_inStep free reuse o fun _ _ => trivial) follows hp own
      fun args i i' hi => moves_buildWith _ fun p p' open_ =>
        h.angle.append i i' _ _ _ args p p' hi open_
  | command head spec =>
    intro parent parent' hp follows
    rw [Context.run, Context.run]
    exact command_inStep free head (fun _ _ => trivial) spec (fun _ _ => trivial)
      fun command => moves_buildWith _ fun p p' open_ => h.angle.command command p p' open_

theorem enterBody (h : Parallel numbered R B like c c') (b : Body α) {parent parent' : Instance α}
    (hp : R parent parent') (follows : Bool) (seed : List (Value α)) :
    Moves numbered B like True (c.enterBody b parent follows seed)
      (c'.enterBody b parent' follows seed) :=
  h.enterBody_of (fun st _ => h.run st) hp follows seed

end Context.Parallel

/-! ### Rules -/

namespace Context

open Aligned

variable {numbered : Prop} {R : Instance α → Instance α → Prop}
  {B : Path.Compiled α → Path.Compiled α → Prop} {like : σ → σ' → Prop} {late : Prop}
  {c : Context σ α} {c' : Context σ' α}

theorem moves_selectRule (shape : Shape α) :
    Moves numbered B like late (selectRule shape : Action σ α (Rule α))
      (selectRule shape : Action σ' α (Rule α)) := by
  unfold selectRule
  split
  · exact Twins.level_fail _
  · exact Leads.pure rfl
  · refine Twins.level_of_state fun s s' hs => ?_
    simp only [hs.random]
    refine Leads.andThen (Q := Twins numbered (Aligned numbered B like late))
      (Leads.update fun t t' ht => { ht with random := rfl, rest := { ht.rest with } }) fun _ => ?_
    split
    · exact Leads.pure rfl
    · exact Twins.level_fail _

/-- A path is always built from the origin, so both sides build the same. -/
theorem Parallel.buildPath (h : Parallel numbered Eq (Path.Compiled.Kin numbered) like c c')
    (rule : Rule α) (params : List (Value α)) :
    InStep (parting numbered B like True) (Twins numbered (Aligned numbered B like True))
      (Path.Compiled.Kin numbered)
      (buildPath rule (c.enterBody rule.body) params)
      (buildPath rule (c'.enterBody rule.body) params) := by
  intro s s' hs
  have open_ := hs.rest.building
  cases hb : s.building with
  | some p =>
    have nested : s'.building.isSome := by
      rw [hb] at open_
      cases hb' : s'.building with
      | some p' => rfl
      | none =>
        rw [hb'] at open_
        cases open_
    rw [buildPath_nested rule _ params (by simp [hb]), buildPath_nested rule _ params nested]
    exact .together ⟨rfl, hs⟩
  | none =>
    have closed : s'.building = none := by
      rw [hb] at open_
      cases hb' : s'.building with
      | none => rfl
      | some p' =>
        rw [hb'] at open_
        cases open_
    refine buildPath_meets rule (h.keeps.enterBody rule.body (.root rule.shape) false params)
      (h.keeps'.enterBody rule.body (.root rule.shape) false params) hb closed
      (h.enterBody rule.body rfl false params _ _
        { hs with rest := { hs.rest with building := .some ⟨rfl, rfl, hs.frameRef⟩ } }) ?_
      (fun _ _ _ _ parted =>
        ⟨parted.1, { parted.2 with rest := { parted.2.rest with building := .none } }⟩) fun _ => id
    intro t t' p p' ht hp hp' _ _
    have kin : Path.Compiled.Kin numbered p p' := by
      have built := ht.rest.building
      rw [hp, hp'] at built
      cases built with
      | some kin => exact kin
    refine ⟨⟨Path.Compiled.sealed_alike kin.drawn, congrArg some ht.rest.nextUid, fun yes => ?_⟩,
      ?_⟩
    · exact (p.sealed_frame.trans (kin.frame yes)).trans p'.sealed_frame.symm
    · exact { ht with rest := { ht.rest with
        building := .none, nextUid := congrArg (· + 1) ht.rest.nextUid } }

theorem Parallel.keptPath (h : Parallel numbered Eq (Path.Compiled.Kin numbered) like c c')
    (rule : Rule α) (params : List (Value α)) :
    InStep (parting numbered B like True) (Twins numbered (Aligned numbered B like True))
      (Path.Compiled.Kin numbered)
      (c.keptPath rule (c.enterBody rule.body) params)
      (c'.keptPath rule (c'.enterBody rule.body) params) := by
  unfold Context.keptPath
  rw [h.strategy]
  split
  · exact h.buildPath rule params
  case h_2 place _ =>
    refine Leads.bind Leads.state fun s s' hs => ?_
    have found := lookup_rel hs.rest.paths place
    generalize s.store.paths.lookup place = o at found ⊢
    generalize s'.store.paths.lookup place = o' at found ⊢
    cases found with
    | some same => exact Leads.pure same
    | none =>
      refine Leads.bind (h.buildPath rule params) fun p p' same => ?_
      refine Leads.andThen (Leads.update fun t t' ht => ?_) fun _ => Leads.pure same
      exact { ht with rest := { ht.rest with paths := .cons ⟨rfl, same⟩ ht.rest.paths } }

theorem Parallel.drawCommands (h : Parallel numbered R B like c c') {i i' : Instance α}
    (hi : R i i') (uid : Nat) {p p' : Path.Compiled α} (kin : Path.Compiled.Kin numbered p p')
    (commands : List (Path.Command α)) :
    Moves numbered B like True (c.drawCommands i uid p commands)
      (c'.drawCommands i' uid p' commands) := by
  rw [Context.drawCommands_eq, Context.drawCommands_eq]
  refine Leads.update fun s s' hs => { hs with rest := { hs.rest with renderer := ?_ } }
  exact Renderer.drawAll_rel (fun command _ _ => h.renderer.path _ _ uid p p' command _ _
    (h.angle.congruence.apply i i' command.adjust hi) kin) commands hs.rest.renderer

theorem Parallel.pathRule (h : Parallel numbered R B like c c')
    (straight : Parallel numbered Eq (Path.Compiled.Kin numbered) like c c') (rule : Rule α)
    {i i' : Instance α} (hi : R i i') :
    Moves numbered B like True (c.pathRule rule (c.enterBody rule.body) i)
      (c'.pathRule rule (c'.enterBody rule.body) i') := by
  unfold Context.pathRule
  rw [← h.angle.params i i' hi]
  refine Leads.bind (straight.keptPath rule i.params) fun p p' kin => ?_
  unfold Path.Compiled.identity
  rw [← kin.uid, ← p.allCommands_erased, ← p'.allCommands_erased, kin.drawn]
  cases p.uid with
  | none => exact Twins.level_fail _
  | some uid => exact h.drawCommands hi uid kin _

/-- One level of two expansions, with the notes of each. -/
theorem Parallel.expandNoting (h : Parallel numbered R B like c c')
    (straight : Parallel numbered Eq (Path.Compiled.Kin numbered) like c c') {note : Rule α → σ → σ}
    {note' : Rule α → σ' → σ'}
    (noted : ∀ rule s s', like s s' → like (note rule s) (note' rule s')) {i i' : Instance α}
    (hi : R i i') :
    Moves numbered B like True (c.expandNoting note i) (c'.expandNoting note' i') := by
  unfold Context.expandNoting
  rw [← h.grammar, ← h.angle.shape i i' hi]
  split
  · exact Twins.level_fail _
  · split
    · exact Twins.level_fail _
    case h_2 shape _ =>
      refine Leads.andThen (moves_consult h.renderer hi) fun drawn => ?_
      split
      · refine moves_deeper (Leads.andThen (moves_selectRule shape) fun rule => ?_)
        refine Leads.andThen (Q := Twins numbered (Aligned numbered B like True))
          (Leads.update fun s s' hs => ?_) fun _ => ?_
        · exact { hs with rest := { hs.rest with renderer := noted rule _ _ hs.rest.renderer } }
        refine Twins.level_of_state fun s s' hs => ?_
        rw [hs.height, hs.rest.globalsEnd trivial]
        refine Twins.level_underView steady _ ?_
        split
        · exact h.pathRule straight rule hi
        · rw [← h.angle.params i i' hi]
          exact h.enterBody rule.body hi true i.params
      · exact Leads.pure rfl

end Context

/-! ### Runs -/

namespace Setting

open Aligned

variable {numbered : Prop} {R : Instance α → Instance α → Prop}
  {B : Path.Compiled α → Path.Compiled α → Prop} {like : σ → σ' → Prop} {g : Grammar α}
  {r : Renderer σ α} {r' : Renderer σ' α} {note : Rule α → σ → σ} {note' : Rule α → σ' → σ'}
  {late : Prop}

theorem standard_keeps (g : Grammar α) (r : Renderer σ α) (options : Options) (fuel : Nat) :
    ((standard g r options).environment fuel).Keeps :=
  Session.environmentAt_keeps fuel

theorem standard_grammar (g : Grammar α) (r : Renderer σ α) (options : Options) :
    (standard g r options).grammar = g :=
  rfl

theorem contextAt_parallel (options options' : Options) (angle : Angle R B)
    (concurs : r.Concurs r' numbered R like) (fuel : Nat) {expand : Instance α → Action σ α Unit}
    {expand' : Instance α → Action σ' α Unit} (keeps : ∀ i, Action.Keeps (expand i))
    (keeps' : ∀ i, Action.Keeps (expand' i))
    (moves : ∀ i i', R i i' → Moves numbered B like True (expand i) (expand' i')) :
    Context.Parallel numbered R B like ((standard g r options).contextAt fuel expand)
      ((standard g r' options').contextAt fuel expand') where
  keeps := ⟨standard_keeps g r options fuel, keeps⟩
  keeps' := ⟨standard_keeps g r' options' fuel, keeps'⟩
  grammar := rfl
  strategy := rfl
  angle := angle
  renderer := concurs
  env _ _ := Twins.environmentAt_inStep steady (Nat.le_refl fuel) (.inl rfl)
  expand := moves

theorem expandNoting_parallel (options options' : Options) (concurs : r.Concurs r' numbered Eq like)
    (noted : ∀ rule s s', like s s' → like (note rule s) (note' rule s')) (angle : Angle R B)
    (across : r.Concurs r' numbered R like) (fuel : Nat) {i i' : Instance α} (hi : R i i') :
    Moves numbered B like True ((standard g r options).expandNoting note fuel i)
      ((standard g r' options').expandNoting note' fuel i') := by
  -- A path is built from one instance, whatever instances it is drawn for.
  induction fuel generalizing R B i i' with
  | zero => exact Twins.level_fail _
  | succ fuel ih =>
    have keeps := expandNoting_keeps (standard_keeps g r options) note fuel
    have keeps' := expandNoting_keeps (standard_keeps g r' options') note' fuel
    have straight := contextAt_parallel (g := g) options options' (.straight numbered) concurs fuel
      keeps keeps' fun i i' hi => ih (.straight numbered) concurs hi
    have parallel := contextAt_parallel (g := g) options options' angle across fuel keeps keeps'
      fun i i' hi => ih angle across hi
    exact parallel.expandNoting straight noted hi

/-- Once the globals are bound, it is the same where they end. -/
theorem runFromNoting_parallel (options : Options) (concurs : r.Concurs r' numbered Eq like)
    (noted : ∀ rule s s', like s s' → like (note rule s) (note' rule s'))
    (hg : ∀ st ∈ g.globals.statements, ∃ h d, st = .define h d) (fuel : Nat) (start : Shape α) :
    Moves numbered (Path.Compiled.Kin numbered) like late
      ((standard g r options).runFromNoting note fuel start)
      ((standard g r' options).runFromNoting note' fuel start) := by
  have expand : ∀ i i', i = i' → Moves numbered (Path.Compiled.Kin numbered) like True
      ((standard g r options).expandNoting note fuel i)
      ((standard g r' options).expandNoting note' fuel i') :=
    fun _ _ => expandNoting_parallel options options concurs noted (.straight numbered) concurs fuel
  have parallel := contextAt_parallel (g := g) options options (.straight numbered) concurs fuel
    (expandNoting_keeps (standard_keeps g r options) note fuel)
    (expandNoting_keeps (standard_keeps g r' options) note' fuel) expand
  unfold runFromNoting
  rw [standard_grammar, standard_grammar]
  refine Leads.andThen (Context.runAll_inStep fun st hst => ?_) fun _ => ?_
  · obtain ⟨h, d, rfl⟩ := hg st hst
    rw [Context.run, Context.run]
    exact parallel.define h d
  refine Twins.level_of_state fun s s' hs => ?_
  simp only [hs.frameSize]
  split
  · exact Twins.level_fail _
  · refine Leads.andThen
      (Q := Twins numbered (Aligned numbered (Path.Compiled.Kin numbered) like True))
      (Leads.update fun t t' ht => ?_) fun _ => ?_
    · exact { ht with rest := { ht.rest with globalsEnd := fun _ => ht.height } }
    · refine (expand _ _ rfl).weaken ⟨?_, fun _ => id⟩ (fun _ _ => id) ?_
      · exact fun _ _ _ _ parted => ⟨parted.1, ever parted.2⟩
      · exact fun _ _ ht => ever ht

theorem inFrame_runFromNoting_parallel (options : Options) (concurs : r.Concurs r' numbered Eq like)
    (noted : ∀ rule s s', like s s' → like (note rule s) (note' rule s'))
    (hg : ∀ st ∈ g.globals.statements, ∃ h d, st = .define h d) (fuel : Nat) (start : Shape α) :
    Moves numbered (Path.Compiled.Kin numbered) like late
      (Action.inFrame ((standard g r options).runFromNoting note fuel start))
      (Action.inFrame ((standard g r' options).runFromNoting note' fuel start)) :=
  Twins.level_inFrame steady
    (runFromNoting_stack (standard_keeps g r options) note fuel start)
    (runFromNoting_stack (standard_keeps g r' options) note' fuel start)
    (runFromNoting_parallel options concurs noted hg fuel start)

theorem runNoting_parallel (options : Options) (concurs : r.Concurs r' numbered Eq like)
    (noted : ∀ rule s s', like s s' → like (note rule s) (note' rule s'))
    (hg : ∀ st ∈ g.globals.statements, ∃ h d, st = .define h d) (fuel start : Nat) :
    Moves numbered (Path.Compiled.Kin numbered) like late
      ((standard g r options).runNoting note fuel start)
      ((standard g r' options).runNoting note' fuel start) := by
  unfold runNoting
  rw [standard_grammar, standard_grammar]
  split
  · exact Twins.level_fail _
  case h_2 shape _ =>
    split
    · exact Twins.level_fail _
    · refine Leads.andThen (Q := Twins numbered (Aligned numbered (Path.Compiled.Kin numbered) like
        late)) (Leads.update fun s s' hs => ?_) fun _ => ?_
      · exact { hs with view := rfl, random := rfl, rest := { hs.rest with } }
      · exact inFrame_runFromNoting_parallel options concurs noted hg fuel shape

end Setting

end ShapeGrammar
