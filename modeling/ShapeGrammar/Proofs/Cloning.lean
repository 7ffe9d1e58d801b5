import ShapeGrammar.Proofs.SameStack.Expansion
import ShapeGrammar.Proofs.Tasks
import ShapeGrammar.Proofs.Transparency

/-!
# Replicas that are clones

The replicas of a transform that clones start from one random state. They differ in
geometry and in what the store has for them, and neither has a say in what is
drawn: a renderer that admits every instance is called alike for each of them, and
each leaves the random state the same.
-/

set_option autoImplicit false

namespace ShapeGrammar

open Attempt

variable {σ σ' α : Type} [Scalar α]

/-! ### Calls apart from geometry -/

def Instance.bare (i : Instance α) : Instance α :=
  { i with transform := .identity, z := 0, colour := .black }

/-- The call without geometry, and without the identity and the handle of a path. -/
def Call.bare : Call α → Call α
  | .cutoff i depth verdict => .cutoff i.bare depth verdict
  | .primitive i p => .primitive i.bare p
  | .path i _ p command => .path i.bare 0 p.erased command

theorem Instance.bare_eq_iff {i i' : Instance α} :
    i.bare = i'.bare ↔ i.shape = i'.shape ∧ i.params = i'.params := by
  simp [bare]

/-- The calls made on two sides since some moment are the same apart from geometry. -/
def Since (before before' : List (Call α)) (x : σ × Array (Call α)) (x' : σ' × Array (Call α)) :
    Prop :=
  ∃ made made', x.2.toList = before ++ made ∧ x'.2.toList = before' ++ made' ∧
    made.map Call.bare = made'.map Call.bare

namespace Since

variable {before before' before'' : List (Call α)} {x y : σ × Array (Call α)}
  {x' y' : σ' × Array (Call α)}

theorem refl (x : σ × Array (Call α)) (x' : σ' × Array (Call α)) :
    Since x.2.toList x'.2.toList x x' :=
  ⟨[], [], by simp, by simp, rfl⟩

theorem push (h : Since before before' x x') (call call' : Call α) (same : call.bare = call'.bare)
    (made : y.2 = x.2.push call) (made' : y'.2 = x'.2.push call') : Since before before' y y' := by
  obtain ⟨calls, calls', log, log', alike⟩ := h
  refine ⟨calls ++ [call], calls' ++ [call'], ?_, ?_, ?_⟩
  · simp [made, log]
  · simp [made', log']
  · simp [alike, same]

theorem trans {x'' : σ' × Array (Call α)} (h : Since before before' x x')
    (h' : Since before' before'' x' x'') : Since before before'' x x'' := by
  obtain ⟨calls, calls', log, log', alike⟩ := h
  obtain ⟨made, made', again, log'', alike'⟩ := h'
  have same : calls' = made := List.append_cancel_left (log'.symm.trans again)
  exact ⟨calls, made', log, log'', alike.trans (same ▸ alike')⟩

theorem made (h : Since before before' x x') {calls : List (Call α)}
    (log : x.2.toList = before ++ calls) :
    ∃ calls', x'.2.toList = before' ++ calls' ∧ calls'.map Call.bare = calls.map Call.bare := by
  obtain ⟨made, made', log', log'', alike⟩ := h
  have same : made = calls := List.append_cancel_left (log'.symm.trans log)
  exact ⟨made', log'', same ▸ alike.symm⟩

end Since

/-! ### Renderers that admit everything -/

def Renderer.Willing (r : Renderer σ α) : Prop :=
  ∀ i depth s, (r.cutoff i depth s).1 = .expand

namespace Renderer.Willing

variable {r : Renderer σ α} (willing : r.Willing) (before before' : List (Call α))

include willing

theorem cutoff {i i' : Instance α} (same : i.bare = i'.bare) (depth : Nat)
    {s s' : σ × Array (Call α)} (since : Since before before' s s') :
    (r.traced.cutoff i depth s).1 = (r.traced.cutoff i' depth s').1 ∧
      Since before before' (r.traced.cutoff i depth s).2 (r.traced.cutoff i' depth s').2 := by
  have verdict : (r.cutoff i depth s.1).1 = (r.cutoff i' depth s'.1).1 :=
    (willing i depth s.1).trans (willing i' depth s'.1).symm
  refine ⟨verdict, since.push (.cutoff i depth (r.cutoff i depth s.1).1)
    (.cutoff i' depth (r.cutoff i' depth s'.1).1) ?_ rfl rfl⟩
  rw [Call.bare, Call.bare, same, verdict]

omit willing in
theorem path {i i' : Instance α} (same : i.bare = i'.bare) (uid uid' : Nat)
    {p p' : Path.Compiled α} (drawn : p.erased = p'.erased) (command : Path.Command α)
    {s s' : σ × Array (Call α)} (since : Since before before' s s') :
    Since before before' (r.traced.drawPath i uid p command s)
      (r.traced.drawPath i' uid' p' command s') := by
  refine since.push (.path i uid p command) (.path i' uid' p' command) ?_ rfl rfl
  rw [Call.bare, Call.bare, same, drawn]

omit willing in
theorem primitive {i i' : Instance α} (same : i.bare = i'.bare) (p : Primitive)
    {s s' : σ × Array (Call α)} (since : Since before before' s s') :
    Since before before' (r.traced.drawPrimitive i p s) (r.traced.drawPrimitive i' p s') := by
  refine since.push (.primitive i p) (.primitive i' p) ?_ rfl rfl
  rw [Call.bare, Call.bare, same]

/-- It cannot tell instances apart by their geometry. -/
theorem concurs {R : Instance α → Instance α → Prop} (hR : ∀ i i', R i i' → i.bare = i'.bare) :
    r.traced.Concurs r.traced True R (Since before before') where
  cutoff i i' depth _ _ same since := willing.cutoff before before' (hR i i' same) depth since
  primitive i i' p _ _ same since := primitive before before' (hR i i' same) p since
  path i i' uid _ _ command _ _ same kin since :=
    path before before' (hR i i' same) uid uid kin.drawn command since

/-- It cannot tell paths apart by their identities. -/
theorem respects :
    r.traced.Respects (Path.Compiled.Alike fun _ _ => True) (Since before before') where
  cutoff _ depth _ _ since := willing.cutoff before before' rfl depth since
  primitive _ p _ _ since := primitive before before' rfl p since
  path _ uid uid' _ _ command _ _ drawn since :=
    path before before' rfl uid uid' drawn.2 command since

end Renderer.Willing

/-! ### Bodies and geometry -/

/-- A path that is closed takes no more operators, and any other stays open. -/
theorem Path.Compiled.append_complete (p : Path.Compiled α) (op : Path.Operator)
    (flags : Path.Flags) (isCubic : Bool) (args : Path.Args α) (m : Affine α) :
    (p.append op flags isCubic args m).map complete =
      if p.complete then .error .operatorAfterEnd else .ok false := by
  unfold append ready
  cases closed : p.complete with
  | true => rfl
  | false =>
    cases p.inGroup with
    | true => rfl
    | false => exact congrArg Except.ok closed

omit [Scalar α] in
theorem Path.Compiled.addCommand_complete (p : Path.Compiled α) (command : Path.Command α) :
    (p.addCommand command).map complete =
      if p.complete then .error .commandAfterEnd else .ok false := by
  unfold addCommand
  cases closed : p.complete with
  | true => rfl
  | false => rfl

omit [Scalar α] in
theorem Path.Compiled.both_complete {o o' : Except Broken (Path.Compiled α)}
    (h : o.map complete = o'.map complete) : Both (fun p p' => p.complete = p'.complete) o o' := by
  cases o <;> cases o' <;> simp only [Except.map, reduceCtorEq, Except.error.injEq] at h
  · exact h ▸ .error _
  · exact .ok (Except.ok.inj h)

/-- Instances of one shape with the same arguments draw on paths that are open or
closed alike, in whatever place. -/
theorem Angle.bare : Angle (fun i i' : Instance α => i.bare = i'.bare)
    (fun p p' => p.complete = p'.complete) where
  congruence := {
    apply := fun _ _ _ same => Instance.bare_eq_iff.mpr (Instance.bare_eq_iff.mp same)
    origin := fun _ _ same => Instance.bare_eq_iff.mpr (Instance.bare_eq_iff.mp same)
    renamed := fun _ _ _ _ _ => Instance.bare_eq_iff.mpr ⟨rfl, rfl⟩ }
  shape _ _ same := (Instance.bare_eq_iff.mp same).1
  params _ _ same := (Instance.bare_eq_iff.mp same).2
  append i i' op flags isCubic args p p' _ complete := by
    refine Path.Compiled.both_complete ?_
    rw [p.append_complete, p'.append_complete, complete]
  command command p p' complete := by
    refine Path.Compiled.both_complete ?_
    rw [p.addCommand_complete, p'.addCommand_complete, complete]

/-- What is drawn does not depend on where. -/
theorem Setting.level_blind (g : Grammar α) {r : Renderer σ α} (willing : r.Willing)
    (options : Options) (n : Nat) (before before' : List (Call α)) :
    Context.Parallel True (fun i i' : Instance α => i.bare = i'.bare)
      (fun p p' => p.complete = p'.complete) (Since before before')
      ((standard g r.traced options).level n) ((standard g r.traced options).level n) := by
  have keeps := expand_keeps (standard_keeps g r.traced options) n
  refine contextAt_parallel options options .bare
    (willing.concurs before before' fun _ _ => id) n keeps keeps fun i i' same => ?_
  rw [← expandNoting_id]
  exact expandNoting_parallel options options
    (willing.concurs before before' fun _ _ => congrArg Instance.bare)
    (fun _ _ _ => id) .bare (willing.concurs before before' fun _ _ => id) n same

/-! ### Two replicas -/

/-- Neither the numbers of sessions nor the path under construction are in sight. -/
theorem Faces.unnumbered {d : Draft α} {stage : Stage} {k : Known α} {scope : Scope}
    {κ : Control α} {s' : Session σ α}
    (h : Faces (stage.footing d True) k scope κ s'.control)
    (building : Option (Path.Compiled α)) :
    Faces (stage.footing d False) k scope κ { s' with building := building }.control := by
  have right : Control.Seen k { s' with building := building }.control :=
    ⟨h.right.known, h.right.view⟩
  have same : κ.Same { s' with building := building }.control :=
    have same := h.same stage.free
    ⟨same.slots, same.frames, same.view, same.depth⟩
  cases stage with
  | shape =>
    exact {
      charts := h.charts
      left := h.left
      right := right
      same := fun _ => same
      agree := fun fixed => absurd trivial fixed
      numbered := False.elim
      based := fun draws => ⟨(h.based draws).1,
        ⟨(h.based draws).2.1.below, (h.based draws).2.1.known⟩, (h.based draws).2.2⟩ }
  | path =>
    exact {
      charts := h.charts
      left := h.left
      right := right
      same := fun _ => same
      agree := fun fixed => absurd trivial fixed
      numbered := False.elim
      based := False.elim }

theorem Body.Sited.unnumbered {d : Draft α} {stage : Stage} {k : Known α} {scope : Scope}
    {paramsFixed : Bool} {place : Address} {b : Body α}
    (h : b.Sited (stage.footing d True) k scope paramsFixed place) :
    b.Sited (stage.footing d False) k scope paramsFixed place := by
  cases stage <;> exact ⟨h.made, h.clear, h.site, h.fixed, h.draws⟩

omit [Scalar α] in
theorem Stage.complete_eq {E : Cargo σ α → Cargo σ' α → Prop} {stage : Stage} {a : Cargo σ α}
    {a' : Cargo σ' α} (h : stage.carries E a a') :
    a.building.map Path.Compiled.complete = a'.building.map Path.Compiled.complete := by
  cases stage with
  | shape => rw [Outside.left h, Outside.right h]
  | path =>
    have same := congrArg (Option.map Path.Compiled.complete) (Inside.building h)
    rw [Option.map_map, Option.map_map] at same
    exact same

section Replicas

variable {d : Draft α} {g : Grammar α} {r : Renderer σ α} {enough n m : Nat} {base : Store α}
  {c c' : Context (σ × Array (Call α)) α} {k : Known α} {scope : Scope} {stage : Stage}
  {v w v' w' : Session (σ × Array (Call α)) α}

/-- A replica and a later one, as if the later one had the path of the first under
construction. -/
theorem Stage.even (hv : stage.carries (Mirrored d g enough base) v.cargo v'.cargo)
    (hw : stage.carries (Mirrored d g enough base) w.cargo w'.cargo)
    (random : w.random = v.random) :
    stage.carries (Even d g enough (Since v.renderer.2.toList w'.renderer.2.toList)) v.cargo
      { w' with building := v.building }.cargo := by
  have first := Stage.tied hv
  have later := Stage.tied hw
  have even : Even d g enough (Since v.renderer.2.toList w'.renderer.2.toList) v.cargo
      { w' with building := v.building }.cargo := {
    random := random.symm.trans later.random
    renderer := Since.refl _ _
    sound := first.legacy.sound
    sound' := later.sound'
    rebuilds := first.legacy.rebuilds
    rebuilds' := fun place p found => by
      refine later.legacy.rebuilds place p ?_
      rw [later.paths]
      exact found }
  cases stage with
  | shape =>
    have closed : v.building = none := Outside.left hv
    exact ⟨closed, closed, even⟩
  | path => exact ⟨rfl, even⟩

theorem Session.aligned (s : Session (σ × Array (Call α)) α)
    {building : Option (Path.Compiled α)}
    (complete : building.map Path.Compiled.complete = s.building.map Path.Compiled.complete) :
    Twins True (Aligned True (fun p p' => p.complete = p'.complete)
      (Since s.renderer.2.toList s.renderer.2.toList) True) { s with building := building } s where
  slots := rfl
  frames := rfl
  view := rfl
  random := rfl
  session _ := rfl
  rest := {
    values := rfl
    paths := List.forall₂_same.mpr fun e _ => ⟨rfl, .refl True e.2⟩
    nextUid := rfl
    sessions := fun _ => rfl
    renderer := Since.refl _ _
    globalsEnd := fun _ => rfl
    depth := rfl
    building := by
      show Option.Rel _ building s.building
      cases building <;> cases open_ : s.building <;> rw [open_] at complete <;>
        simp only [Option.map_none, Option.map_some, reduceCtorEq, Option.some.injEq] at complete
      · exact .none
      · exact .some complete }

/-- Two replicas of one body draw the same, apart from geometry. The first is
compared with itself where the second begins, then moved to where the second is, and
there it is what the second does with more fuel. -/
theorem Stage.replicas_alike (accord : Accord d g True (Mirrored d g enough base) c c' n m)
    (even : ∀ before before',
      Accord d g False (Even d g enough (Since before before')) c c' n m)
    (blind : ∀ before before', Context.Parallel True
      (fun i i' : Instance α => i.bare = i'.bare) (fun p p' => p.complete = p'.complete)
      (Since before before') c' c')
    {b : Body α} {place : Address} (sited : b.Sited (stage.footing d True) k scope false place)
    (hv : stage.Sides d True (Mirrored d g enough base) k scope v v')
    (hw : stage.Sides d True (Mirrored d g enough base) k scope w w')
    (control : w.control = v.control) (random : w.random = v.random) {i i' : Instance α}
    (same : i.bare = i'.bare) {inner : Bool} {a a' : Session (σ × Array (Call α)) α}
    (ran : (c.enterBody (b.resolve scope false place) i inner []).run v = .ok () a)
    (ran' : (c.enterBody (b.resolve scope false place) i' inner []).run w = .ok () a') :
    Since v.renderer.2.toList w.renderer.2.toList a.renderer a'.renderer ∧
      a.random = a'.random := by
  have faces : Faces (stage.footing d True) k scope v.control w'.control :=
    control ▸ hw.sees.toFaces
  have opened : v.building.map Path.Compiled.complete = w'.building.map Path.Compiled.complete := by
    have same := congrArg (fun κ : Control α => κ.opened.map fun o => o.2.2) control
    simp only [Session.control, Option.map_map] at same
    exact same.symm.trans (Stage.complete_eq hw.cargo)
  have accord' := even v.renderer.2.toList w'.renderer.2.toList
  obtain ⟨_, p, ran₁, -, carried₁⟩ := ((stage.paired accord').enterBody (stage.bond accord'.ties)
    sited.unnumbered i inner (.refl _ _ _)).of_ok
    ⟨faces.unnumbered v.building, Stage.even hv.cargo hw.cargo random⟩ ran
  obtain ⟨_, q, ran₂, -, twins⟩ := ((blind _ _).enterBody (b.resolve scope false place) same inner
    []).of_ok (w'.aligned opened) ran₁
  obtain ⟨_, q', ran₃, -, carried₃⟩ := ((stage.paired accord).enterBody (stage.bond accord.ties)
    sited i' inner (.refl _ _ _)).of_ok ⟨hw.sees.toFaces, hw.cargo⟩ ran'
  cases ran₂.symm.trans ran₃
  have here := Stage.tied carried₁
  have there := Stage.tied carried₃
  have renderer : w.renderer = w'.renderer := (Stage.tied hw.cargo).renderer
  constructor
  · have since := here.renderer.trans twins.rest.renderer
    rw [renderer]
    have last : a'.renderer = q.renderer := there.renderer
    rw [last]
    exact since
  · exact here.random.trans (twins.random.trans there.random.symm)

end Replicas

/-! ### All replicas -/

namespace Context

theorem keeps_cloned {body : Instance α → Action σ α Unit} (keeps : ∀ i, Action.Keeps (body i))
    (saved : Random) (base : Instance α) (replicas : List (Adjustment α)) :
    Action.Keeps (cloned saved base body replicas) := by
  induction replicas with
  | nil => exact Action.keeps_pure ()
  | cons m rest ih =>
    have restored : Action.Keeps (Attempt.update fun s : Session σ α =>
        { s with random := saved }) := Action.keeps_update fun _ => rfl
    exact restored.bind fun _ => (keeps _).bind fun _ => ih

/-- Where all replicas succeed, each of them does, after those before it. -/
theorem cloned_split {body : Instance α → Action σ α Unit} {saved : Random} {base : Instance α}
    {done rest : List (Adjustment α)} {m : Adjustment α} {v w : Session σ α}
    (ran : (cloned saved base body (done ++ m :: rest)).run v = .ok () w) :
    ∃ u a, (cloned saved base body done).run v = .ok () u ∧
      (body (base.apply m)).run { u with random := saved } = .ok () a := by
  induction done generalizing v with
  | nil =>
    rw [List.nil_append, cloned] at ran
    obtain ⟨_, _, restored, ran⟩ := of_bind_ok ran
    cases restored
    obtain ⟨_, a, ranBody, -⟩ := of_bind_ok ran
    exact ⟨v, a, rfl, ranBody⟩
  | cons first done ih =>
    rw [List.cons_append, cloned] at ran
    obtain ⟨_, _, restored, ran⟩ := of_bind_ok ran
    cases restored
    obtain ⟨_, a, ranFirst, ran⟩ := of_bind_ok ran
    simp only [cloned, run_bind, run_update, ranFirst]
    exact ih ran

theorem transform_clone {c : Context σ α} {h : Head α} {spec : TransformSpec α} {body : Body α}
    {parent : Instance α} {follows : Bool} {s w : Session σ α} (clone : spec.clone = true)
    (ran : (c.run (.transform h spec body) parent follows).run s = .ok () w) :
    ∃ base replicas v, c.Replicates h spec parent follows s base replicas v ∧
      (cloned v.random base (fun i => c.enterBody body i (follows || spec.opsOnly) [])
        replicas).run v = .ok () w := by
  rw [Context.run, transform] at ran
  obtain ⟨base, u, adjusted, ran⟩ := of_bind_ok ran
  obtain ⟨replicas, v, multiplied, ran⟩ := of_bind_ok ran
  obtain ⟨_, _, saved, ran⟩ := of_bind_ok ran
  cases saved
  rw [if_pos clone] at ran
  exact ⟨base, replicas, v, ⟨u, adjusted, multiplied⟩, ran⟩

end Context

section Replicas

variable {d : Draft α} {g : Grammar α} {enough n m : Nat} {base : Store α}
  {c c' : Context (σ × Array (Call α)) α} {k : Known α} {scope : Scope} {stage : Stage}
  {v w v' : Session (σ × Array (Call α)) α}

/-- All replicas draw what the first of them does, apart from geometry. -/
theorem Stage.clones_alike (accord : Accord d g True (Mirrored d g enough base) c c' n m)
    (even : ∀ before before',
      Accord d g False (Even d g enough (Since before before')) c c' n m)
    (blind : ∀ before before', Context.Parallel True
      (fun i i' : Instance α => i.bare = i'.bare) (fun p p' => p.complete = p'.complete)
      (Since before before') c' c')
    {b : Body α} {place : Address} (sited : b.Sited (stage.footing d True) k scope false place)
    (first : stage.Sides d True (Mirrored d g enough base) k scope v v')
    {i : Instance α} {inner : Bool} {replicas : List (Adjustment α)} :
    let enter := fun i => c.enterBody (b.resolve scope false place) i inner []
    (Context.cloned v.random i enter replicas).run v = .ok () w →
    ∃ (calls : List (Call α)) (random : Random), ∀ done m later,
      replicas = done ++ m :: later → ∃ before after made,
        (Context.cloned v.random i enter done).run v = .ok () before ∧
        (enter (i.apply m)).run { before with random := v.random } = .ok () after ∧
        after.renderer.2.toList = before.renderer.2.toList ++ made ∧
        made.map Call.bare = calls ∧ after.random = random := by
  intro enter ran
  have keeps : ∀ i, Action.Keeps (enter i) := fun i => accord.runs.keeps.enterBody _ i inner []
  -- Each replica against the first.
  have alike : ∀ m a, (enter (i.apply m)).run v = .ok () a → ∀ done m' later,
      replicas = done ++ m' :: later → ∃ before after,
        (Context.cloned v.random i enter done).run v = .ok () before ∧
        (enter (i.apply m')).run { before with random := v.random } = .ok () after ∧
        Since v.renderer.2.toList before.renderer.2.toList a.renderer after.renderer ∧
        a.random = after.random := by
    intro m a ranFirst done m' later split
    rw [split] at ran
    obtain ⟨before, after, ranBefore, ranLater⟩ := Context.cloned_split ran
    obtain ⟨w', last⟩ := Stage.cloned accord sited first ranBefore
    have control : before.control = v.control := by
      have ends := Context.keeps_cloned keeps v.random i done v
      rw [ranBefore] at ends
      exact ends
    have bare : (i.apply m).bare = (i.apply m').bare := Instance.bare_eq_iff.mpr ⟨rfl, rfl⟩
    exact ⟨before, after, ranBefore, ranLater, Stage.replicas_alike accord even blind sited first
      last control rfl bare ranFirst ranLater⟩
  cases replicas with
  | nil =>
    refine ⟨[], v.random, fun done m later split => ?_⟩
    simp at split
  | cons m rest =>
    have ranAll : (Context.cloned v.random i enter ([] ++ m :: rest)).run v = .ok () w := ran
    obtain ⟨before, a, ranNone, ranFirst⟩ := Context.cloned_split ranAll
    cases ranNone
    obtain ⟨_, _, -, -, ⟨made, -, log, -⟩, -⟩ := alike m a ranFirst [] m rest rfl
    refine ⟨made.map Call.bare, a.random, fun done m' later split => ?_⟩
    obtain ⟨before, after, ranBefore, ranLater, since, random⟩ :=
      alike m a ranFirst done m' later split
    obtain ⟨calls, log', same⟩ := since.made log
    exact ⟨before, after, calls, ranBefore, ranLater, log', same, random.symm⟩

end Replicas

/-- Cloned replicas make identical choices. Wherever a run comes to a transform that
clones and that succeeds, a renderer that admits everything is called for the body of
each replica as for that of every other, apart from geometry and from the identities
and handles of paths, and the random state is the same after each of them. -/
theorem Setting.cloned_replicas_agree {d : Draft α} {g : Grammar α} (drafted : d.Drafted)
    (built : d.build = .ok g) (clear : d.Clear) {r : Renderer σ α} (willing : r.Willing)
    (options : Options) {fuel start : Nat} {s : Session (σ × Array (Call α)) α} (rest : s.AtRest)
    (left : g.Left s.store) {n : Nat} {h : Head α} {spec : TransformSpec α} {body : Body α}
    {parent : Instance α} {follows : Bool} {u w : Session (σ × Array (Call α)) α}
    (reached : (standard g r.traced options).Reaches fuel start s
      (.run n (.transform h spec body) parent follows) u) (clone : spec.clone = true) :
    let c := (standard g r.traced options).level n
    let enter := fun i => c.enterBody body i (follows || spec.opsOnly) []
    (c.run (.transform h spec body) parent follows).run u = .ok () w →
    ∃ base replicas v, c.Replicates h spec parent follows u base replicas v ∧
      (Context.cloned v.random base enter replicas).run v = .ok () w ∧
      ∃ (calls : List (Call α)) (random : Random), ∀ done m later,
        replicas = done ++ m :: later → ∃ before after made,
          (Context.cloned v.random base enter done).run v = .ok () before ∧
          (enter (base.apply m)).run { before with random := v.random } = .ok () after ∧
          after.renderer.2.toList = before.renderer.2.toList ++ made ∧
          made.map Call.bare = calls ∧ after.random = random := by
  intro c enter ended
  have loads : d.Loads g := ⟨drafted, built, clear⟩
  obtain ⟨enough, legacy⟩ := left.legacy loads
  have low : fuel ≤ max enough fuel := Nat.le_max_right enough fuel
  have tied : Mirrored d g (max enough fuel) s.store s.cargo s.cargo :=
    ⟨rfl, rfl, rfl, rfl, legacy.sound, legacy.mono (Nat.le_max_left _ _), .refl _⟩
  have matched := Mirrored.matched loads r.traced options low s.store
  rcases matched.reaches rfl rest rest (fun _ => rfl) tied reached with idle | ⟨charts, u', stands⟩
  · obtain ⟨_, _, same⟩ := idle
    cases same
  obtain ⟨hn, stage, k, scope, place, st₀, same, sited, abreast⟩ := stands
  cases st₀ <;> rw [Statement.resolve] at same <;> cases same
  have accord := matched.accord charts hn
  have runs := standard_runs g r.traced options
  have even := fun before before' => (Even.matched loads (willing.respects before before') runs runs
    rfl rfl low (Nat.le_refl _)).accord charts hn
  have blind := level_blind g willing options (max enough fuel + n)
  obtain ⟨base, replicas, v, replicates, ran⟩ := Context.transform_clone clone ended
  obtain ⟨v', first⟩ := Stage.replicates accord abreast replicates
  exact ⟨base, replicas, v, replicates, ran,
    Stage.clones_alike accord even blind sited.transform.body first ran⟩

/-! ### A ring of clones -/

namespace Sample

def cyclic : TransformSpec Rat := ⟨[.cyclic 2], true, false⟩

/-- Two clones of what is scattered. The first builds the path that both draw. -/
def ring : Body Rat := .ofStatements [.transform (head .none) cyclic scatter]

def ringDraft : Draft Rat :=
  ((((Draft.empty.declareShape "wedge" true []).1.declareShape "ring" false []).1.addGlobal
    (constant "side" (number 2)) .none).addRule 0 .unstated wedge .none).addRule 1 .unstated
    ring .none

theorem ringDraft_drafted : ringDraft.Drafted := by
  have none : (Draft.empty : Draft Rat).Drafted := .empty
  have declared := (none.declareShape "wedge" true []).declareShape "ring" false []
  have made : ∀ st ∈ ring.statements, st.Made := by
    rintro st (_ | ⟨_, ⟨⟩⟩)
    exact .transform scatter_made
  exact ((declared.addGlobal _ .none).addRule 0 .unstated wedge_made .none).addRule 1 .unstated
    made .none

theorem ringDraft_build : ringDraft.build = .ok ringDraft.resolved := by
  have errors : ringDraft.errors = [] := by decide +kernel
  exact Draft.build_eq_ok.mpr ⟨errors, rfl⟩

theorem ringDraft_clear : ringDraft.Clear := by
  change ∀ b ∈ ringDraft.globals :: ringDraft.bodies, ∀ st ∈ b.flatten, st.shadows = false
  decide +kernel

def silent : Renderer Unit Rat := ⟨fun _ _ s => (.expand, s), fun _ _ s => s, fun _ _ _ _ s => s⟩

def ringSetting : Setting (Unit × Array (Call Rat)) Rat :=
  .standard ringDraft.resolved silent.traced options

def ringSession : Session (Unit × Array (Call Rat)) Rat := .begin 7 .empty ((), #[])

def ringShape : Shape Rat := ringDraft.resolved.shapes[1]

def ringRule : Rule Rat := ringShape.rules[0]

def ringRoot : Instance Rat := .root ringShape.index

def ringBody : Body Rat := scatter.resolve ringDraft.globalScope false [1, 0, 0, 0]

def ringGlobals : Outcome Stop (Session (Unit × Array (Call Rat)) Rat) Unit :=
  ((ringSetting.level 9).runAll ringSetting.grammar.globals.statements ringRoot true).run
    (ringSetting.ready ringShape ringSession)

def ringStart : Session (Unit × Array (Call Rat)) Rat :=
  { ringGlobals.state with globalsEnd := ringGlobals.state.stack.height }

def ringBegun : Session (Unit × Array (Call Rat)) Rat :=
  { ringStart with
    depth := ringStart.depth + 1
    renderer := (silent.traced.cutoff ringRoot (ringStart.depth + 1) ringStart.renderer).2
    view := .rule ringStart.stack.height (some ringStart.globalsEnd) }

def ringFramed : Session (Unit × Array (Call Rat)) Rat :=
  { ringBegun with stack := ringBegun.stack.pushFrame }

def ringEnd : Outcome Stop (Session (Unit × Array (Call Rat)) Rat) Unit :=
  ((ringSetting.level 8).run (.transform (head .none) cyclic ringBody) ringRoot true).run ringFramed

theorem ring_reached : ringSetting.Reaches 9 1 ringSession
    (.run 8 (.transform (head .none) cyclic ringBody) ringRoot true) ringFramed := by
  have size : ringGlobals.state.stack.frameSize = ringSetting.grammar.globals.slots := by
    decide +kernel
  have bound : ringGlobals = .ok () ringGlobals.state := Outcome.eq_ok_state (by decide +kernel)
  have found : ringSetting.grammar.shapes[1]? = some ringShape := rfl
  have start : ringSetting.Reaches 9 1 ringSession (.expand 9 ringRoot) ringStart :=
    .start found rfl bound size
  have takes : (ringSetting.level 8).Takes ringRoot ringStart ringShape ringRule ringBegun :=
    ⟨1, { ringBegun with depth := ringStart.depth, view := ringStart.view },
      { ringBegun with view := ringStart.view }, rfl, rfl, rfl, rfl, rfl⟩
  have framed : (Action.bindParams ringRule.body.params ringRoot.params).run ringFramed =
    .ok () ringFramed := rfl
  have body : ringSetting.Reaches 9 1 ringSession
      (.runAll 8 [.transform (head .none) cyclic ringBody] ringRoot true) ringFramed :=
    .next (.next start (.rule takes rfl)) (.body rfl framed)
  exact .next body .head

end Sample

theorem Setting.cloned_replicas_agree_sample :
    let c := Sample.ringSetting.level 8
    let enter := fun i => c.enterBody Sample.ringBody i true []
    Sample.ringDraft.Drafted ∧ Sample.ringDraft.build = .ok Sample.ringDraft.resolved ∧
      Sample.ringDraft.Clear ∧ Sample.silent.Willing ∧
      Sample.ringDraft.resolved.Left Sample.ringSession.store ∧
      Sample.ringSetting.Reaches 9 1 Sample.ringSession
        (.run 8 (.transform (Sample.head .none) Sample.cyclic Sample.ringBody) Sample.ringRoot true)
        Sample.ringFramed ∧
      Sample.ringEnd = .ok () Sample.ringEnd.state ∧
      Sample.ringEnd.state.renderer.2.size = 13 ∧
      ∃ base replicas v,
        c.Replicates (Sample.head .none) Sample.cyclic Sample.ringRoot true Sample.ringFramed base
          replicas v ∧
        (Context.cloned v.random base enter replicas).run v = .ok () Sample.ringEnd.state ∧
        ∃ (calls : List (Call Rat)) (random : Random), ∀ done m later,
          replicas = done ++ m :: later → ∃ before after made,
            (Context.cloned v.random base enter done).run v = .ok () before ∧
            (enter (base.apply m)).run { before with random := v.random } = .ok () after ∧
            after.renderer.2.toList = before.renderer.2.toList ++ made ∧
            made.map Call.bare = calls ∧ after.random = random := by
  intro c enter
  have willing : Sample.silent.Willing := fun _ _ _ => rfl
  have left : Sample.ringDraft.resolved.Left Sample.ringSession.store := .session .empty
  have ended : Sample.ringEnd = .ok () Sample.ringEnd.state :=
    Outcome.eq_ok_state (by decide +kernel)
  have size : Sample.ringEnd.state.renderer.2.size = 13 := by decide +kernel
  exact ⟨Sample.ringDraft_drafted, Sample.ringDraft_build, Sample.ringDraft_clear, willing, left,
    Sample.ring_reached, ended, size,
    cloned_replicas_agree Sample.ringDraft_drafted Sample.ringDraft_build Sample.ringDraft_clear
      willing Sample.options (Session.begin_atRest _ _ _) left Sample.ring_reached rfl ended⟩

end ShapeGrammar
