import ShapeGrammar.Proofs.Cloning
import ShapeGrammar.Proofs.Fitness

/-!
# Path coordinates

A path starts in coordinates of its own. Until a loop or a transform of operators
takes them over, operators are put down untransformed, and such a loop or transform
starts from the identity. In a loaded grammar none of this changes anything: a path
draws no shapes, so the first loop or transform on the way inwards takes the
coordinates over, and up to there the instance is where the path began. Whether the
coordinates were taken over need not be known at all.
-/

set_option autoImplicit false

namespace ShapeGrammar

open Attempt

variable {σ α : Type}

/-! ### What is made of operators only -/

/-- A loop or transform is marked as made of operators if its bodies are. -/
def Statement.Flagged : Statement α → Prop
  | .loop _ spec body last => spec.opsOnly = (body.opsOnly && last.opsOnly)
  | .transform _ spec body => spec.opsOnly = body.opsOnly
  | _ => True

def Draft.Flagged (d : Draft α) : Prop := ∀ b ∈ d.bodies, ∀ st ∈ b.flatten, st.Flagged

/-- The first loops and transforms on the way inwards are marked. -/
inductive Statement.Marked : Statement α → Prop
  | replace (h : Head α) : Marked (.replace h)
  | loop {h : Head α} {spec : LoopSpec α} {body last : Body α} (marked : spec.opsOnly = true) :
      Marked (.loop h spec body last)
  | transform {h : Head α} {spec : TransformSpec α} {body : Body α}
      (marked : spec.opsOnly = true) : Marked (.transform h spec body)
  | branch {h : Head α} {cond : Expr α} {thenBody elseBody : Body α}
      (hthen : ∀ st ∈ thenBody.statements, Marked st)
      (helse : ∀ st ∈ elseBody.statements, Marked st) :
      Marked (.branch h cond thenBody elseBody)
  | switch {h : Head α} {selector : Expr α} {keys : List (Int × Nat)} {bodies : List (Body α)}
      {default : Body α} (hbodies : ∀ b ∈ bodies, ∀ st ∈ b.statements, Marked st)
      (hdefault : ∀ st ∈ default.statements, Marked st) :
      Marked (.switch h selector keys bodies default)
  | define (h : Head α) (d : Define α) : Marked (.define h d)
  | op (h : Head α) (o : Path.Op α) : Marked (.op h o)
  | command (h : Head α) (c : Path.CommandSpec α) : Marked (.command h c)

theorem Body.opsOnly_of_suits {b : Body α} (h : b.yield.Suits true) : b.opsOnly = true := by
  have none : b.yield.replacement = false := h
  rw [opsOnly, none]
  rfl

theorem Body.marked_of {b : Body α}
    (h : ∀ st ∈ b.statements, st.Flagged → (∀ x ∈ st.inner, x.Flagged) → st.yield.Suits true →
      ∀ scope place, (st.resolve scope place).Marked)
    (flagged : ∀ x ∈ b.flatten, x.Flagged) (suits : b.yield.Suits true) (scope : Scope)
    (fixed : Bool) (place : Address) :
    ∀ st ∈ (b.resolve scope fixed place).statements, st.Marked := by
  intro st hst
  obtain ⟨statements, params, slots⟩ := b
  rw [Body.resolve] at hst
  obtain ⟨other, mem, scope', place', rfl⟩ := Statement.mem_resolveAll hst
  apply h other mem
  · exact flagged other (Statement.mem_flattenAll mem)
  · exact fun x hx => flagged x (Statement.inner_subset mem hx)
  · exact Statement.suits_of_mem suits mem

/-- Where no shape is drawn every mark says so, and resolving keeps it. -/
theorem Statement.Flagged.marked {st : Statement α} : st.Flagged →
    (∀ x ∈ st.inner, x.Flagged) → st.yield.Suits true → ∀ scope place,
      (st.resolve scope place).Marked := by
  induction st using Statement.induct (P := fun b => (∀ x ∈ b.flatten, x.Flagged) →
    b.yield.Suits true → ∀ scope fixed place, ∀ st ∈ (b.resolve scope fixed place).statements,
      st.Marked) with
  | body b ih flagged suits scope fixed place st hst =>
    exact Body.marked_of ih flagged suits scope fixed place st hst
  | replace h => exact fun _ _ _ _ _ => .replace h
  | loop h spec body last =>
    intro flagged _ suits scope place
    have each := Yield.suits_join.mp suits
    apply Marked.loop
    calc spec.opsOnly = (body.opsOnly && last.opsOnly) := flagged
      _ = true := by rw [Body.opsOnly_of_suits each.1, Body.opsOnly_of_suits each.2]; rfl
  | transform h spec body =>
    intro flagged _ suits scope place
    exact .transform (flagged.trans (Body.opsOnly_of_suits suits))
  | branch h cond thenBody elseBody hthen helse =>
    intro _ parts suits scope place
    have each := Yield.suits_join.mp suits
    apply Marked.branch
    · exact hthen (fun x hx => parts x (List.mem_append_left _ hx)) each.1 _ _ _
    · exact helse (fun x hx => parts x (List.mem_append_right _ hx)) each.2 _ _ _
  | switch h selector keys bodies default hbodies hdefault =>
    intro _ parts suits scope place
    have each := Yield.suits_join.mp suits
    apply Marked.switch
    · intro b hb
      obtain ⟨j, other, found, rfl⟩ := Body.mem_resolveAll hb
      have mem := List.mem_of_getElem? found
      apply hbodies other mem
      · exact fun x hx => parts x (List.mem_append_left _ (Body.mem_flattenAll mem hx))
      · exact Body.suits_of_mem each.1 mem
    · exact hdefault (fun x hx => parts x (List.mem_append_right _ hx)) each.2 _ _ _
  | define h d => exact fun _ _ _ _ _ => .define h _
  | op h o => exact fun _ _ _ _ _ => .op h o
  | command h c => exact fun _ _ _ _ _ => .command h c

theorem Body.flattenAll_eq_flatMap (bodies : List (Body α)) :
    Body.flattenAll bodies = bodies.flatMap Body.flatten := by
  induction bodies with
  | nil => rfl
  | cons b rest ih => rw [Body.flattenAll, List.flatMap_cons, ih]

theorem Body.flagged_of {b : Body α}
    (h : ∀ st ∈ b.statements, st.Flagged ∧ ∀ x ∈ st.inner, x.Flagged) :
    ∀ x ∈ b.flatten, x.Flagged := by
  obtain ⟨statements, params, slots⟩ := b
  rw [Body.flatten]
  induction statements with
  | nil => exact fun x hx => absurd hx List.not_mem_nil
  | cons st rest ih =>
    obtain ⟨self, inner⟩ := h st List.mem_cons_self
    rw [Statement.flattenAll, List.forall_mem_cons, List.forall_mem_append]
    exact ⟨self, inner, ih fun other mem => h other (List.mem_cons_of_mem _ mem)⟩

variable [Scalar α]

/-- The functions that make loops and transforms mark them. -/
theorem Statement.Made.flagged {st : Statement α} (made : st.Made) :
    st.Flagged ∧ ∀ x ∈ st.inner, x.Flagged := by
  induction made with
  | @loop h var range body last st _ _ made hbody hlast =>
    obtain ⟨constant, -, rfl⟩ := makeLoop_eq_ok made
    rw [inner, List.forall_mem_append]
    exact ⟨rfl, Body.flagged_of hbody, Body.flagged_of hlast⟩
  | transform _ hbody => exact ⟨rfl, Body.flagged_of hbody⟩
  | branch _ _ hthen helse =>
    rw [inner, List.forall_mem_append]
    exact ⟨trivial, Body.flagged_of hthen, Body.flagged_of helse⟩
  | @switch h selector s _ _ hbodies hdefault =>
    rw [makeSwitch, inner, List.forall_mem_append, Body.flattenAll_eq_flatMap]
    refine ⟨trivial, fun x hx => ?_, Body.flagged_of hdefault⟩
    obtain ⟨b, mem, hx⟩ := List.mem_flatMap.mp hx
    exact Body.flagged_of (hbodies b mem) x hx
  | _ => exact ⟨trivial, fun x hx => absurd hx List.not_mem_nil⟩

theorem Draft.Drafted.flagged {d : Draft α} (drafted : d.Drafted) : d.Flagged := by
  intro b mem
  obtain ⟨s, hs, hb⟩ := List.mem_flatMap.mp mem
  obtain ⟨r, hr, rfl⟩ := List.mem_map.mp hb
  exact Body.flagged_of fun st hst => ((drafted.regular.rules s hs r hr).made st hst).flagged

def Grammar.Marked (g : Grammar α) : Prop :=
  ∀ (i j : Nat) (shape : Shape α) (rule : Rule α), g.shapes[i]? = some shape →
    shape.isPath = true → shape.rules[j]? = some rule → ∀ st ∈ rule.body.statements, st.Marked

theorem Draft.Flagged.marked {d : Draft α} {g : Grammar α} (flagged : d.Flagged)
    (built : d.build = .ok g) : g.Marked := by
  intro i j shape rule found isPath taken st hst
  obtain ⟨s, r, r', drafted, rfl, source, ⟨-, body, -⟩, rfl⟩ := build_source built found taken
  have mem := List.mem_of_getElem? drafted
  have mem' := List.mem_of_getElem? source
  have suits : r.body.yield.Suits true := no_replacement built mem mem' isPath
  have within : r.body ∈ d.bodies :=
    List.mem_flatMap.mpr ⟨s, mem, List.mem_map.mpr ⟨r, mem', rfl⟩⟩
  have parts := flagged r.body within
  rw [resolveRule, body] at hst
  exact Body.marked_of (fun _ _ => Statement.Flagged.marked) parts suits _ _ _ st hst

/-! ### Where coordinates are taken over -/

/-- The coordinates were taken over, or they are still those of the root and the
statements take them over. -/
def Instance.Grounded (i : Instance α) (follows : Bool) (statements : List (Statement α)) : Prop :=
  follows = false → i.transform = .identity ∧ ∀ st ∈ statements, st.Marked

namespace Instance.Grounded

variable {i : Instance α} {follows : Bool} {statements : List (Statement α)}

theorem of_follows (taken : follows = true) : i.Grounded follows statements := by
  intro own
  rw [taken] at own
  cases own

theorem mono {part : List (Statement α)} (h : i.Grounded follows statements)
    (le : part ⊆ statements) : i.Grounded follows part := fun own =>
  ⟨(h own).1, fun st hst => (h own).2 st (le hst)⟩

theorem single {st : Statement α} (h : i.Grounded follows statements) (mem : st ∈ statements) :
    i.Grounded follows [st] :=
  h.mono (List.cons_subset.mpr ⟨mem, List.nil_subset _⟩)

theorem marked {st : Statement α} (h : i.Grounded follows [st]) (own : follows = false) :
    st.Marked := (h own).2 st List.mem_cons_self

/-- A loop leaves nothing to be taken over inside it. -/
theorem loop {h : Head α} {spec : LoopSpec α} {body last : Body α}
    (ground : i.Grounded follows [.loop h spec body last]) : (follows || spec.opsOnly) = true := by
  cases follows with
  | true => rfl
  | false =>
    cases ground.marked rfl with
    | loop marked => exact marked

theorem transform {h : Head α} {spec : TransformSpec α} {body : Body α}
    (ground : i.Grounded follows [.transform h spec body]) :
    (follows || spec.opsOnly) = true := by
  cases follows with
  | true => rfl
  | false =>
    cases ground.marked rfl with
    | transform marked => exact marked

theorem branch {h : Head α} {cond : Expr α} {thenBody elseBody : Body α}
    (ground : i.Grounded follows [.branch h cond thenBody elseBody]) :
    i.Grounded follows thenBody.statements ∧ i.Grounded follows elseBody.statements := by
  constructor
  · intro own
    cases ground.marked own with
    | branch hthen helse => exact ⟨(ground own).1, hthen⟩
  · intro own
    cases ground.marked own with
    | branch hthen helse => exact ⟨(ground own).1, helse⟩

theorem switch {h : Head α} {selector : Expr α} {keys : List (Int × Nat)}
    {bodies : List (Body α)} {default : Body α}
    (ground : i.Grounded follows [.switch h selector keys bodies default]) (key : Int) :
    i.Grounded follows (Switch.case ⟨keys, bodies, default⟩ key).statements := by
  intro own
  constructor
  · exact (ground own).1
  · cases ground.marked own with
    | switch hbodies hdefault =>
      rcases Switch.case_eq_default_or_mem ⟨keys, bodies, default⟩ key with same | mem
      · rw [same]
        exact hdefault
      · exact hbodies _ mem

end Instance.Grounded

/-! ### Every task of a run -/

def Task.Grounded : Task α → Prop
  | .expand _ _ => True
  | .enter _ b i follows _ => i.Grounded follows b.statements
  | .runAll _ statements i follows => i.Grounded follows statements
  | .run _ st i follows => i.Grounded follows [st]

theorem Context.mem_of_selectRule {shape : Shape α} {s u : Session σ α} {rule : Rule α}
    (ran : (selectRule shape).run s = .ok rule u) : ∃ j : Nat, shape.rules[j]? = some rule := by
  unfold selectRule at ran
  split at ran
  · cases ran
  case h_2 only same =>
    cases ran
    exact ⟨0, by rw [same]; rfl⟩
  · simp only [run_bind, run_state, run_update] at ran
    split at ran
    case h_1 found =>
      cases ran
      obtain ⟨j, -, at_⟩ := Option.bind_eq_some_iff.mp found
      exact ⟨j, at_⟩
    case h_2 => cases ran

namespace Setting

variable {t : Setting σ α}

/-- What a task calls for is grounded if the task is. -/
theorem Calls.grounded (marked : t.grammar.Marked) {x y : Task α} {s u : Session σ α}
    (calls : t.Calls x s y u) (ground : x.Grounded) : y.Grounded := by
  cases calls with
  | rule takes => exact Instance.Grounded.of_follows rfl
  | path takes isPath =>
    obtain ⟨index, v, w, -, found, -, selected, -⟩ := takes
    obtain ⟨j, taken⟩ := Context.mem_of_selectRule selected
    exact fun _ => ⟨rfl, marked index j _ _ found isPath taken⟩
  | body => exact ground
  | head => exact ground.single List.mem_cons_self
  | tail => exact ground.mono (List.subset_cons_self _ _)
  | replace => trivial
  | pass => exact Instance.Grounded.of_follows ground.loop
  | last => exact Instance.Grounded.of_follows ground.loop
  | clone => exact Instance.Grounded.of_follows ground.transform
  | chain => exact Instance.Grounded.of_follows ground.transform
  | @branch _ _ _ _ _ _ _ b =>
    cases b with
    | true => exact ground.branch.1
    | false => exact ground.branch.2
  | switch => exact ground.switch _

/-- Every task that a run comes to is grounded. -/
theorem Reaches.grounded (marked : t.grammar.Marked) {fuel start : Nat} {s u : Session σ α}
    {x : Task α} (reached : t.Reaches fuel start s x u) : x.Grounded := by
  induction reached with
  | globals => exact Instance.Grounded.of_follows rfl
  | start => trivial
  | next _ calls ih => exact calls.grounded marked ih

end Setting

/-! ### Coordinates that always follow -/

namespace Context

def following (c : Context σ α) : Context σ α :=
  { c with strategy := { c.strategy with ownCoordinates := false } }

def opUnder (c : Context σ α) (o : Path.Op α) (m : Affine α) : Action σ α Unit := do
  let args ← c.opArgs o
  buildWith o.operator.name fun p => p.append o.operator o.flags o.isCubic args m

variable (c : Context σ α)

/-- Nothing changes where a statement starts from the root's coordinates. -/
theorem startFrom_of_grounded {i : Instance α} {follows : Bool} {statements : List (Statement α)}
    (ground : i.Grounded follows statements) (opsOnly : Bool) :
    c.startFrom opsOnly follows i = i := by
  unfold startFrom
  split
  case isTrue own =>
    simp only [Bool.and_eq_true, Bool.not_eq_true'] at own
    rw [← (ground own.2).1]
  case isFalse => rfl

theorem op_of_grounded {i : Instance α} {follows : Bool} {statements : List (Statement α)}
    (ground : i.Grounded follows statements) (o : Path.Op α) :
    c.op o i follows = c.opUnder o i.transform := by
  unfold op opUnder
  cases follows with
  | true => rfl
  | false =>
    rw [(ground rfl).1]
    simp only [ite_self]

theorem startFrom_following (opsOnly follows : Bool) (i : Instance α) :
    c.following.startFrom opsOnly follows i = i := rfl

theorem evalArgs_following (args : List (Path.ArgName × Expr α)) (sofar : Path.Args α) :
    c.following.evalArgs args sofar = c.evalArgs args sofar := by
  induction args generalizing sofar with
  | nil => rfl
  | cons arg rest ih =>
    rw [evalArgs, evalArgs]
    exact congrArg _ (funext fun v => ih _)

theorem op_following (o : Path.Op α) (i : Instance α) (follows : Bool) :
    c.following.op o i follows = c.opUnder o i.transform := by
  have args : c.following.opArgs o = c.opArgs o := by
    unfold opArgs
    rw [evalArgs_following]
    rfl
  unfold op opUnder
  rw [args]
  simp only [following, Bool.not_false, Bool.or_true, if_true]

theorem bindArgs_following (params : List Param) (args : List (Expr α)) :
    c.following.bindArgs params args = c.bindArgs params args := by
  induction params generalizing args with
  | nil => rfl
  | cons p params ih =>
    cases args with
    | nil => rfl
    | cons e args =>
      rw [bindArgs, bindArgs, ih]
      rfl

theorem replace_following (h : Head α) (i : Instance α) :
    c.following.replace h i = c.replace h i := by
  unfold replace
  simp only [bindArgs_following]
  rfl

theorem passes_following (mods : Bundle α) (range : LoopRange α)
    (body : Instance α → List (Value α) → Action σ α Unit) (left done : Nat) (x : α)
    (i : Instance α) :
    c.following.passes mods range body left done x i = c.passes mods range body left done x i := by
  induction left generalizing done x i with
  | zero => rfl
  | succ left ih =>
    rw [passes, passes]
    simp only [ih]
    rfl

theorem drawCommands_following (i : Instance α) (uid : Nat) (p : Path.Compiled α)
    (commands : List (Path.Command α)) :
    c.following.drawCommands i uid p commands = c.drawCommands i uid p commands := by
  induction commands with
  | nil => rfl
  | cons command rest ih =>
    rw [drawCommands, drawCommands, ih]
    rfl

theorem loop_following {h : Head α} {spec : LoopSpec α} {body last : Body α} {i : Instance α}
    {follows follows' : Bool} (ground : i.Grounded follows [.loop h spec body last])
    (hbody : ∀ j inner seed,
      c.following.enterBody body j inner seed = c.enterBody body j true seed)
    (hlast : ∀ j inner seed,
      c.following.enterBody last j inner seed = c.enterBody last j true seed) :
    c.following.loop h spec (c.following.enterBody body) (c.following.enterBody last) i follows' =
      c.loop h spec (c.enterBody body) (c.enterBody last) i follows := by
  unfold loop
  simp only [ground.loop, hbody, hlast, passes_following, startFrom_following,
    c.startFrom_of_grounded ground]
  rfl

theorem transform_following {h : Head α} {spec : TransformSpec α} {body : Body α} {i : Instance α}
    {follows follows' : Bool} (ground : i.Grounded follows [.transform h spec body])
    (hbody : ∀ j inner seed,
      c.following.enterBody body j inner seed = c.enterBody body j true seed) :
    c.following.transform h spec (c.following.enterBody body) i follows' =
      c.transform h spec (c.enterBody body) i follows := by
  unfold transform
  simp only [ground.transform, hbody, startFrom_following, c.startFrom_of_grounded ground]
  rfl

theorem runAll_following {statements : List (Statement α)} {i : Instance α}
    {follows follows' : Bool}
    (hrun : ∀ st ∈ statements, c.following.run st i follows' = c.run st i follows) :
    c.following.runAll statements i follows' = c.runAll statements i follows := by
  induction statements with
  | nil => rfl
  | cons st rest ih =>
    rw [runAll, runAll, hrun st List.mem_cons_self,
      ih fun other mem => hrun other (List.mem_cons_of_mem _ mem)]

theorem enterBody_following_of {b : Body α} {i : Instance α} {follows follows' : Bool}
    {seed : List (Value α)}
    (hrun : ∀ st ∈ b.statements, c.following.run st i follows' = c.run st i follows) :
    c.following.enterBody b i follows' seed = c.enterBody b i follows seed := by
  obtain ⟨statements, params, slots⟩ := b
  rw [enterBody, enterBody, c.runAll_following hrun]

/-- A statement does what it does without knowing whether coordinates were taken
over. -/
theorem run_following (st : Statement α) : ∀ {i : Instance α} {follows : Bool} (follows' : Bool),
    i.Grounded follows [st] → c.following.run st i follows' = c.run st i follows := by
  induction st using Statement.induct (P := fun b => ∀ {i : Instance α} {follows : Bool}
    (follows' : Bool) (seed : List (Value α)), i.Grounded follows b.statements →
      c.following.enterBody b i follows' seed = c.enterBody b i follows seed) with
  | body b hrun follows' seed ground =>
    exact c.enterBody_following_of fun st mem => hrun st mem follows' (ground.single mem)
  | replace h =>
    intro i follows follows' _
    rw [run, run, replace_following]
  | loop h spec body last hbody hlast =>
    intro i follows follows' ground
    rw [run, run]
    -- Whatever the flag is outside a loop, it is set inside, so the bodies are grounded
    -- wherever the passes have led to.
    exact c.loop_following ground (fun _ inner seed => hbody inner seed (.of_follows rfl))
      fun _ inner seed => hlast inner seed (.of_follows rfl)
  | transform h spec body hbody =>
    intro i follows follows' ground
    rw [run, run]
    exact c.transform_following ground fun _ inner seed => hbody inner seed (.of_follows rfl)
  | branch h cond thenBody elseBody hthen helse =>
    intro i follows follows' ground
    rw [run, run, branch, branch, hthen follows' [] ground.branch.1,
      helse follows' [] ground.branch.2]
    rfl
  | switch h selector keys bodies default hbodies hdefault =>
    intro i follows follows' ground
    rw [run, run]
    simp only [case_enterAll]
    have selected : ∀ key,
        c.following.enterBody (Switch.case ⟨keys, bodies, default⟩ key) i follows' [] =
          c.enterBody (Switch.case ⟨keys, bodies, default⟩ key) i follows [] := by
      intro key
      have inside := ground.switch key
      rcases Switch.case_eq_default_or_mem ⟨keys, bodies, default⟩ key with same | mem
      · rw [same] at inside ⊢
        exact hdefault follows' [] inside
      · exact hbodies _ mem follows' [] inside
    simp only [selected]
    rfl
  | define h d =>
    intro i follows follows' _
    rw [run, run]
    rfl
  | op h o =>
    intro i follows follows' ground
    rw [run, run, op_following, c.op_of_grounded ground]
  | command h spec =>
    intro i follows follows' _
    rw [run, run]
    rfl

theorem enterBody_following {b : Body α} {i : Instance α} {follows : Bool} (follows' : Bool)
    (seed : List (Value α)) (ground : i.Grounded follows b.statements) :
    c.following.enterBody b i follows' seed = c.enterBody b i follows seed :=
  c.enterBody_following_of fun st mem => c.run_following st follows' (ground.single mem)

theorem pathRule_following {rule : Rule α} (marked : ∀ st ∈ rule.body.statements, st.Marked)
    (i : Instance α) :
    c.following.pathRule rule (c.following.enterBody rule.body) i =
      c.pathRule rule (c.enterBody rule.body) i := by
  have built : c.following.enterBody rule.body (.root rule.shape) false i.params =
      c.enterBody rule.body (.root rule.shape) false i.params :=
    c.enterBody_following false i.params fun _ => ⟨rfl, marked⟩
  have builds : buildPath rule (c.following.enterBody rule.body) i.params =
      buildPath rule (c.enterBody rule.body) i.params := by
    rw [buildPath, buildPath, built]
  unfold pathRule keptPath
  simp only [builds, drawCommands_following]
  rfl

theorem rule_following {shape : Shape α} {rule : Rule α}
    (marked : shape.isPath = true → ∀ st ∈ rule.body.statements, st.Marked) (i : Instance α) :
    c.following.rule shape rule (c.following.enterBody rule.body) i =
      c.rule shape rule (c.enterBody rule.body) i := by
  unfold Context.rule
  by_cases isPath : shape.isPath = true
  · simp only [isPath, if_true, c.pathRule_following (marked isPath)]
  · simp only [isPath, Bool.false_eq_true, if_false,
      c.enterBody_following true i.params (Instance.Grounded.of_follows rfl)]

end Context

theorem Attempt.bind_congr_ok {ε ω β γ : Type} {x : Attempt ε ω β} {f g : β → Attempt ε ω γ}
    (h : ∀ s b u, x.run s = .ok b u → f b = g b) : x >>= f = x >>= g := by
  ext s
  rw [run_bind, run_bind]
  cases ran : x.run s with
  | ok b u =>
    show (f b).run u = (g b).run u
    rw [h s b u ran]
  | failed e u => rfl

theorem Context.expandShape_following (c : Context σ α) (marked : c.grammar.Marked)
    (i : Instance α) : c.following.expandShape i = c.expandShape i := by
  unfold expandShape
  cases i.shape with
  | none => rfl
  | some index =>
    have grammar : c.following.grammar = c.grammar := rfl
    simp only [grammar]
    cases found : c.grammar.shapes[index]? with
    | none => rfl
    | some shape =>
      have rules : (selectRule shape >>= fun rule =>
          c.following.rule shape rule (c.following.enterBody rule.body) i) =
          selectRule shape >>= fun rule => c.rule shape rule (c.enterBody rule.body) i := by
        apply Attempt.bind_congr_ok
        intro s rule u ran
        obtain ⟨j, taken⟩ := mem_of_selectRule ran
        apply c.rule_following
        exact fun isPath => marked index j shape rule found isPath taken
      simp only [rules]
      rfl

namespace Setting

def following (t : Setting σ α) : Setting σ α :=
  { t with strategy := { t.strategy with ownCoordinates := false } }

section Marked

variable (t : Setting σ α) (marked : t.grammar.Marked)

include marked

theorem expand_following (fuel : Nat) : t.following.expand fuel = t.expand fuel := by
  induction fuel with
  | zero => rfl
  | succ fuel ih =>
    funext i
    rw [expand, expand, ih]
    exact (t.level fuel).expandShape_following marked i

theorem runFrom_following (fuel : Nat) (start : Shape α) :
    t.following.runFrom fuel start = t.runFrom fuel start := by
  have globals : (t.level fuel).following.runAll t.grammar.globals.statements (.root start.index)
      true = (t.level fuel).runAll t.grammar.globals.statements (.root start.index) true := by
    apply Context.runAll_following
    exact fun st _ => Context.run_following _ st true (Instance.Grounded.of_follows rfl)
  unfold runFrom
  rw [expand_following t marked]
  exact congrArg (· >>= _) globals

/-- A run is the same whether or not coordinates are kept apart. -/
theorem run_following (fuel start : Nat) : t.following.run fuel start = t.run fuel start := by
  unfold run
  simp only [runFrom_following t marked]
  rfl

end Marked

/-- No notice is taken of whether coordinates were taken over. -/
theorem level_following_run (t : Setting σ α) (fuel : Nat) (st : Statement α) (i : Instance α)
    (follows : Bool) :
    (t.following.level fuel).run st i follows = (t.following.level fuel).run st i true := by
  have every : ∀ follows', (t.following.level fuel).following.run st i follows' =
      (t.following.level fuel).run st i true := fun follows' =>
    Context.run_following _ st follows' (Instance.Grounded.of_follows rfl)
  exact every follows

/-- In a run of a loaded grammar, coordinates that nothing took over are those of the
root. So an operator is put down where its instance is, and a loop or transform starts
from its instance as it is. The run is the one in which coordinates follow every
instance, which does not ask whether they were taken over, whatever the renderer keeps
of the calls it gets. -/
theorem coordinates_always_follow {d : Draft α} {g : Grammar α} (flagged : d.Flagged)
    (built : d.build = .ok g) (r : Renderer σ α) (options : Options) :
    let t := standard g r options
    (∀ (fuel start n : Nat) (s u : Session σ α) (st : Statement α) (i : Instance α)
        (follows : Bool), t.Reaches fuel start s (.run n st i follows) u →
      (follows = false → i.transform = .identity) ∧
      (∀ opsOnly, (t.level n).startFrom opsOnly follows i = i) ∧
      ∀ h o, st = .op h o → (t.level n).run st i follows = (t.level n).opUnder o i.transform) ∧
    (∀ (n : Nat) (st : Statement α) (i : Instance α) (follows : Bool),
      (t.following.level n).run st i follows = (t.following.level n).run st i true) ∧
    ∀ fuel start, t.following.run fuel start = t.run fuel start := by
  intro t
  have marked : t.grammar.Marked := flagged.marked built
  refine ⟨?_, t.level_following_run, t.run_following marked⟩
  intro fuel start n s u st i follows reached
  have ground : i.Grounded follows [st] := reached.grounded marked
  refine ⟨fun own => (ground own).1, (t.level n).startFrom_of_grounded ground, ?_⟩
  intro h o same
  rw [same, Context.run]
  exact (t.level n).op_of_grounded ground o

end Setting

/-! ### A loop that takes them over -/

namespace Sample

def wedgeShape : Shape Rat := ringDraft.resolved.shapes[0]

def wedgeRule : Rule Rat := wedgeShape.rules[0]

def wedgeRoot : Instance Rat := .root wedgeShape.index

def wedgeGlobals : Outcome Stop (Session (Unit × Array (Call Rat)) Rat) Unit :=
  ((ringSetting.level 9).runAll ringSetting.grammar.globals.statements wedgeRoot true).run
    (ringSetting.ready wedgeShape ringSession)

def wedgeStart : Session (Unit × Array (Call Rat)) Rat :=
  { wedgeGlobals.state with globalsEnd := wedgeGlobals.state.stack.height }

def wedgeBegun : Session (Unit × Array (Call Rat)) Rat :=
  { wedgeStart with
    depth := wedgeStart.depth + 1
    renderer := (silent.traced.cutoff wedgeRoot (wedgeStart.depth + 1) wedgeStart.renderer).2
    view := .rule wedgeStart.stack.height (some wedgeStart.globalsEnd) }

def wedgeFramed : Session (Unit × Array (Call Rat)) Rat :=
  { wedgeBegun.opening with stack := wedgeBegun.opening.stack.pushFrame }

def wedgeEdges : Statement Rat := wedgeRule.body.statements[2]

def wedgeTipped : Outcome Stop (Session (Unit × Array (Call Rat)) Rat) Unit :=
  ((ringSetting.level 8).run wedgeRule.body.statements[0] wedgeRoot false).run wedgeFramed

def wedgeMoved : Outcome Stop (Session (Unit × Array (Call Rat)) Rat) Unit :=
  ((ringSetting.level 8).run wedgeRule.body.statements[1] wedgeRoot false).run wedgeTipped.state

theorem wedge_reached : ringSetting.Reaches 9 0 ringSession (.run 8 wedgeEdges wedgeRoot false)
    wedgeMoved.state := by
  have size : wedgeGlobals.state.stack.frameSize = ringSetting.grammar.globals.slots := by
    decide +kernel
  have bound : wedgeGlobals = .ok () wedgeGlobals.state := Outcome.eq_ok_state (by decide +kernel)
  have found : ringSetting.grammar.shapes[0]? = some wedgeShape := rfl
  have start : ringSetting.Reaches 9 0 ringSession (.expand 9 wedgeRoot) wedgeStart :=
    .start found rfl bound size
  have takes : (ringSetting.level 8).Takes wedgeRoot wedgeStart wedgeShape wedgeRule wedgeBegun :=
    ⟨0, { wedgeBegun with depth := wedgeStart.depth, view := wedgeStart.view },
      { wedgeBegun with view := wedgeStart.view }, rfl, rfl, rfl, rfl, rfl⟩
  have framed : (Action.bindParams wedgeRule.body.params wedgeRoot.params).run wedgeFramed =
    .ok () wedgeFramed := rfl
  have body : ringSetting.Reaches 9 0 ringSession (.runAll 8 (wedgeRule.body.statements[0] ::
      wedgeRule.body.statements[1] :: wedgeEdges :: wedgeRule.body.statements.drop 3) wedgeRoot
      false) wedgeFramed :=
    .next (.next start (.path takes rfl rfl fun _ _ => rfl)) (.body rfl framed)
  have tipped : wedgeTipped = .ok () wedgeTipped.state := Outcome.eq_ok_state (by decide +kernel)
  have moved : wedgeMoved = .ok () wedgeMoved.state := Outcome.eq_ok_state (by decide +kernel)
  exact .next (.next (.next body (.tail tipped)) (.tail moved)) .head

end Sample

theorem Setting.coordinates_always_follow_wedge :
    Sample.ringDraft.Flagged ∧ Sample.ringDraft.build = .ok Sample.ringDraft.resolved ∧
      Sample.ringSetting.Reaches 9 0 Sample.ringSession
        (.run 8 Sample.wedgeEdges Sample.wedgeRoot false) Sample.wedgeMoved.state ∧
      Sample.wedgeRoot.transform = .identity ∧
      (∀ opsOnly, (Sample.ringSetting.level 8).startFrom opsOnly false Sample.wedgeRoot =
        Sample.wedgeRoot) ∧
      ∀ fuel start, Sample.ringSetting.following.run fuel start =
        Sample.ringSetting.run fuel start := by
  have flagged := Sample.ringDraft_drafted.flagged
  obtain ⟨reached, -, runs⟩ := coordinates_always_follow flagged Sample.ringDraft_build
    Sample.silent.traced Sample.options
  obtain ⟨ground, starts, -⟩ := reached _ _ _ _ _ _ _ _ Sample.wedge_reached
  exact ⟨flagged, Sample.ringDraft_build, Sample.wedge_reached, ground rfl, starts, runs⟩

end ShapeGrammar
