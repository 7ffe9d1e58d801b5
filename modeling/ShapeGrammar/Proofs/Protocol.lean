import ShapeGrammar.Proofs.Course
import ShapeGrammar.Proofs.Legacy

/-!
# What a renderer is told

Whatever a renderer answers, a run calls on it in an order that a small language
describes: every instance is asked about before anything is drawn for it, the
depth tells how far it is nested, and nothing at all comes after an abort. A run
that ends well says a whole word of the language, and any other run breaks off
in the middle of one.
-/

set_option autoImplicit false

namespace ShapeGrammar

open Attempt

variable {σ α β : Type}

/-! ### The language -/

def Call.isPath : Call α → Bool
  | .path _ _ _ _ => true
  | _ => false

def Call.isAbort : Call α → Bool
  | .cutoff _ _ .abort => true
  | _ => false

def Grammar.shapeOf (g : Grammar α) (i : Instance α) : Option (Shape α) :=
  i.shape.bind fun index => g.shapes[index]?

inductive Phrase where
  | expansion (depth : Nat)
  | primitive (depth : Nat)
  /-- Expansions and primitives one after the other. -/
  | parts (depth : Nat)

/-- The calls that may make up a phrase. -/
inductive Grammar.Word (g : Grammar α) : Phrase → List (Call α) → Prop
  | expansionSkipped (i : Instance α) (depth : Nat) :
      Word g (.expansion depth) [.cutoff i depth .skip]
  | path {i : Instance α} {depth : Nat} {shape : Shape α} {draws : List (Call α)}
      (found : g.shapeOf i = some shape) (isPath : shape.isPath = true) (some : draws ≠ [])
      (all : ∀ call ∈ draws, call.isPath = true) :
      Word g (.expansion depth) (.cutoff i depth .expand :: draws)
  | body {i : Instance α} {depth : Nat} {shape : Shape α} {parts : List (Call α)}
      (found : g.shapeOf i = some shape) (isPath : shape.isPath = false)
      (inside : Word g (.parts (depth + 1)) parts) :
      Word g (.expansion depth) (.cutoff i depth .expand :: parts)
  | primitiveSkipped (i : Instance α) (depth : Nat) :
      Word g (.primitive depth) [.cutoff i depth .skip]
  | primitive (i : Instance α) (depth : Nat) (p : Primitive) :
      Word g (.primitive depth) [.cutoff i depth .expand, .primitive i p]
  | nothing (depth : Nat) : Word g (.parts depth) []
  | addExpansion {depth : Nat} {before last : List (Call α)}
      (earlier : Word g (.parts depth) before)
      (word : Word g (.expansion depth) last) : Word g (.parts depth) (before ++ last)
  | addPrimitive {depth : Nat} {before last : List (Call α)}
      (earlier : Word g (.parts depth) before)
      (word : Word g (.primitive depth) last) : Word g (.parts depth) (before ++ last)

/-- An abort is never part of a word. -/
theorem Grammar.Word.not_abort {g : Grammar α} {phrase : Phrase} {word : List (Call α)}
    (h : g.Word phrase word) : ∀ call ∈ word, call.isAbort = false := by
  induction h with
  | expansionSkipped i depth => simp [Call.isAbort]
  | path found isPath some all =>
    refine List.forall_mem_cons.mpr ⟨rfl, fun call hcall => ?_⟩
    have drawn := all call hcall
    cases call with
    | path => rfl
    | cutoff => cases drawn
    | primitive => cases drawn
  | body found isPath inside ih => exact List.forall_mem_cons.mpr ⟨rfl, ih⟩
  | primitiveSkipped i depth => simp [Call.isAbort]
  | primitive i depth p => simp [Call.isAbort]
  | nothing depth => simp
  | addExpansion earlier word before last => exact List.forall_mem_append.mpr ⟨before, last⟩
  | addPrimitive earlier word before last => exact List.forall_mem_append.mpr ⟨before, last⟩

def Begun (L : List (Call α) → Prop) (calls : List (Call α)) : Prop :=
  ∃ word, L word ∧ calls <+: word

/-- Calls that were broken off in the middle of a word, and the reason for it. -/
inductive BrokenOff (L : List (Call α) → Prop) : Stop → List (Call α) → Prop
  | abort {calls : List (Call α)} (begun : Begun L calls) (i : Instance α) (depth : Nat) :
      BrokenOff L (.fault .aborted) (calls ++ [.cutoff i depth .abort])
  | other {e : Stop} {calls : List (Call α)} (reason : e ≠ .fault .aborted)
      (begun : Begun L calls) : BrokenOff L e calls

section Begun

variable {L L' : List (Call α) → Prop} {before calls : List (Call α)}

theorem Begun.of_word (h : L calls) : Begun L calls := ⟨calls, h, List.prefix_rfl⟩

theorem Begun.inside (h : Begun L calls) (join : ∀ word, L word → Begun L' (before ++ word)) :
    Begun L' (before ++ calls) := by
  obtain ⟨word, hword, start⟩ := h
  obtain ⟨whole, hwhole, start'⟩ := join word hword
  exact ⟨whole, hwhole, ((List.prefix_append_right_inj before).mpr start).trans start'⟩

theorem BrokenOff.inside {e : Stop} (h : BrokenOff L e calls)
    (join : ∀ word, L word → Begun L' (before ++ word)) : BrokenOff L' e (before ++ calls) := by
  cases h with
  | abort begun i depth =>
    rw [← List.append_assoc]
    exact .abort (begun.inside join) i depth
  | other reason begun => exact .other reason (begun.inside join)

end Begun

theorem Begun.not_abort {g : Grammar α} {phrase : Phrase} {calls : List (Call α)}
    (h : Begun (g.Word phrase) calls) : ∀ call ∈ calls, call.isAbort = false := by
  obtain ⟨word, hword, start⟩ := h
  exact fun call hcall => hword.not_abort call (start.subset hcall)

/-- Nothing is said after an abort. -/
theorem BrokenOff.abort_last {g : Grammar α} {phrase : Phrase} {e : Stop}
    {before after : List (Call α)} {i : Instance α} {depth : Nat}
    (h : BrokenOff (g.Word phrase) e (before ++ .cutoff i depth .abort :: after)) :
    after = [] ∧ e = .fault .aborted := by
  generalize hcalls : before ++ .cutoff i depth .abort :: after = calls at h
  cases h with
  | abort begun j depth' =>
    refine ⟨?_, rfl⟩
    rcases List.eq_nil_or_concat after with none | ⟨front, last, rfl⟩
    · exact none
    · -- The calls before the last one are the beginning of a word.
      rw [List.concat_eq_append, ← List.cons_append, ← List.append_assoc] at hcalls
      obtain ⟨rfl, -⟩ := List.append_inj' hcalls rfl
      have fine := begun.not_abort (.cutoff i depth .abort) (by simp)
      cases fine
  | other reason begun =>
    subst hcalls
    have fine := begun.not_abort (.cutoff i depth .abort) (by simp)
    cases fine

/-- What a renderer can rely on in a run that ends so. -/
structure Grammar.Protocol {ω : Type} (g : Grammar α) (calls : List (Call α))
    (o : Outcome Stop ω Unit) : Prop where
  /-- A run that ends well says a whole word. -/
  whole : ∀ t, o = .ok () t → g.Word (.expansion 1) calls
  /-- Any run says the beginning of a word, less a last question answered by an abort. -/
  begun : ∃ before, Begun (g.Word (.expansion 1)) before ∧
    (calls = before ∨ ∃ i depth, calls = before ++ [.cutoff i depth .abort])
  /-- An abort ends the run. -/
  last : ∀ before i depth after, calls = before ++ .cutoff i depth .abort :: after →
    after = [] ∧ ∃ t, o = .failed (.fault .aborted) t
  /-- Nothing else ends it as an abort does. -/
  aborted : ∀ t, o = .failed (.fault .aborted) t →
    ∃ before i depth, calls = before ++ [.cutoff i depth .abort]

theorem Grammar.Word.protocol {ω : Type} {g : Grammar α} {calls : List (Call α)}
    (h : g.Word (.expansion 1) calls) (t : ω) : g.Protocol calls (.ok () t) where
  whole _ _ := h
  begun := ⟨calls, .of_word h, .inl rfl⟩
  last before i depth after same := by
    have fine := h.not_abort (.cutoff i depth .abort) (by simp [same])
    cases fine
  aborted := nofun

theorem BrokenOff.protocol {ω : Type} {g : Grammar α} {e : Stop} {calls : List (Call α)}
    (h : BrokenOff (g.Word (.expansion 1)) e calls) (t : ω) : g.Protocol calls (.failed e t) where
  whole := nofun
  begun := by
    cases h with
    | abort begun i depth => exact ⟨_, begun, .inr ⟨i, depth, rfl⟩⟩
    | other _ begun => exact ⟨_, begun, .inl rfl⟩
  last before i depth after same := by
    subst same
    obtain ⟨none, rfl⟩ := h.abort_last
    exact ⟨none, t, rfl⟩
  aborted u same := by
    cases same
    cases h with
    | abort begun i depth => exact ⟨_, i, depth, rfl⟩
    | other reason => exact absurd rfl reason

/-! ### Renderers that keep a log -/

structure Renderer.Logs (r : Renderer σ α) (log : σ → List (Call α) → Prop) : Prop where
  cutoff : ∀ i depth s calls, log s calls →
    log (r.cutoff i depth s).2 (calls ++ [.cutoff i depth (r.cutoff i depth s).1])
  drawPrimitive : ∀ i p s calls, log s calls →
    log (r.drawPrimitive i p s) (calls ++ [.primitive i p])
  drawPath : ∀ i uid p command s calls, log s calls →
    log (r.drawPath i uid p command s) (calls ++ [.path i uid p command])

theorem Renderer.logs_traced (r : Renderer σ α) :
    r.traced.Logs fun s calls => s.2.toList = calls where
  cutoff i depth s calls h := by simp [traced, h]
  drawPrimitive i p s calls h := by simp [traced, h]
  drawPath i uid p command s calls h := by simp [traced, h]

theorem Renderer.Logs.drawAll [Scalar α] {r : Renderer σ α} {log : σ → List (Call α) → Prop}
    (h : r.Logs log) (i : Instance α) (uid : Nat) (p : Path.Compiled α)
    (commands : List (Path.Command α)) {s : σ} {calls : List (Call α)} (logged : log s calls) :
    log (r.drawAll i uid p commands s)
      (calls ++ commands.map fun command => .path (i.apply command.adjust) uid p command) := by
  induction commands generalizing s calls with
  | nil =>
    rw [List.map_nil, List.append_nil]
    exact logged
  | cons command rest ih =>
    rw [List.map_cons, List.append_cons]
    exact ih (h.drawPath _ uid p command s calls logged)

/-- The phrase that an action is to say, and what was said before it. -/
structure Speech (σ α : Type) where
  log : σ → List (Call α) → Prop
  earlier : List (Call α)
  phrase : List (Call α) → Prop
  depth : Nat

namespace Speech

structure Said (t : Speech σ α) (P : List (Call α) → Prop) (b : Backdrop σ α) : Prop where
  depth : b.depth = t.depth
  drawn : ∀ place p, b.paths.lookup place = some p → p.allCommands ≠ []
  calls : ∃ word, P word ∧ t.log b.renderer (t.earlier ++ word)

structure CutShort (t : Speech σ α) (e : Stop) (b : Backdrop σ α) : Prop where
  drawn : ∀ place p, b.paths.lookup place = some p → p.allCommands ≠ []
  calls : ∃ word, BrokenOff t.phrase e word ∧ t.log b.renderer (t.earlier ++ word)

/-- From the calls of `P` the action comes to those of `Q`, or it breaks off. -/
abbrev Tells (t : Speech σ α) (P Q : List (Call α) → Prop) (x : Action σ α β) : Prop :=
  Leads (single fun e s => t.CutShort e s.backdrop) (Twice fun s => t.Said P s.backdrop)
    (Twice fun s => t.Said Q s.backdrop) Eq x x

variable {t : Speech σ α} {P P' Q Q' : List (Call α) → Prop}

theorem Said.imp {b : Backdrop σ α} (h : t.Said P b) (imp : ∀ word, P word → Q word) :
    t.Said Q b := by
  obtain ⟨word, hword, logged⟩ := h.calls
  exact ⟨h.depth, h.drawn, word, imp word hword, logged⟩

theorem Said.cutShort {b : Backdrop σ α} (h : t.Said P b)
    (begun : ∀ word, P word → Begun t.phrase word) {e : Stop} (he : e ≠ .fault .aborted) :
    t.CutShort e b := by
  obtain ⟨word, hword, logged⟩ := h.calls
  exact ⟨h.drawn, word, .other he (begun word hword), logged⟩

theorem Tells.imp {x : Action σ α β} (h : t.Tells P Q x) (before : ∀ word, P' word → P word)
    (after : ∀ word, Q word → Q' word) : t.Tells P' Q' x :=
  Leads.weaken h (.refl _) (fun _ _ said => ⟨said.1, said.2.imp before⟩)
    fun _ _ said => ⟨said.1, said.2.imp after⟩

theorem tells_fail {e : Stop} (he : e ≠ .fault .aborted)
    (begun : ∀ word, P word → Begun t.phrase word) :
    t.Tells P Q (Attempt.fail e : Action σ α β) :=
  Leads.fail fun _ _ ⟨same, said⟩ => ⟨rfl, same, said.cutShort begun he⟩

theorem Tells.deeper {x : Action σ α β} (h : Tells { t with depth := t.depth + 1 } P Q x) :
    t.Tells P Q (Action.deeper x) := by
  refine Leads.wrap h (Action.wraps_deeper x) (Action.wraps_deeper x) ?_ ?_ ?_ fun _ => id
  · rintro s _ ⟨rfl, said⟩
    exact ⟨rfl, congrArg (· + 1) said.depth, said.drawn, said.calls⟩
  · rintro s _ u _ - ⟨rfl, said⟩
    exact ⟨rfl, congrArg (· - 1) said.depth, said.drawn, said.calls⟩
  · rintro s _ e _ u _ - ⟨rfl, rfl, cut⟩
    exact ⟨rfl, rfl, cut.drawn, cut.calls⟩

theorem Tells.wrap {before : Session σ α → Session σ α}
    {after : Session σ α → Session σ α → Session σ α} {w x : Action σ α β} (h : t.Tells P Q x)
    (hw : Wraps before after w x) (enter : ∀ s, (before s).backdrop = s.backdrop)
    (leave : ∀ s u, (after s u).backdrop = u.backdrop) : t.Tells P Q w := by
  refine Leads.wrap h hw hw ?_ ?_ ?_ fun _ => id
  · rintro s _ ⟨rfl, said⟩
    exact ⟨rfl, show t.Said P (before s).backdrop from (enter s).symm ▸ said⟩
  · rintro s _ u _ ⟨rfl, -⟩ ⟨rfl, said⟩
    exact ⟨rfl, show t.Said Q (after s u).backdrop from (leave s u).symm ▸ said⟩
  · rintro s _ e _ u _ ⟨rfl, -⟩ ⟨rfl, rfl, cut⟩
    exact ⟨rfl, rfl, show t.CutShort e (after s u).backdrop from (leave s u).symm ▸ cut⟩

/-- An action that says a phrase of its own, whatever was said before. -/
def Speaks (log : σ → List (Call α) → Prop) (L : List (Call α) → Prop) (depth : Nat)
    (x : Action σ α β) : Prop :=
  ∀ earlier, Tells ⟨log, earlier, L, depth⟩ (· = []) L x

theorem Speaks.tells {L : List (Call α) → Prop} {x : Action σ α β} (h : Speaks t.log L t.depth x)
    (join : ∀ before word, P before → L word → Q (before ++ word))
    (begun : ∀ word, Q word → Begun t.phrase word) : t.Tells P Q x := by
  refine leads_single_iff.mpr fun s said => ?_
  obtain ⟨before, hbefore, logged⟩ := said.calls
  -- To the inner phrase, all that the outer one has said so far came earlier.
  have start : Said ⟨t.log, t.earlier ++ before, L, t.depth⟩ (· = []) s.backdrop :=
    ⟨said.depth, said.drawn, [], rfl, by simpa using logged⟩
  have ends := leads_single_iff.mp (h (t.earlier ++ before)) s start
  refine ends.imp (fun u hu => ?_) fun e u hu => ?_
  · obtain ⟨word, hword, logged⟩ := hu.calls
    exact ⟨hu.depth, hu.drawn, before ++ word, join before word hbefore hword,
      by simpa using logged⟩
  · obtain ⟨word, broken, logged⟩ := hu.calls
    refine ⟨hu.drawn, before ++ word, ?_, by simpa using logged⟩
    exact broken.inside fun word hword => begun _ (join before word hbefore hword)

variable [Scalar α]

def course (t : Speech σ α) (P : List (Call α) → Prop)
    (begun : ∀ word, P word → Begun t.phrase word) : Course σ α where
  holds := t.Said P
  ends := t.CutShort
  may e := e ≠ .fault .aborted
  fails _ _ he said := said.cutShort begun he
  fuel := nofun
  evaluation _ := nofun
  taken _ _ := nofun
  range _ _ _ _ := nofun

theorem course_free (begun : ∀ word, P word → Begun t.phrase word) : (t.course P begun).Free where
  may _ := id
  building _ _ said := ⟨said.depth, said.drawn, said.calls⟩
  nextUid _ _ said := ⟨said.depth, said.drawn, said.calls⟩
  failing _ _ _ cut := ⟨cut.drawn, cut.calls⟩

end Speech

/-! ### What is said of an instance -/

/-- A path that was finished has something to draw. -/
theorem Path.Compiled.allCommands_finished [Scalar α] (p : Path.Compiled α) (uid : Nat)
    (h : p.complete = false) : ({ p.sealed with uid := some uid }).allCommands ≠ [] := by
  unfold allCommands sealed
  simp only [h, Bool.false_eq_true, if_false]
  split
  · simp
  case isFalse covered =>
    have commands : p.commands ≠ [] := by
      intro none
      simp [none] at covered
    simp [commands]

theorem Context.tells_consult {c : Context σ α} {t : Speech σ α} (logs : c.renderer.Logs t.log)
    {Q : List (Call α) → Prop} {i : Instance α} {draw : Action σ α Unit}
    (begun : Begun t.phrase []) (skipped : Q [.cutoff i (t.depth + 1) .skip])
    (admitted : t.Tells (· = [.cutoff i (t.depth + 1) .expand]) Q draw) :
    t.Tells (· = []) Q (do if ← c.consult i then draw) := by
  rintro s _ ⟨rfl, said⟩
  obtain ⟨_, rfl, logged⟩ := said.calls
  have asked := logs.cutoff i (s.depth + 1) s.renderer _ logged
  have depth : s.depth = t.depth := said.depth
  simp only [run_bind, consult]
  generalize c.renderer.cutoff i (s.depth + 1) s.renderer = answer at asked ⊢
  obtain ⟨verdict, r⟩ := answer
  simp only [depth, List.append_nil] at asked
  cases verdict with
  | expand => exact admitted _ _ ⟨rfl, said.depth, said.drawn, _, rfl, asked⟩
  | skip => exact .ok rfl ⟨rfl, said.depth, said.drawn, _, skipped, asked⟩
  | abort => exact .together ⟨rfl, rfl, said.drawn, _, .abort begun i _, asked⟩

variable [Scalar α]

structure Context.Speaks (c : Context σ α) (g : Grammar α) (log : σ → List (Call α) → Prop) :
    Prop where
  grammar : c.grammar = g
  logs : c.renderer.Logs log
  keeps : c.Keeps
  env : ∀ k : Course σ α, k.OfEnv c.env
  expand : ∀ i depth, Speech.Speaks log (g.Word (.expansion (depth + 1))) depth (c.expand i)

namespace Context

variable {c : Context σ α} {g : Grammar α} {t : Speech σ α}

theorem tells_drawCommands (logs : c.renderer.Logs t.log) (i : Instance α) (uid : Nat)
    (p : Path.Compiled α) (commands : List (Path.Command α)) (before : List (Call α)) :
    t.Tells (· = before)
      (· = before ++ commands.map fun command => .path (i.apply command.adjust) uid p command)
      (c.drawCommands i uid p commands) := by
  rw [drawCommands_eq]
  refine Leads.update ?_
  rintro s _ ⟨rfl, said⟩
  obtain ⟨_, rfl, logged⟩ := said.calls
  refine ⟨rfl, said.depth, said.drawn, _, rfl, ?_⟩
  rw [← List.append_assoc]
  exact logs.drawAll i uid p commands logged

theorem Speaks.primitive (h : c.Speaks g t.log) (child : Instance α) (p : Primitive) (depth : Nat) :
    Speech.Speaks t.log (g.Word (.primitive (depth + 1))) depth (do
      if ← c.consult child then
        Attempt.update fun s =>
          { s with renderer := c.renderer.drawPrimitive child p s.renderer }) := by
  intro earlier
  have skipped := Grammar.Word.primitiveSkipped (g := g) child (depth + 1)
  refine tells_consult (t := ⟨t.log, earlier, _, depth⟩) h.logs ⟨_, skipped, List.nil_prefix⟩
    skipped (Leads.update ?_)
  rintro s _ ⟨rfl, said⟩
  obtain ⟨_, rfl, logged⟩ := said.calls
  have drawn := h.logs.drawPrimitive child p _ _ logged
  rw [List.append_assoc] at drawn
  exact ⟨rfl, said.depth, said.drawn, _, .primitive child _ p, drawn⟩

/-- A replacement adds an expansion or a primitive to what was said, or nothing. -/
theorem Speaks.replace (h : c.Speaks g t.log) {P : List (Call α) → Prop}
    (begun : ∀ word, P word → Begun t.phrase word)
    (expansion : ∀ before word, P before → g.Word (.expansion (t.depth + 1)) word →
      P (before ++ word))
    (primitive : ∀ before word, P before → g.Word (.primitive (t.depth + 1)) word →
      P (before ++ word)) (head : Head α) (parent : Instance α) :
    (t.course P begun).Stays (c.replace head parent) := by
  unfold Context.replace
  split
  · exact Leads.pure rfl
  · refine ((h.env _).adjust parent head.mods).andThen fun child => ?_
    exact (h.primitive _ _ t.depth).tells primitive begun
  · split
    · exact Course.stays_fail ((Speech.course_free begun).may _ nofun)
    · refine ((h.env _).adjust parent head.mods).andThen fun child => ?_
      split
      · exact Course.stays_fail ((Speech.course_free begun).may _ nofun)
      case isFalse shape _ length =>
        refine Leads.bind (bindArgs_inStep (h.env (t.course P begun)).free shape.params head.args
          (fun _ _ _ _ => trivial) (Decidable.not_not.mp length)) ?_
        rintro values _ ⟨rfl, -⟩
        exact (h.expand _ t.depth).tells expansion begun

/-- A rule of a path says nothing while the path is built, and then every command. -/
theorem Speaks.pathRule (h : c.Speaks g t.log) {rule : Rule α} (suits : rule.body.yield.Suits true)
    {before : List (Call α)} (begun : Begun t.phrase before) {Q : List (Call α) → Prop}
    (draws : ∀ calls, calls ≠ [] → (∀ call ∈ calls, call.isPath = true) → Q (before ++ calls))
    (i : Instance α) : t.Tells (· = before) Q (c.pathRule rule (c.enterBody rule.body) i) := by
  have begun : ∀ word, word = before → Begun t.phrase word := fun _ same => same ▸ begun
  have free := t.course_free begun
  have build := free.builds.buildPath (K := fun p => p.allCommands ≠ [])
    Path.Compiled.allCommands_finished rule
    (h.keeps.enterBody rule.body (.root rule.shape) false i.params)
    (free.pliant.enterBody (h.env _) h.keeps (.inr suits) (.root rule.shape) false i.params)
  refine Leads.bind (Course.gives_keptPath (k := t.course (· = before) begun)
    (fun _ place p said => said.drawn place p)
    (fun _ _ _ said drawn => ⟨said.depth, Path.Compiled.kept_cons said.drawn drawn, said.calls⟩)
    rule build) ?_
  rintro p _ ⟨rfl, drawn⟩
  cases hp : p.identity with
  | error what => exact Speech.tells_fail nofun begun
  | ok uid =>
    refine (tells_drawCommands h.logs i uid p p.allCommands before).imp (fun _ => id) ?_
    rintro _ rfl
    refine draws _ (by simpa using drawn) fun call hcall => ?_
    obtain ⟨command, -, rfl⟩ := List.mem_map.mp hcall
    rfl

/-- Any other rule says what its replacements say. -/
theorem Speaks.bodyRule (h : c.Speaks g t.log) {before : List (Call α)} {Q : List (Call α) → Prop}
    (begun : ∀ word, Q word → Begun t.phrase word)
    (parts : ∀ calls, g.Word (.parts (t.depth + 1)) calls → Q (before ++ calls)) (b : Body α)
    (i : Instance α) (seed : List (Value α)) :
    t.Tells (· = before) Q (c.enterBody b i true seed) := by
  let P (word : List (Call α)) : Prop :=
    ∃ calls, g.Word (.parts (t.depth + 1)) calls ∧ word = before ++ calls
  have said : ∀ word, P word → Q word := by
    rintro _ ⟨calls, hcalls, rfl⟩
    exact parts calls hcalls
  have begun : ∀ word, P word → Begun t.phrase word :=
    fun word hword => begun word (said word hword)
  have replace : ∀ head parent, (t.course P begun).Stays (c.replace head parent) := by
    refine h.replace begun ?_ ?_
    · rintro _ word ⟨calls, hcalls, rfl⟩ hword
      exact ⟨calls ++ word, hcalls.addExpansion hword, List.append_assoc _ _ _⟩
    · rintro _ word ⟨calls, hcalls, rfl⟩ hword
      exact ⟨calls ++ word, hcalls.addPrimitive hword, List.append_assoc _ _ _⟩
  have stays := (t.course_free begun).pliant.enterBody (h.env _) h.keeps (b := b) (.inl replace) i true
    seed
  refine Speech.Tells.imp stays ?_ said
  rintro _ rfl
  exact ⟨[], .nothing _, (List.append_nil _).symm⟩

end Context

/-! ### Loaded grammars -/

/-- An instance that was admitted has something said of it. -/
theorem Grammar.Word.begun_admitted {g : Grammar α} {i : Instance α} {shape : Shape α}
    (found : g.shapeOf i = some shape) (depth : Nat) :
    Begun (g.Word (.expansion depth)) [.cutoff i depth .expand] := by
  cases isPath : shape.isPath with
  | true =>
    let draw : Call α := .path i 0 (.empty .detached) (.fill 0 0)
    have word : g.Word (.expansion depth) [.cutoff i depth .expand, draw] :=
      .path found isPath (List.cons_ne_nil _ _) (by simp [draw, Call.isPath])
    exact ⟨_, word, [draw], rfl⟩
  | false => exact .of_word (.body found isPath (.nothing _))

section Loaded

variable {d : Draft α} {g : Grammar α} (drafted : d.Drafted) (built : d.build = .ok g)

include drafted built

/-- An instance is asked about first, and what follows is one level deeper. -/
theorem Context.Speaks.expandShape {c : Context σ α} {log : σ → List (Call α) → Prop}
    (h : c.Speaks g log) (i : Instance α) (depth : Nat) :
    Speech.Speaks log (g.Word (.expansion (depth + 1))) depth (c.expandShape i) := by
  intro earlier
  let t : Speech σ α := ⟨log, earlier, g.Word (.expansion (depth + 1)), depth⟩
  have skipped : t.phrase [.cutoff i (depth + 1) .skip] := .expansionSkipped i _
  have start : Begun t.phrase [] := ⟨_, skipped, List.nil_prefix⟩
  unfold Context.expandShape
  split
  · exact Speech.tells_fail nofun fun _ same => same ▸ start
  case h_2 index hindex =>
    split
    · exact Speech.tells_fail nofun fun _ same => same ▸ start
    case h_2 shape found =>
      rw [h.grammar] at found
      have shapeOf : g.shapeOf i = some shape := by simp [Grammar.shapeOf, hindex, found]
      -- No rule may be found, or its body may fail, before anything else is said.
      have begun := Grammar.Word.begun_admitted shapeOf (depth + 1)
      refine Context.tells_consult (t := t) h.logs start skipped (Speech.Tells.deeper ?_)
      refine Leads.bind ((Speech.course_free fun _ same => same ▸ begun).pliant.gives_selectRule shape) ?_
      rintro rule _ ⟨rfl, j, hj⟩
      obtain ⟨b, of⟩ := Draft.build_rule drafted built found hj
      have suits : rule.body.yield.Suits shape.isPath := by
        rw [of.body, Body.yield_resolve]
        exact of.suits built
      refine Leads.bind Leads.state ?_
      rintro s _ ⟨rfl, -⟩
      refine Speech.Tells.wrap ?_ (Action.wraps_underView _ _) (fun _ => rfl) fun _ _ => rfl
      cases isPath : shape.isPath with
      | true =>
        exact Context.Speaks.pathRule h (isPath ▸ suits) begun
          (fun calls some all => .path shapeOf isPath some all) i
      | false =>
        exact Context.Speaks.bodyRule (t := { t with depth := depth + 1 }) h (fun word => .of_word)
          (fun calls inside => .body shapeOf isPath inside) rule.body i i.params

theorem Setting.expand_speaks {r : Renderer σ α} {log : σ → List (Call α) → Prop}
    (logs : r.Logs log) (options : Options) (fuel : Nat) : ∀ i depth,
      Speech.Speaks log (g.Word (.expansion (depth + 1))) depth
        ((standard g r options).expand fuel i) := by
  induction fuel with
  | zero =>
    intro i depth earlier
    refine Speech.tells_fail nofun ?_
    rintro _ rfl
    exact ⟨_, .expansionSkipped i _, List.nil_prefix⟩
  | succ fuel ih =>
    have keeps : ∀ n, ((standard g r options).environment n).Keeps := Session.environmentAt_keeps
    exact Context.Speaks.expandShape drafted built
      ⟨rfl, logs, ⟨keeps fuel, expand_keeps keeps fuel⟩, fun k => k.environmentAt fuel, ih⟩

/-- A run says the expansion of its start shape, which is at depth one. -/
theorem Setting.run_speaks {r : Renderer σ α} {log : σ → List (Call α) → Prop} (logs : r.Logs log)
    (options : Options) (fuel start : Nat) :
    Speech.Speaks log (g.Word (.expansion 1)) 0 ((standard g r options).run fuel start) := by
  intro earlier
  let t : Speech σ α := ⟨log, earlier, g.Word (.expansion 1), 0⟩
  have begun : ∀ word, word = [] → Begun t.phrase word := by
    rintro _ rfl
    exact ⟨_, .expansionSkipped (.root start) _, List.nil_prefix⟩
  have keeps : ∀ n, ((standard g r options).environment n).Keeps := Session.environmentAt_keeps
  unfold Setting.run
  split
  · exact Speech.tells_fail nofun begun
  case h_2 shape _ =>
    split
    · exact Speech.tells_fail nofun begun
    · refine Leads.andThen (Course.stays_update (k := t.course _ begun) fun _ => rfl) fun _ => ?_
      refine Speech.Tells.wrap ?_ (Action.wraps_inFrame (runFrom_stack keeps fuel shape))
        (fun _ => rfl) fun _ _ => rfl
      refine Leads.andThen (Course.stays_runAll (k := t.course _ begun) fun st hst => ?_)
        fun _ => ?_
      · -- The globals are defines, which call on no renderer.
        obtain ⟨head, f, rfl⟩ := drafted.globals built st hst
        rw [Context.run]
        exact Course.OfEnv.define (Course.environmentAt _ fuel) head f
      · refine Leads.bind Leads.state ?_
        rintro s _ ⟨rfl, -⟩
        split
        · exact Speech.tells_fail nofun begun
        · refine Leads.andThen (Course.stays_update (k := t.course _ begun) fun _ => rfl)
            fun _ => ?_
          exact expand_speaks drafted built logs options fuel (.root shape.index) 0 earlier

theorem Grammar.Left.drawn {store : Store α} (h : g.Left store) :
    ∀ place p, store.paths.lookup place = some p → p.allCommands ≠ [] := by
  induction h with
  | empty => exact nofun
  | session _ ih => exact ih
  | @run σ r options fuel start s t rest _ ends ih =>
    -- Nothing has to be known of the calls here.
    have logs : r.Logs fun _ _ => True :=
      ⟨fun _ _ _ _ => id, fun _ _ _ _ => id, fun _ _ _ _ _ _ => id⟩
    have said := leads_single_iff.mp (Setting.run_speaks drafted built logs options fuel start []) s
      ⟨rest.depth, ih, [], rfl, trivial⟩
    rcases ends.of_ends said with said | ⟨_, cut⟩
    · exact said.drawn
    · exact cut.drawn

end Loaded

/-- Every run of a loaded grammar keeps to the protocol, whatever the renderer
answers and whatever earlier runs have left. -/
theorem Setting.run_keeps_protocol {d : Draft α} {g : Grammar α} (drafted : d.Drafted)
    (built : d.build = .ok g) (r : Renderer σ α) (options : Options) (fuel start : Nat)
    {s : Session (σ × Array (Call α)) α} (rest : s.AtRest) (left : g.Left s.store) :
    ∃ calls, (((standard g r.traced options).run fuel start).run s).state.renderer.2.toList =
        s.renderer.2.toList ++ calls ∧
      g.Protocol calls (((standard g r.traced options).run fuel start).run s) := by
  have speaks := run_speaks drafted built r.logs_traced options fuel start s.renderer.2.toList
  have said := leads_single_iff.mp speaks s
    ⟨rest.depth, left.drawn drafted built, [], rfl, by simp [Session.backdrop]⟩
  generalize ((standard g r.traced options).run fuel start).run s = o at said ⊢
  cases o with
  | ok _ t =>
    obtain ⟨calls, word, logged⟩ := said.calls
    exact ⟨calls, logged, word.protocol t⟩
  | failed e t =>
    obtain ⟨calls, broken, logged⟩ := said.calls
    exact ⟨calls, logged, broken.protocol t⟩

theorem Setting.run_keeps_protocol_sample :
    Sample.draft.Drafted ∧ Sample.draft.build = .ok Sample.grammar ∧
      (Sample.session .empty).AtRest ∧ Sample.grammar.Left (Sample.session .empty).store ∧
      ∃ t, Sample.first = .ok () t ∧ Sample.grammar.Word (.expansion 1) t.renderer.2.toList := by
  have rest : (Sample.session .empty).AtRest := Session.begin_atRest _ _ _
  have left : Sample.grammar.Left (Sample.session .empty).store := .session .empty
  obtain ⟨calls, logged, protocol⟩ := run_keeps_protocol Sample.draft_drafted Sample.draft_build
    (Recorder.renderer .standard) Sample.options 9 1 rest left
  obtain ⟨t, ended⟩ := Sample.first_ok
  have word := protocol.whole t ended
  have said : t.renderer.2.toList = calls := by
    have state : Sample.first.state = t := by rw [ended]; rfl
    rw [← state]
    exact logged
  exact ⟨Sample.draft_drafted, Sample.draft_build, rest, left, t, ended, said ▸ word⟩

end ShapeGrammar
