import ShapeGrammar.Proofs.Ledger
import ShapeGrammar.Proofs.Sample

/-!
# The identity of paths

Renders of one grammar follow each other, with whatever renderers, and share the
paths that are kept and the counter of identities. Their notes are a ledger, so
that a path's identity tells its geometry across all of them, and a recorder that
takes them all down has every path as it was drawn.
-/

set_option autoImplicit false

namespace ShapeGrammar

open Attempt

variable {σ α : Type}

/-! ### Notes tell of a run and change nothing in it -/

def Session.unnoted (s : Session (σ × List (Note α)) α) : Session σ α :=
  { s with renderer := s.renderer.1 }

theorem Renderer.noted_concurs (r : Renderer σ α) :
    r.noted.Concurs r True Eq fun x x' => x.1 = x' where
  cutoff i _ depth s _ same states := by
    cases same
    cases states
    exact ⟨rfl, rfl⟩
  primitive i _ p s _ same states := by
    cases same
    cases states
    rfl
  path i _ uid p p' command s _ same kin states := by
    cases same
    cases states
    cases kin.eq trivial
    rfl

/-- Sessions in parallel that differ in nothing but notes. -/
theorem Aligned.unnoted {s : Session (σ × List (Note α)) α} {s' : Session σ α}
    (h : Twins True (Aligned True (Path.Compiled.Kin True) (fun x x' => x.1 = x') True) s s') :
    s.unnoted = s' := by
  obtain ⟨⟨slots, frames, session⟩, view, globalsEnd, depth, building, random,
    ⟨values, paths, nextUid, sessions⟩, renderer⟩ := s
  obtain ⟨⟨slots', frames', session'⟩, view', globalsEnd', depth', building', random',
    ⟨values', paths', nextUid', sessions'⟩, renderer'⟩ := s'
  obtain ⟨rfl, rfl, rfl, rfl, number, rest⟩ := h
  obtain ⟨rfl, kept, rfl, count, rfl, ends, rfl, open_⟩ := rest
  cases number trivial
  cases count trivial
  cases ends trivial
  have same : paths = paths' := by
    refine List.forall₂_eq_eq_eq ▸ kept.imp fun e e' akin => ?_
    exact Prod.ext akin.1 (akin.2.eq trivial)
  have same' : building = building' := by
    cases open_ with
    | none => rfl
    | some kin => rw [kin.eq trivial]
  subst same same'
  rfl

theorem Session.twins_unnoted (s : Session (σ × List (Note α)) α) :
    Twins True (Aligned True (Path.Compiled.Kin True) (fun x x' => x.1 = x') True) s s.unnoted where
  slots := rfl
  frames := rfl
  view := rfl
  random := rfl
  session _ := rfl
  rest := {
    values := rfl
    paths := List.forall₂_same.mpr fun e _ => ⟨rfl, .refl True e.2⟩
    nextUid := rfl
    sessions := fun _ => rfl
    renderer := rfl
    globalsEnd := fun _ => rfl
    depth := rfl
    building := by
      show Option.Rel (Path.Compiled.Kin True) s.building s.building
      cases s.building with
      | none => exact .none
      | some p => exact .some (.refl True p) }

variable [Scalar α]

/-- A run that takes notes is the run without them. -/
theorem Setting.runNoting_unnoted {g : Grammar α}
    (hg : ∀ st ∈ g.globals.statements, ∃ h d, st = .define h d) (r : Renderer σ α)
    (options : Options) (fuel start : Nat) (s : Session (σ × List (Note α)) α) :
    (((standard g r.noted options).runNoting Note.announce fuel start).run s).mapState
      Session.unnoted = ((standard g r options).run fuel start).run s.unnoted := by
  have moves : Aligned.Moves True (Path.Compiled.Kin True) (fun x x' => x.1 = x') True
      ((standard g r.noted options).runNoting Note.announce fuel start)
      ((standard g r options).run fuel start) := by
    rw [← runNoting_id]
    refine runNoting_parallel options r.noted_concurs ?_ hg fuel start
    exact fun _ _ _ states => states
  have meets := moves s s.unnoted s.twins_unnoted
  generalize ((standard g r.noted options).runNoting Note.announce fuel start).run s = o at meets ⊢
  generalize ((standard g r options).run fuel start).run s.unnoted = o' at meets ⊢
  cases meets with
  | ok same twins => exact congrArg₂ Outcome.ok same (Aligned.unnoted twins)
  | together parted => exact congrArg₂ Outcome.failed parted.1 (Aligned.unnoted parted.2)
  | alone quits => exact quits.elim

/-! ### Renders -/

theorem Renderer.noted_drawAll (r : Renderer σ α) (x : Instance α) (uid : Nat)
    (p : Path.Compiled α) (commands : List (Path.Command α)) (s : σ × List (Note α)) :
    (r.noted.drawAll x uid p commands s).2 = s.2 ++ commands.map fun command =>
      .call (.path (x.apply command.adjust) uid p command) := by
  induction commands generalizing s with
  | nil => simp [drawAll]
  | cons command rest ih =>
    rw [drawAll, List.foldl_cons]
    refine (ih _).trans ?_
    simp [noted]

theorem Ledger.asked {g : Grammar α} {first next : Nat} {paths : List (Address × Path.Compiled α)}
    {r : Renderer σ α} {i : Instance α} {depth : Nat} {verdict : Verdict}
    {s x : σ × List (Note α)} (h : Ledger g first paths next s.2)
    (answered : r.noted.cutoff i depth s = (verdict, x)) : Ledger g first paths next x.2 := by
  have log : s.2 ++ [.call (.cutoff i depth (r.cutoff i depth s.1).1)] = x.2 :=
    congrArg (·.2.2) answered
  exact log ▸ h.note _ rfl nofun

def Ledger.account (g : Grammar α) (first : Nat) (r : Renderer σ α) :
    Account g r.noted Note.announce where
  kept b := Ledger g first b.paths b.nextUid b.renderer.2
  admitted b := Ledger g first b.paths b.nextUid b.renderer.2
  allow _ _ _ _ kept answered := kept.asked answered
  refuse _ _ _ _ _ kept _ answered := kept.asked answered
  primitive _ _ _ kept := kept.note _ rfl nofun
  settled _ := id
  taken i j rule b at_ kept := by
    refine kept.note _ rfl ?_
    rintro _ ⟨⟩
    exact ⟨i, j, at_⟩
  path i j rule x p uid b b' at_ kept fetched identity := by
    have log : (b.renderer.2 ++ [.taken rule]) ++ Note.ofPath x uid p =
        b.renderer.2 ++ Note.ofExpansion rule x uid p := by
      simp [Note.ofExpansion]
    cases fetched with
    | kept cell found =>
      show Ledger g first b.paths b.nextUid (r.noted.drawAll x uid p p.allCommands _).2
      rw [r.noted_drawAll]
      exact log ▸ kept.again at_ x cell found identity
    | built missed fresh whole =>
      cases identity.symm.trans fresh
      show Ledger g first _ _ (r.noted.drawAll x b.nextUid p p.allCommands _).2
      rw [r.noted_drawAll]
      exact log ▸ kept.fresh at_ x missed fresh whole

/-- What renders leave behind one after another: the renderer, the store and the
notes. Between two renders the renderer may be handed over in some way, and any
of those in use may be taken up. -/
inductive Grammar.Renders (g : Grammar α) (uses : Renderer σ α → Prop) (hands : σ → σ → Prop)
    (first : Nat) (new : σ) : σ → Store α → List (Note α) → Prop
  | start : Renders g uses hands first new new { Store.empty with nextUid := first } []
  | session {x : σ} {store : Store α} {log : List (Note α)}
      (earlier : Renders g uses hands first new x store log) :
      Renders g uses hands first new x { store with sessions := store.sessions + 1 } log
  | run {x : σ} {s : Session (σ × List (Note α)) α} (r : Renderer σ α) (used : uses r)
      (options : Options) (fuel start : Nat) (rest : s.AtRest) (handed : hands x s.renderer.1)
      (earlier : Renders g uses hands first new x s.store s.renderer.2)
      {o : Outcome Stop (Session (σ × List (Note α)) α) Unit}
      (ended :
        ((Setting.standard g r.noted options).runNoting Note.announce fuel start).run s = o) :
      Renders g uses hands first new o.state.renderer.1 o.state.store o.state.renderer.2

namespace Grammar.Renders

variable {d : Draft α} {g : Grammar α} (drafted : d.Drafted) (built : d.build = .ok g)
  {uses : Renderer σ α → Prop} {hands : σ → σ → Prop} {first : Nat} {new x : σ} {store : Store α}
  {log : List (Note α)}

include drafted built

/-- All notes of all renders make one ledger. -/
theorem ledger (h : g.Renders uses hands first new x store log) :
    Ledger g first store.paths store.nextUid log := by
  induction h with
  | start => exact .start
  | session _ ih => exact ih
  | run r used options fuel start rest handed _ ended ih =>
    subst ended
    exact Setting.runNoting_kept drafted built (Ledger.account g first r) options fuel start ih

end Grammar.Renders

/-! ### Recorders -/

omit [Scalar α] in
theorem Recorder.mem_keepPath {uid : Nat} {segments : Array (Path.Segment α)}
    {paths : List (Nat × Array (Path.Segment α))} {e : Nat × Array (Path.Segment α)}
    (h : e ∈ keepPath uid segments paths) : e = (uid, segments) ∨ e ∈ paths := by
  induction paths with
  | nil => exact .inl (List.mem_singleton.mp h)
  | cons kept rest ih =>
    obtain ⟨other, segments'⟩ := kept
    unfold keepPath at h
    by_cases before : uid < other
    · rw [if_pos before] at h
      exact List.mem_cons.mp h
    · rw [if_neg before] at h
      by_cases same : uid = other
      · rw [if_pos same] at h
        exact .inr h
      · rw [if_neg same] at h
        rcases List.mem_cons.mp h with rfl | later
        · exact .inr List.mem_cons_self
        · exact (ih later).imp_right (List.mem_cons_of_mem _)

omit [Scalar α] in
theorem Recorder.exists_mem_keepPath {uid u : Nat} {segments : Array (Path.Segment α)}
    {paths : List (Nat × Array (Path.Segment α))} (h : u = uid ∨ ∃ x, (u, x) ∈ paths) :
    ∃ x, (u, x) ∈ keepPath uid segments paths := by
  induction paths with
  | nil =>
    have same : u = uid := h.resolve_right (by simp)
    exact ⟨segments, by simp [keepPath, same]⟩
  | cons kept rest ih =>
    obtain ⟨other, segments'⟩ := kept
    simp only [List.mem_cons, Prod.mk.injEq, exists_or, exists_and_left, exists_eq, and_true] at h
    unfold keepPath
    by_cases before : uid < other
    · rw [if_pos before]
      simp only [List.mem_cons, Prod.mk.injEq, exists_or, exists_and_left, exists_eq, and_true]
      exact h
    · rw [if_neg before]
      by_cases same : uid = other
      · rw [if_pos same]
        simp only [List.mem_cons, Prod.mk.injEq, exists_or, exists_and_left, exists_eq, and_true]
        exact h.elim (fun here => .inl (here.trans same)) id
      · rw [if_neg same]
        simp only [List.mem_cons, Prod.mk.injEq, exists_or, exists_and_left, exists_eq, and_true]
        rcases h with here | there | there
        · exact .inr (ih (.inl here))
        · exact .inl there
        · exact .inr (ih (.inr there))

def Note.draw? : Note α → Option (Draw α)
  | .call (.primitive i p) => some ⟨.primitive p, i.transform, i.z, i.colour⟩
  | .call (.path i uid _ command) => some ⟨.path uid command, i.transform, i.z, i.colour⟩
  | _ => none

/-- The recorder has the draws of the notes, and for each identity in them the
segments it was drawn with, at one time or another. -/
structure Recorder.Records (r : Recorder α) (log : List (Note α)) : Prop where
  draws : r.draws.toList = log.filterMap Note.draw?
  drawn : ∀ e ∈ r.paths, ∃ m p, Draws log m e.1 p ∧ e.2 = p.storage.segments
  there : ∀ m uid p, Draws log m uid p → ∃ segments, (uid, segments) ∈ r.paths

namespace Recorder.Records

variable {r : Recorder α} {log : List (Note α)}

omit [Scalar α] in
theorem empty : Records (.empty : Recorder α) [] where
  draws := rfl
  drawn := nofun
  there := by
    rintro m uid p ⟨x, command, found⟩
    cases found

omit [Scalar α] in
theorem note (h : r.Records log) {n : Note α} (plain : n.isPath = false) {q : Recorder α}
    (draws : q.draws.toList = r.draws.toList ++ n.draw?.toList) (paths : q.paths = r.paths) :
    q.Records (log ++ [n]) where
  draws := by
    rw [draws, h.draws, List.filterMap_append]
    cases drawn : n.draw? with
    | none => simp [drawn]
    | some d => simp [drawn]
  drawn e he := by
    obtain ⟨m, p, drawn, same⟩ := h.drawn e (paths ▸ he)
    exact ⟨m, p, (draws_append ..).mpr (.inl drawn), same⟩
  there m uid p drawn := by
    rcases (draws_append ..).mp drawn with before | ⟨-, here⟩
    · exact paths ▸ h.there m uid p before
    · exact absurd here (not_draws_of_plain plain _ uid p)

theorem path (h : r.Records log) (limits : Limits α) (i : Instance α) (uid : Nat)
    (p : Path.Compiled α) (command : Path.Command α) :
    ((renderer limits).drawPath i uid p command r).Records
      (log ++ [.call (.path i uid p command)]) where
  draws := by
    simp [renderer, record, h.draws, Note.draw?]
  drawn e he := by
    rcases mem_keepPath he with rfl | before
    · have here : Draws (log ++ [.call (.path i uid p command)]) log.length uid p :=
        ⟨i, command, by simp⟩
      exact ⟨log.length, p, here, rfl⟩
    · obtain ⟨m, p', drawn, same⟩ := h.drawn e before
      exact ⟨m, p', (draws_append ..).mpr (.inl drawn), same⟩
  there m uid' p' drawn := by
    refine exists_mem_keepPath ?_
    rcases (draws_append ..).mp drawn with before | ⟨-, x, command', found⟩
    · exact .inr (h.there m uid' p' before)
    · have here := List.mem_singleton.mp (List.mem_of_getElem? found)
      cases here
      exact .inl rfl

theorem cutoff_keeps (limits : Limits α) (i : Instance α) (depth : Nat) (r : Recorder α) :
    (cutoff limits i depth r).2.draws = r.draws ∧ (cutoff limits i depth r).2.paths = r.paths := by
  unfold cutoff
  split
  · exact ⟨rfl, rfl⟩
  · split
    · exact ⟨rfl, rfl⟩
    · exact ⟨rfl, rfl⟩

def account (g : Grammar α) (limits : Limits α) :
    Account g (renderer limits).noted Note.announce :=
  .ofRenderer g (fun s => s.1.Records s.2)
    (fun i depth s h => by
      obtain ⟨draws, paths⟩ := cutoff_keeps limits i depth s.1
      exact h.note rfl (by simp [Renderer.noted, renderer, draws, Note.draw?]) paths)
    (fun i p s h => h.note rfl (by simp [Renderer.noted, renderer, record, Note.draw?]) rfl)
    (fun i uid p command s h => h.path limits i uid p command)
    (fun rule s h => h.note rfl (by simp [Note.announce, Note.draw?]) rfl)

omit [Scalar α] in
/-- Where an identity is of one path, its segments are found by it. -/
theorem path?_eq (h : r.Records log)
    (unique : ∀ m m' uid p p', Draws log m uid p → Draws log m' uid p' → p = p') {m uid : Nat}
    {p : Path.Compiled α} (drawn : Draws log m uid p) :
    r.path? uid = some p.storage.segments := by
  obtain ⟨segments, mem⟩ := h.there m uid p drawn
  have found : (r.paths.lookup uid).isSome = true :=
    List.lookup_isSome_iff.mpr ⟨_, mem, beq_self_eq_true uid⟩
  obtain ⟨segments', here⟩ := Option.isSome_iff_exists.mp found
  obtain ⟨before, after, split, -⟩ := List.lookup_eq_some_iff.mp here
  obtain ⟨m', p', drawn', same⟩ := h.drawn (uid, segments') (by simp [split])
  rw [path?, here, unique m m' uid p p' drawn drawn']
  exact congrArg some same

end Recorder.Records

theorem Grammar.Renders.records {d : Draft α} {g : Grammar α} (drafted : d.Drafted)
    (built : d.build = .ok g) {limits : Limits α} {first : Nat} {r : Recorder α} {store : Store α}
    {log : List (Note α)}
    (h : g.Renders (Eq (Recorder.renderer limits)) Eq first .empty r store log) :
    r.Records log := by
  induction h with
  | start => exact .empty
  | session _ ih => exact ih
  | run _ used options fuel start rest handed _ ended ih =>
    subst used handed ended
    exact Setting.runNoting_kept drafted built (Recorder.Records.account g limits) options fuel
      start ih

/-! ### Identity and geometry -/

namespace Grammar

variable {d : Draft α} {g : Grammar α} (drafted : d.Drafted) (built : d.build = .ok g)

include drafted built

/-- Rules that keep their paths are told apart by their cells. -/
theorem RuleAt.eq_of_cell {i j i' j' : Nat} {rule rule' : Rule α} (h : g.RuleAt i j rule)
    (h' : g.RuleAt i' j' rule') (static : rule.isStatic = true) (cell : rule'.cell = rule.cell) :
    i' = i ∧ j' = j ∧ rule' = rule := by
  have cellAt : ∀ i j rule, g.RuleAt i j rule → rule.isStatic = true →
      rule.cell = some [i, j] := by
    rintro i j rule ⟨shape, found, at_⟩ static
    obtain ⟨b, of⟩ := Draft.build_rule drafted built found at_
    rw [Rule.isStatic, of.cell] at static
    rw [of.cell]
    split at static
    · rw [if_pos (by assumption)]
    · cases static
  have static' : rule'.isStatic = true := by
    rw [Rule.isStatic, cell]
    exact static
  have same := (cellAt i' j' rule' h' static').symm.trans (cell.trans (cellAt i j rule h static))
  cases same
  obtain ⟨shape, found, at_⟩ := h
  obtain ⟨shape', found', at_'⟩ := h'
  cases found.symm.trans found'
  cases at_.symm.trans at_'
  exact ⟨rfl, rfl, rfl⟩

/-- A build that fails issues no identity and keeps nothing. -/
theorem RuleAt.build_failed (r : Renderer σ α) (options : Options) (fuel : Nat) {i j : Nat}
    {shape : Shape α} {rule : Rule α} (found : g.shapes[i]? = some shape)
    (isPath : shape.isPath = true) (at_ : shape.rules[j]? = some rule) (params : List (Value α))
    {s t : Session σ α} {e : Stop} :
    let c := (Setting.standard g r options).contextAt fuel
      ((Setting.standard g r options).expand fuel)
    (c.keptPath rule (c.enterBody rule.body) params).run s = .failed e t →
    t.store.nextUid = s.store.nextUid ∧ t.store.paths = s.store.paths ∧
      ∀ place, rule.cell = some place → t.store.paths.lookup place = none := by
  intro c failed
  obtain ⟨b, of⟩ := Draft.build_rule drafted built found at_
  have suits : rule.body.yield.Suits true := by
    rw [of.body, Body.yield_resolve, ← isPath]
    exact of.suits built
  have env := Setting.standard_keeps g r options
  have keeps : c.Keeps := ⟨env fuel, Setting.expand_keeps env fuel⟩
  have books := Context.keptPath_books (c := c) rfl keeps (fun k => k.environmentAt fuel) suits
    params s
  rw [failed] at books
  obtain ⟨same, missed⟩ := books
  have paths : t.store.paths = s.store.paths := congrArg Books.paths same
  exact ⟨congrArg Books.nextUid same, paths, fun place cell => paths ▸ missed place cell⟩

/-- Path identity determines geometry. Notes tell of all renders without changing
them. By the notes, a static rule draws the same path with the same identity each
time, every other identity is above all that were issued before, and one identity
is of one path. A build that fails issues no identity and leaves the cell empty. A
recorder of all renders finds every path it was drawn with by its identity. -/
theorem identity_determines_geometry :
    (∀ (σ : Type) (r : Renderer σ α) (options : Options) (fuel start : Nat)
      (s : Session (σ × List (Note α)) α),
      (((Setting.standard g r.noted options).runNoting Note.announce fuel start).run s).mapState
        Session.unnoted = ((Setting.standard g r options).run fuel start).run s.unnoted) ∧
    (∀ i j i' j' rule rule', g.RuleAt i j rule → g.RuleAt i' j' rule' → rule.isStatic = true →
      rule'.cell = rule.cell → i' = i ∧ j' = j ∧ rule' = rule) ∧
    (∀ (σ : Type) (uses : Renderer σ α → Prop) (hands : σ → σ → Prop) first new x store log,
      g.Renders uses hands first new x store log → Identities g first store.nextUid log) ∧
    (∀ (σ : Type) (r : Renderer σ α) (options : Options) (fuel i j : Nat) shape rule params
      (s t : Session σ α) e, g.shapes[i]? = some shape → shape.isPath = true →
      shape.rules[j]? = some rule →
      let c := (Setting.standard g r options).contextAt fuel
        ((Setting.standard g r options).expand fuel)
      (c.keptPath rule (c.enterBody rule.body) params).run s = .failed e t →
      t.store.nextUid = s.store.nextUid ∧ t.store.paths = s.store.paths ∧
        ∀ place, rule.cell = some place → t.store.paths.lookup place = none) ∧
    ∀ (limits : Limits α) first (r : Recorder α) store log,
      g.Renders (Eq (Recorder.renderer limits)) Eq first .empty r store log →
      r.draws.toList = log.filterMap Note.draw? ∧
      ∀ (m : Nat) x uid p command, log[m]? = some (.call (.path x uid p command)) →
        r.path? uid = some p.storage.segments ∧ command.Covers p.storage.segments.size := by
  refine ⟨?_, ?_, ?_, ?_, ?_⟩
  · intro σ r options fuel start s
    exact Setting.runNoting_unnoted (drafted.globals built) r options fuel start s
  · intro i j i' j' rule rule' h h'
    exact h.eq_of_cell drafted built h'
  · intro σ uses hands first new x store log h
    exact (h.ledger drafted built).sound.toIdentities
  · intro σ r options fuel i j shape rule params s t e found isPath at_
    exact RuleAt.build_failed drafted built r options fuel found isPath at_ params
  · intro limits first r store log h
    have identities := (h.ledger drafted built).sound.toIdentities
    have records := h.records drafted built
    refine ⟨records.draws, fun m x uid p command called => ?_⟩
    have drawn : Draws log m uid p := ⟨x, command, called⟩
    obtain ⟨k, rule, x₀, j, -, -, one, -⟩ := identities.expansions m uid p x command called
    refine ⟨records.path?_eq identities.unique drawn, ?_⟩
    exact (identities.whole m uid p drawn).2.covers command (List.mem_of_getElem? one)

end Grammar

namespace Sample

def noted (seed : UInt64) (store : Store Rat) (x : Recorder Rat × List (Note Rat)) :
    Session (Recorder Rat × List (Note Rat)) Rat :=
  (((Setting.standard grammar (Recorder.renderer .standard).noted options).runNoting
    Note.announce 9 1).run (.begin seed store x)).state

theorem noted_renders (seed : UInt64) {store : Store Rat} {x : Recorder Rat × List (Note Rat)}
    (h : grammar.Renders (Eq (Recorder.renderer .standard)) Eq 1 .empty x.1 store x.2) :
    grammar.Renders (Eq (Recorder.renderer .standard)) Eq 1 .empty
      (noted seed store x).renderer.1 (noted seed store x).store (noted seed store x).renderer.2 :=
  .run _ rfl options 9 1 (Session.begin_atRest seed store x) rfl (.session h) rfl

def firstNoted : Session (Recorder Rat × List (Note Rat)) Rat := noted 7 .empty (.empty, [])

def secondNoted : Session (Recorder Rat × List (Note Rat)) Rat :=
  noted 8 firstNoted.store firstNoted.renderer

end Sample

/-- Two renders of the sample, recorded together: the second draws the path that
the first one built. -/
theorem Grammar.identity_determines_geometry_sample :
    Sample.draft.Drafted ∧ Sample.draft.build = .ok Sample.grammar ∧
      Sample.secondNoted.store.nextUid = 2 ∧ Sample.secondNoted.renderer.1.draws.size = 6 ∧
      Identities Sample.grammar 1 Sample.secondNoted.store.nextUid Sample.secondNoted.renderer.2 ∧
      ∀ (m : Nat) x uid p command,
        Sample.secondNoted.renderer.2[m]? = some (.call (.path x uid p command)) →
        Sample.secondNoted.renderer.1.path? uid = some p.storage.segments ∧
          command.Covers p.storage.segments.size := by
  obtain ⟨-, -, identities, -, recorded⟩ :=
    identity_determines_geometry Sample.draft_drafted Sample.draft_build
  have one := Sample.noted_renders 7 (x := (.empty, [])) .start
  have two := Sample.noted_renders 8 one
  exact ⟨Sample.draft_drafted, Sample.draft_build, by decide +kernel, by decide +kernel,
    identities _ _ _ _ _ _ _ _ two, (recorded _ _ _ _ _ two).2⟩

end ShapeGrammar
