import ShapeGrammar.Proofs.Transparency

/-!
# Rendering again

A render fills the store that the next render of the grammar starts from. Where
no function takes the name of a pure builtin, the second render gives the same
result and makes the same calls as the first, with other identities for the
paths: the identities of the one correspond one to one to those of the other.
-/

set_option autoImplicit false

namespace ShapeGrammar

open Attempt

variable {σ α : Type} [Scalar α]

def Renaming.extend (ρ : Nat → Nat → Prop) (uid uid' : Nat) (u u' : Nat) : Prop :=
  ρ u u' ∨ u = uid ∧ u' = uid'

theorem Renaming.biUnique_extend {ρ : Nat → Nat → Prop} (h : Relator.BiUnique ρ) {uid uid' : Nat}
    (new : ∀ u', ¬ ρ uid u') (new' : ∀ u, ¬ ρ u uid') :
    Relator.BiUnique (Renaming.extend ρ uid uid') := by
  constructor
  · rintro u v w (old | ⟨hu, hw⟩) (old' | ⟨hv, hw'⟩)
    · exact h.1 old old'
    · exact absurd (hw' ▸ old) (new' u)
    · exact absurd (hw ▸ old') (new' v)
    · exact hu.trans hv.symm
  · rintro u v w (old | ⟨hu, hv⟩) (old' | ⟨hu', hw⟩)
    · exact h.2 old old'
    · exact absurd (hu' ▸ old) (new v)
    · exact absurd (hu ▸ old') (new w)
    · exact hv.trans hw.symm

/-- Every identity given out so far stands for itself. -/
def Renaming.upTo (n : Nat) (u u' : Nat) : Prop := u = u' ∧ u < n

theorem Renaming.biUnique_upTo (n : Nat) : Relator.BiUnique (Renaming.upTo n) :=
  ⟨fun _ _ _ h h' => h.1.trans h'.1.symm, fun _ _ _ h h' => h.1.symm.trans h'.1⟩

/-- What ties a render to one that starts from a fuller store, under a renaming
of identities. -/
structure Renamed (d : Draft α) (g : Grammar α) (enough : Nat)
    (like : (Nat → Nat → Prop) → σ → σ → Prop) (ρ : Nat → Nat → Prop) (c c' : Cargo σ α) :
    Prop where
  random : c.random = c'.random
  renderer : like ρ c.renderer c'.renderer
  legacy : c.store.Legacy d g enough
  legacy' : c'.store.Legacy d g enough
  biUnique : Relator.BiUnique ρ
  given : ∀ u u', ρ u u' → u < c.store.nextUid ∧ u' < c'.store.nextUid
  /-- A path that the first side keeps is kept by the second side too. -/
  kept : ∀ place p uid, c.store.paths.lookup place = some p → p.uid = some uid →
    ∃ p' uid', c'.store.paths.lookup place = some p' ∧ p'.uid = some uid' ∧ ρ uid uid'
  /-- The second side has drawn a path that it keeps only where the first side
  keeps it as well. -/
  drawn : ∀ u u' place p', ρ u u' → c'.store.paths.lookup place = some p' → p'.uid = some u' →
    ∃ p, c.store.paths.lookup place = some p ∧ p.uid = some u

def SomehowRenamed (d : Draft α) (g : Grammar α) (enough : Nat)
    (like : (Nat → Nat → Prop) → σ → σ → Prop) (c c' : Cargo σ α) : Prop :=
  ∃ ρ, Renamed d g enough like ρ c c'

namespace Renamed

variable {d : Draft α} {g : Grammar α} {enough : Nat} {r : Renderer σ α}
  {like : (Nat → Nat → Prop) → σ → σ → Prop} {ρ : Nat → Nat → Prop}

theorem ties (hr : r.Follows like) : Ties d r r (SomehowRenamed d g enough like) where
  random := by
    rintro _ _ ⟨ρ, h⟩
    exact h.random
  draw := by
    rintro _ _ _ ⟨ρ, h⟩
    exact ⟨ρ, { h with random := rfl }⟩
  building := by
    rintro _ _ _ _ ⟨ρ, h⟩
    exact ⟨ρ, { h with }⟩
  sound := by
    rintro _ _ ⟨ρ, h⟩
    exact ⟨h.legacy.sound, h.legacy'.sound⟩
  keep := by
    rintro _ _ _ _ ⟨ρ, h⟩ hv
    exact ⟨ρ, { h with legacy := h.legacy.keep hv }⟩
  keep' := by
    rintro _ _ _ _ ⟨ρ, h⟩ hv
    exact ⟨ρ, { h with legacy' := h.legacy'.keep hv }⟩
  cutoff := by
    rintro _ _ i depth ⟨ρ, h⟩
    have answer := (hr.respects ρ h.biUnique).cutoff i depth _ _ h.renderer
    exact ⟨answer.1, ρ, { h with renderer := answer.2 }⟩
  primitive := by
    rintro _ _ i p ⟨ρ, h⟩
    exact ⟨ρ, { h with renderer := (hr.respects ρ h.biUnique).primitive i p _ _ h.renderer }⟩

theorem drawable (hr : r.Follows like) {p p' : Path.Compiled α} {uid uid' : Nat}
    (hu : p.uid = some uid) (hu' : p'.uid = some uid') (alike : p.erased = p'.erased)
    {c c' : Cargo σ α} (h : Renamed d g enough like ρ c c') (paired : ρ uid uid') :
    Drawable r r (SomehowRenamed d g enough like) p p' c c' := by
  refine ⟨Renamed d g enough like ρ, uid, uid', hu, hu', ⟨fun _ _ h => ⟨ρ, h⟩, ?_⟩, h⟩
  intro c c' i command h
  have next := (hr.respects ρ h.biUnique).path i uid uid' p p' command _ _ ⟨paired, alike⟩
    h.renderer
  exact { h with renderer := next }

theorem gainBoth (hr : r.Follows like) {a a' e e' : Cargo σ α} {cell : Option Address}
    {p p' : Path.Compiled α} (h : Renamed d g enough like ρ a a')
    (gains : a.Gains d g enough cell p e) (gains' : a'.Gains d g enough cell p' e') :
    Renamed d g enough like (Renaming.extend ρ a.store.nextUid a'.store.nextUid) e e' where
  random := by rw [gains.random, gains'.random, h.random]
  renderer := by
    rw [gains.renderer, gains'.renderer]
    exact hr.mono ρ _ _ _ (fun _ _ => .inl) h.renderer
  legacy := gains.legacy h.legacy
  legacy' := gains'.legacy h.legacy'
  biUnique := Renaming.biUnique_extend h.biUnique
    (fun u' old => Nat.lt_irrefl _ (h.given _ u' old).1)
    (fun u old => Nat.lt_irrefl _ (h.given u _ old).2)
  given := by
    rw [gains.nextUid, gains'.nextUid]
    rintro u u' (old | ⟨rfl, rfl⟩)
    · exact ⟨Nat.lt_succ_of_lt (h.given u u' old).1, Nat.lt_succ_of_lt (h.given u u' old).2⟩
    · exact ⟨Nat.lt_succ_self _, Nat.lt_succ_self _⟩
  kept place q uid found hq := by
    rcases gains.lookup found with ⟨here, rfl⟩ | old
    · cases gains.uid.symm.trans hq
      exact ⟨p', _, gains'.new here, gains'.uid, .inr ⟨rfl, rfl⟩⟩
    · obtain ⟨q', uid', found', hq', paired⟩ := h.kept place q uid old hq
      exact ⟨q', uid', gains'.kept found', hq', .inl paired⟩
  drawn := by
    rintro u u' place q' (old | ⟨rfl, rfl⟩) found' hq'
    · rcases gains'.lookup found' with ⟨-, rfl⟩ | before
      · cases gains'.uid.symm.trans hq'
        exact absurd (h.given u _ old).2 (Nat.lt_irrefl _)
      · obtain ⟨q, found, hq⟩ := h.drawn u u' place q' old before hq'
        exact ⟨q, gains.kept found, hq⟩
    · rcases gains'.lookup found' with ⟨here, rfl⟩ | before
      · exact ⟨p, gains.new here, gains.uid⟩
      · exact absurd (h.legacy'.orderly.below place q' _ before hq') (Nat.lt_irrefl _)

theorem gainFirst (hr : r.Follows like) {a a' e : Cargo σ α} {cell : Option Address}
    {p p' : Path.Compiled α} {place : Address} {uid' : Nat} (h : Renamed d g enough like ρ a a')
    (gains : a.Gains d g enough cell p e) (here : cell = some place)
    (found' : a'.store.paths.lookup place = some p') (hu' : p'.uid = some uid') :
    Renamed d g enough like (Renaming.extend ρ a.store.nextUid uid') e a' where
  random := gains.random.trans h.random
  renderer := by
    rw [gains.renderer]
    exact hr.mono ρ _ _ _ (fun _ _ => .inl) h.renderer
  legacy := gains.legacy h.legacy
  legacy' := h.legacy'
  biUnique := by
    refine Renaming.biUnique_extend h.biUnique
      (fun u' old => Nat.lt_irrefl _ (h.given _ u' old).1) fun u old => ?_
    obtain ⟨q, found, -⟩ := h.drawn u uid' place p' old found' hu'
    rw [gains.missed place here] at found
    cases found
  given := by
    rw [gains.nextUid]
    rintro u u' (old | ⟨rfl, rfl⟩)
    · exact ⟨Nat.lt_succ_of_lt (h.given u u' old).1, (h.given u u' old).2⟩
    · exact ⟨Nat.lt_succ_self _, h.legacy'.orderly.below place p' _ found' hu'⟩
  kept other q uid found hq := by
    rcases gains.lookup found with ⟨there, rfl⟩ | old
    · cases here.symm.trans there
      cases gains.uid.symm.trans hq
      exact ⟨p', uid', found', hu', .inr ⟨rfl, rfl⟩⟩
    · obtain ⟨q', v', found', hq', paired⟩ := h.kept other q uid old hq
      exact ⟨q', v', found', hq', .inl paired⟩
  drawn := by
    rintro u u' other q' (old | ⟨rfl, rfl⟩) found hq'
    · obtain ⟨q, before, hq⟩ := h.drawn u u' other q' old found hq'
      exact ⟨q, gains.kept before, hq⟩
    · cases h.legacy'.orderly.apart place other p' q' u' found' found hu' hq'
      exact ⟨p, gains.new here, gains.uid⟩

theorem stocked (hr : r.Follows like) {c c' : Context σ α} (renderer : c.renderer = r)
    (renderer' : c'.renderer = r) (strategy : c'.strategy = c.strategy) :
    Stocked d g enough False (SomehowRenamed d g enough like) c c' where
  rebuilds := by
    rintro a a' ⟨ρ, h⟩
    exact ⟨h.legacy.rebuilds, h.legacy'.rebuilds⟩
  built := by
    rintro rule a a' e e' p p' ⟨ρ, h⟩ alike - gains gains'
    have cells : c'.cellOf rule = c.cellOf rule := by rw [Context.cellOf, Context.cellOf, strategy]
    rw [cells] at gains'
    rw [renderer, renderer']
    exact drawable hr gains.uid gains'.uid alike (h.gainBoth hr gains gains') (.inr ⟨rfl, rfl⟩)
  lent := by
    rintro rule place a a' e' p p' ⟨ρ, h⟩ alike cell found gains'
    have cells : c'.cellOf rule = c.cellOf rule := by rw [Context.cellOf, Context.cellOf, strategy]
    obtain ⟨uid, hu⟩ := Option.isSome_iff_exists.mp (h.legacy.rebuilds place p found).1
    obtain ⟨q, -, found', -, -⟩ := h.kept place p uid found hu
    rw [gains'.missed place (cells.trans cell)] at found'
    cases found'
  borrowed := by
    rintro rule place a a' e p p' ⟨ρ, h⟩ alike gains cell' found'
    have cells : c'.cellOf rule = c.cellOf rule := by rw [Context.cellOf, Context.cellOf, strategy]
    obtain ⟨uid', hu'⟩ := Option.isSome_iff_exists.mp (h.legacy'.rebuilds place p' found').1
    rw [renderer, renderer']
    exact drawable hr gains.uid hu' alike
      (h.gainFirst hr gains (cells.symm.trans cell') found' hu') (.inr ⟨rfl, rfl⟩)
  had := by
    rintro place a a' p p' ⟨ρ, h⟩ alike found found'
    obtain ⟨uid, hu⟩ := Option.isSome_iff_exists.mp (h.legacy.rebuilds place p found).1
    obtain ⟨q, uid', kept, hu', paired⟩ := h.kept place p uid found hu
    cases kept.symm.trans found'
    rw [renderer, renderer']
    exact drawable hr hu hu' alike h paired

theorem initial {c c' : Cargo σ α} (random : c.random = c'.random)
    (renderer : like (Renaming.upTo c.store.nextUid) c.renderer c'.renderer)
    (legacy : c.store.Legacy d g enough) (legacy' : c'.store.Legacy d g enough)
    (grows : c.store.Grows c'.store) :
    Renamed d g enough like (Renaming.upTo c.store.nextUid) c c' where
  random := random
  renderer := renderer
  legacy := legacy
  legacy' := legacy'
  biUnique := Renaming.biUnique_upTo _
  given := by
    rintro u _ ⟨rfl, low⟩
    exact ⟨low, Nat.lt_of_lt_of_le low grows.nextUid⟩
  kept place p uid found hu :=
    ⟨p, uid, grows.kept place p found, hu, rfl, legacy.orderly.below place p uid found hu⟩
  drawn := by
    rintro u _ place p' ⟨rfl, low⟩ found' hu'
    rcases grows.fresh place p' found' with found | ⟨uid, hu, high⟩
    · exact ⟨p', found, hu'⟩
    · cases hu.symm.trans hu'
      exact absurd low (Nat.not_lt.mpr high)

end Renamed

namespace Setting

/-- A run from a store and a run from what the store has grown to end alike. -/
theorem run_renamed {d : Draft α} {g : Grammar α} (loads : d.Loads g) {r : Renderer σ α}
    {like : (Nat → Nat → Prop) → σ → σ → Prop} (hr : r.Follows like) (options : Options)
    (start : Nat) {s s' : Session σ α} (rest : s.AtRest) (rest' : s'.AtRest)
    (random : s.random = s'.random) {enough : Nat} (legacy : s.store.Legacy d g enough)
    (legacy' : s'.store.Legacy d g enough) (grows : s.store.Grows s'.store)
    (renderer : like (Renaming.upTo s.store.nextUid) s.renderer s'.renderer)
    {fuel m : Nat} (low : fuel ≤ enough) (hm : enough + fuel ≤ m) :
    EndAlike (fun u u' => u.random = u'.random ∧
        ∃ ρ, Relator.BiUnique ρ ∧ like ρ u.renderer u'.renderer)
      (((standard g r options).run fuel start).run s)
      (((standard g r options).run m start).run s') := by
  obtain ⟨extra, rfl⟩ := Nat.exists_eq_add_of_le' (Nat.le_trans (Nat.le_add_left _ _) hm)
  have high : enough ≤ extra := Nat.le_of_add_le_add_right hm
  have runs := standard_runs g r options
  have matched := Matched.of_stocked loads runs runs (Renamed.ties hr)
    (fun _ _ => Renamed.stocked hr rfl rfl rfl) low high
  have meets := matched.run rfl start rest rest' False.elim
    ⟨_, Renamed.initial random renderer legacy legacy' grows⟩
  have ended : ∀ u u' : Session σ α, Outside (SomehowRenamed d g enough like) u.cargo u'.cargo →
      u.random = u'.random ∧ ∃ ρ, Relator.BiUnique ρ ∧ like ρ u.renderer u'.renderer := by
    rintro u u' ⟨-, -, ρ, h⟩
    exact ⟨h.random, ρ, h.biUnique, h.renderer⟩
  exact meets.weaken ⟨fun e e' u u' parted => ⟨parted.1, ended u u' parted.2⟩, fun _ => id⟩ ended
    fun _ _ => id

/-- A run and the next one, in a new session with a renderer in a like state. -/
theorem run_again {d : Draft α} {g : Grammar α} (loads : d.Loads g) {r : Renderer σ α}
    {like : (Nat → Nat → Prop) → σ → σ → Prop} (hr : r.Follows like) (options : Options)
    (start : Nat) {seed : UInt64} {store : Store α} (left : g.Left store) {x : σ}
    (renderer : like (Renaming.upTo store.nextUid) x x) (fuel : Nat) {u : Session σ α}
    (ends : (((standard g r options).run fuel start).run (.begin seed store x)).Leaves u) :
    ∃ enough, ∀ m, enough ≤ m →
      EndAlike (fun u u' => u.random = u'.random ∧
          ∃ ρ, Relator.BiUnique ρ ∧ like ρ u.renderer u'.renderer)
        (((standard g r options).run fuel start).run (.begin seed store x))
        (((standard g r options).run m start).run (.begin seed u.store x)) := by
  obtain ⟨before, legacy⟩ := left.session.legacy loads
  have rest := Session.begin_atRest seed store x
  obtain ⟨after, grows⟩ := run_legacy loads r options fuel start rest legacy ends
  have legacy := Store.Legacy.mono legacy (Nat.le_max_left before fuel)
  refine ⟨max before fuel + fuel, fun m hm => ?_⟩
  exact run_renamed loads hr options start rest (Session.begin_atRest seed u.store x) rfl legacy
    ⟨after.sound, after.rebuilds, after.orderly.below, after.orderly.apart⟩
    ⟨grows.kept, grows.fresh, grows.nextUid⟩ renderer (Nat.le_max_right _ _) hm

/-- A render from what a render has left behind ends as that one did, with fuel
enough: with the same result, the same random state and the same calls, under a
one-to-one renaming of the identities of paths. -/
theorem render_reproducible {d : Draft α} {g : Grammar α} (drafted : d.Drafted)
    (built : d.build = .ok g) (clear : d.Clear) {r : Renderer σ α}
    {like : (Nat → Nat → Prop) → σ → σ → Prop} (follows : r.Follows like) (options : Options)
    (name : String) {store : Store α} (left : g.Left store) (x : σ)
    (equal : like (Renaming.upTo store.nextUid) x x) (fuel : Nat) :
    let t := standard g r.traced options
    let first := (t.render fuel name).run (Session.begin options.seed store (x, #[]))
    ∃ enough, ∀ m, enough ≤ m →
      EndAlike (fun u u' => ∃ ρ, Relator.BiUnique ρ ∧
          SameDrawing (Path.Compiled.Alike ρ) (like ρ) u u') first
        ((t.render m name).run (Session.begin options.seed first.state.store (x, #[]))) := by
  intro t first
  have loads : d.Loads g := ⟨drafted, built, clear⟩
  have calls : Renderer.Alike (Path.Compiled.Alike (Renaming.upTo store.nextUid))
      (like (Renaming.upTo store.nextUid)) (x, (#[] : Array (Call α))) (x, #[]) := by
    exact ⟨equal, List.Forall₂.nil⟩
  -- A name that is unknown fails both renders before anything else happens.
  cases found : g.shapeIndex? name with
  | none =>
    have unknown : ∀ n s, (t.render n name).run s =
        .failed (.fault (.grammar ⟨.none, .unknownStart name⟩)) s := by
      intro n s
      have found : t.grammar.shapeIndex? name = none := found
      simp only [render, found]
      rfl
    refine ⟨0, fun m _ => ?_⟩
    simp only [first, unknown]
    exact .together ⟨rfl, _, Renaming.biUnique_upTo _, rfl, calls⟩
  | some start =>
    have known : ∀ n, t.render n name = t.run n start := by
      intro n
      have found : t.grammar.shapeIndex? name = some start := found
      simp only [render, found]
    simp only [first, known]
    rcases Outcome.leaves_or_outOfFuel
      ((t.run fuel start).run (.begin options.seed store (x, #[]))) with ends | ⟨u, quits⟩
    · obtain ⟨enough, alike⟩ := run_again loads follows.traced options start left calls fuel ends
      refine ⟨enough, fun m hm => (alike m hm).weaken ⟨?_, fun _ => id⟩ ?_ fun _ _ => id⟩
      · rintro e e' u u' ⟨same, random, ρ, hρ, renderer⟩
        exact ⟨same, ρ, hρ, random, renderer⟩
      · rintro u u' ⟨random, ρ, hρ, renderer⟩
        exact ⟨ρ, hρ, random, renderer⟩
    · refine ⟨0, fun m _ => ?_⟩
      rw [quits]
      exact .alone rfl

theorem render_reproducible_sample :
    Sample.draft.Drafted ∧ Sample.draft.build = .ok Sample.grammar ∧ Sample.draft.Clear ∧
      Sample.grammar.Left Sample.first.state.store ∧
      ∃ enough, ∀ m, enough ≤ m →
        EndAlike (fun u u' => ∃ ρ, Relator.BiUnique ρ ∧ SameDrawing (Path.Compiled.Alike ρ)
            (fun x x' => x.draws.size = x'.draws.size) u u')
          (((standard Sample.grammar Sample.renderer Sample.options).render 9 "scatter").run
            (Sample.session Sample.first.state.store))
          (((standard Sample.grammar Sample.renderer Sample.options).render m "scatter").run
            (Sample.session
              (((standard Sample.grammar Sample.renderer Sample.options).render 9 "scatter").run
                (Sample.session Sample.first.state.store)).state.store)) := by
  have follows : (Recorder.renderer (.standard : Limits Rat)).Follows
      fun _ x x' => x.draws.size = x'.draws.size :=
    ⟨fun _ _ => Recorder.respects .standard _, fun _ _ _ _ _ => id⟩
  exact ⟨Sample.draft_drafted, Sample.draft_build, Sample.draft_clear, Sample.first_left,
    render_reproducible Sample.draft_drafted Sample.draft_build Sample.draft_clear follows
      Sample.options "scatter" Sample.first_left .empty rfl 9⟩

end Setting

/-! ### A function in place of a builtin -/

namespace Sample

/-- The sine of this grammar is drawn by lot, while a call of it counts as
constant. -/
def lot : Define Rat := ⟨"sin", .expr chance, .number, 1, [⟨"x", .number, 1, .none⟩], true, none⟩

def dot : Body Rat :=
  .ofStatements [.replace ⟨.primitive .circle, [], ⟨[⟨.x, [chance], .none⟩], false⟩, .none⟩]

def shadowed : Draft Rat :=
  (((Draft.empty.declareShape "dot" false []).1.addGlobal lot .none).addGlobal
    (constant "k" (.call "sin" [number 1] .none)) .none).addRule 0 .unstated dot .none

theorem shadowed_drafted : shadowed.Drafted := by
  have none : (Draft.empty : Draft Rat).Drafted := .empty
  have made : ∀ st ∈ dot.statements, st.Made := by
    rintro st (_ | ⟨_, ⟨⟩⟩)
    exact .replace _
  exact (((none.declareShape "dot" false []).addGlobal _ .none).addGlobal _ .none).addRule 0
    .unstated made .none

theorem shadowed_build : shadowed.build = .ok shadowed.resolved := by
  have errors : shadowed.errors = [] := by decide +kernel
  exact Draft.build_eq_ok.mpr ⟨errors, rfl⟩

end Sample

/-- Where a function takes the name of a pure builtin, a define that calls it is
kept although it draws: the second render draws once less, and differs. -/
theorem Setting.render_differs_shadowed :
    Sample.shadowed.Drafted ∧ Sample.shadowed.build = .ok Sample.shadowed.resolved ∧
      let t := standard Sample.shadowed.resolved Sample.renderer Sample.options
      let once := (t.render 9 "dot").run (Sample.session .empty)
      let twice := (t.render 9 "dot").run (Sample.session once.state.store)
      ∀ same : PathRel Rat, ¬ List.Forall₂ (Call.Matches same) once.state.renderer.2.toList
        twice.state.renderer.2.toList := by
  refine ⟨Sample.shadowed_drafted, Sample.shadowed_build, ?_⟩
  intro t once twice same calls
  let places := List.map fun i : Instance Rat => i.transform.e
  have same := congrArg places (Call.Matches.subjects calls)
  have differ : places (once.state.renderer.2.toList.map Call.subject) ≠
      places (twice.state.renderer.2.toList.map Call.subject) := by decide +kernel
  exact differ same

end ShapeGrammar
