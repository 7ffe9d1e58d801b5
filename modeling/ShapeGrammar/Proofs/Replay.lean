import ShapeGrammar.Proofs.Reproduction
import ShapeGrammar.Proofs.Seeds

/-!
# A run and the next one

A run of a quiet grammar keeps values and paths, and the next run finds them. What the
next run finds is what the first comes to in the end, so the two go the same way, under a
renaming of the identities of paths. This holds for failures as well: what a failed run
could not work out, it did not keep.
-/

set_option autoImplicit false

namespace ShapeGrammar

open Attempt

variable {σ α : Type}

def Store.Below (a : Store α) : Prop :=
  ∀ place p, a.paths.lookup place = some p → ∃ uid, p.uid = some uid ∧ uid < a.nextUid

/-- What is found after a path has been put into its cell, if there is one. -/
theorem lookup_celled (cell : Option Address) (p : Path.Compiled α)
    (paths : List (Address × Path.Compiled α)) (place : Address) :
    (cell.toList.map (·, p) ++ paths).lookup place =
      if cell = some place then some p else paths.lookup place := by
  cases cell with
  | none => rfl
  | some other =>
    change ((other, p) :: paths).lookup place = _
    by_cases same : place = other
    · rw [same, List.lookup_cons_self, if_pos rfl]
    · rw [List.lookup_cons, beq_false_of_ne same, if_neg fun h => same (Option.some.inj h).symm]

theorem Store.lookup_gain (a : Store α) (place : Address) (p : Path.Compiled α) :
    (a.gain (some place) p).paths.lookup place = some p :=
  (lookup_celled (some place) p a.paths place).trans (if_pos rfl)

/-- What ties the store of a run to that of the next, which has all that the first is
going to keep. Identities correspond by `ρ`, and those in the final store to themselves. -/
structure Replays (final : Store α) (like : (Nat → Nat → Prop) → σ → σ → Prop)
    (ρ : Nat → Nat → Prop) (a : Store α) (x : σ) (b : Store α) (y : σ) : Prop where
  within : a.Within final
  values : b.values = final.values
  paths : b.paths = final.paths
  nextUid : final.nextUid ≤ b.nextUid
  biUnique : Relator.BiUnique ρ
  given : ∀ u u', ρ u u' → u < a.nextUid ∧ u' < b.nextUid
  fixed : ∀ u u', ρ u u' → u' < final.nextUid → u = u'
  kept : ∀ place p, a.paths.lookup place = some p → ∃ u, p.uid = some u ∧ ρ u u
  renderer : like ρ x y

def Pairing.replay (final : Store α) (like : (Nat → Nat → Prop) → σ → σ → Prop)
    (random random' : Random) : Pairing σ α where
  numbered := False
  random := random
  random' := random'
  tied a x b y := ∃ ρ, Replays final like ρ a x b y
  going a := a.Within final
  ended a := a = final
  back _ _ within going := within.trans going
  stops a same := same ▸ .refl a

/-- Every outcome leads to its own store. -/
theorem Pairing.replay_heads {β : Type} (o : Outcome Stop (Session σ α) β)
    (like : (Nat → Nat → Prop) → σ → σ → Prop) (random random' : Random) :
    (Pairing.replay o.state.store like random random').Heads o := by
  cases o with
  | ok b t => exact Store.Within.refl t.store
  | failed e t => exact rfl

namespace Replays

variable {final : Store α} {like : (Nat → Nat → Prop) → σ → σ → Prop} {ρ : Nat → Nat → Prop}
  {a b : Store α} {x y : σ}

theorem start {store : Store α} (within : store.Within final)
    (more : store.nextUid ≤ final.nextUid) (below : store.Below)
    (equal : like (Renaming.upTo store.nextUid) x x) (sessions sessions' : Nat) :
    Replays final like (Renaming.upTo store.nextUid) { store with sessions := sessions + 1 } x
      { final with sessions := sessions' + 1 } x where
  within := ⟨within.values, within.paths⟩
  values := rfl
  paths := rfl
  nextUid := Nat.le_refl _
  biUnique := Renaming.biUnique_upTo _
  given := by
    rintro u _ ⟨rfl, low⟩
    exact ⟨low, Nat.lt_of_lt_of_le low more⟩
  fixed _ _ same _ := same.1
  kept place p found := by
    obtain ⟨u, uid, low⟩ := below place p found
    exact ⟨u, uid, rfl, low⟩
  renderer := equal

/-- The second side has every value that the first is going to keep. -/
theorem values_agree (like : (Nat → Nat → Prop) → σ → σ → Prop) (random random' : Random) :
    (Pairing.replay final like random random').Values where
  known := by
    rintro a x b y place v ⟨ρ, h⟩ found
    rw [h.values]
    exact h.within.values place v found
  kept := by
    rintro a x b y place v ⟨ρ, h⟩ - missed going
    have found := going.values place v List.lookup_cons_self
    rw [← h.values, missed] at found
    cases found
  foreseen := by
    rintro a x b y place v w ⟨ρ, h⟩ - found going
    have known := going.values place v List.lookup_cons_self
    rw [← h.values, found] at known
    cases known
    exact ⟨rfl, ρ, { h with within := going, given := h.given, kept := h.kept }⟩
  due := by
    rintro a x b y place w ⟨ρ, h⟩ missed found rfl
    rw [h.values, missed] at found
    cases found

/-! ### Paths -/

variable {r : Renderer σ α}

theorem gain (hr : r.Follows like) (h : Replays final like ρ a x b y) (p p' : Path.Compiled α) :
    Replays final like (Renaming.extend ρ a.nextUid b.nextUid) (a.gain none p) x (b.gain none p')
      y where
  within := ⟨h.within.values, h.within.paths⟩
  values := h.values
  paths := h.paths
  nextUid := Nat.le_succ_of_le h.nextUid
  biUnique := Renaming.biUnique_extend h.biUnique
    (fun u' old => Nat.lt_irrefl _ (h.given _ u' old).1)
    (fun u old => Nat.lt_irrefl _ (h.given u _ old).2)
  given := by
    rintro u u' (old | ⟨rfl, rfl⟩)
    · exact ⟨Nat.lt_succ_of_lt (h.given u u' old).1, Nat.lt_succ_of_lt (h.given u u' old).2⟩
    · exact ⟨Nat.lt_succ_self _, Nat.lt_succ_self _⟩
  fixed := by
    rintro u u' (old | ⟨rfl, rfl⟩) low
    · exact h.fixed u u' old low
    · exact absurd h.nextUid (Nat.not_le_of_lt low)
  kept place q found := by
    obtain ⟨u, uid, paired⟩ := h.kept place q found
    exact ⟨u, uid, .inl paired⟩
  renderer := hr.mono ρ _ _ _ (fun _ _ => .inl) h.renderer

/-- The first side builds a path that the second has found. Its identity is the one that
the path has in the final store. -/
theorem gainFirst (hr : r.Follows like) (h : Replays final like ρ a x b y) {c : Store α}
    {place : Address} {p : Path.Compiled α} (untouched : c.paths = a.paths)
    (next : c.nextUid = a.nextUid) (uid : p.uid = some c.nextUid) (low : c.nextUid < final.nextUid)
    (going : (c.gain (some place) p).Within final) :
    Replays final like (Renaming.extend ρ c.nextUid c.nextUid) (c.gain (some place) p) x b y where
  within := going
  values := h.values
  paths := h.paths
  nextUid := h.nextUid
  biUnique := by
    have fresh : ∀ u', ¬ ρ c.nextUid u' := fun u' old =>
      Nat.lt_irrefl _ (next ▸ (h.given _ u' old).1)
    refine Renaming.biUnique_extend h.biUnique fresh fun u old => ?_
    cases h.fixed u _ old low
    exact fresh _ old
  given := by
    rintro u u' (old | ⟨rfl, rfl⟩)
    · exact ⟨Nat.lt_succ_of_lt (next ▸ (h.given u u' old).1), (h.given u u' old).2⟩
    · exact ⟨Nat.lt_succ_self _, Nat.lt_of_lt_of_le low h.nextUid⟩
  fixed := by
    rintro u u' (old | ⟨rfl, rfl⟩) low
    · exact h.fixed u u' old low
    · rfl
  kept other q found := by
    change ((some place).toList.map (·, p) ++ c.paths).lookup other = some q at found
    rw [lookup_celled] at found
    split at found
    · cases found
      exact ⟨_, uid, .inr ⟨rfl, rfl⟩⟩
    · obtain ⟨u, uid, paired⟩ := h.kept other q (untouched ▸ found)
      exact ⟨u, uid, .inl paired⟩
  renderer := hr.mono ρ _ _ _ (fun _ _ => .inl) h.renderer

variable [Scalar α]

theorem drawAll (hr : r.Follows like) (h : Replays final like ρ a x b y) {u u' : Nat}
    (paired : ρ u u') {p p' : Path.Compiled α} (alike : p.erased = p'.erased) (i : Instance α)
    (commands : List (Path.Command α)) :
    Replays final like ρ a (r.drawAll i u p commands x) b (r.drawAll i u' p' commands y) := by
  refine { h with renderer := ?_ }
  exact Renderer.drawAll_rel (fun command _ _ => (hr.respects ρ h.biUnique).path _ u u' p p' command
    _ _ ⟨paired, alike⟩) commands h.renderer

theorem paths_agree (hr : r.Follows like) (below : final.Below) (random random' : Random) :
    (Pairing.replay final like random random').Paths r where
  known := by
    rintro a x b y place p ⟨ρ, h⟩ found
    obtain ⟨u, uid, paired⟩ := h.kept place p found
    refine ⟨p, ?_, rfl, .named uid uid fun i commands => ⟨ρ, h.drawAll hr paired rfl i commands⟩⟩
    rw [h.paths]
    exact h.within.paths place p found
  built := by
    rintro a x b y cell p p' ⟨ρ, h⟩ missed alike - uid uid' going
    cases cell with
    | none =>
      exact .named uid uid' fun i commands =>
        ⟨_, (h.gain hr p p').drawAll hr (.inr ⟨rfl, rfl⟩) alike i commands⟩
    | some place =>
      -- The second side would have found it.
      have found := going.paths place p (a.lookup_gain place p)
      rw [← h.paths, missed place rfl] at found
      cases found
  foreseen := by
    rintro a c x b y place p p' ⟨ρ, h⟩ missed found - untouched next uid going
    have known := going.paths place p (c.lookup_gain place p)
    obtain ⟨u, uid', low⟩ := below place p known
    cases uid.symm.trans uid'
    have renewed := h.gainFirst hr untouched next uid low going
    rw [← h.paths, found] at known
    cases known
    exact ⟨rfl, .named uid uid fun i commands =>
      ⟨_, renewed.drawAll hr (.inr ⟨rfl, rfl⟩) rfl i commands⟩⟩
  due := by
    rintro a c x b y place p' ⟨ρ, h⟩ missed found untouched rfl
    rw [h.paths, untouched, missed] at found
    cases found

theorem agrees (hr : r.Follows like) (below : final.Below) (random random' : Random) :
    (Pairing.replay final like random random').Agrees r where
  cutoff := by
    rintro i depth a x b y ⟨ρ, h⟩
    obtain ⟨verdict, next⟩ := (hr.respects ρ h.biUnique).cutoff i depth _ _ h.renderer
    exact ⟨verdict, ρ, { h with renderer := next }⟩
  primitive := by
    rintro i p a x b y ⟨ρ, h⟩
    exact ⟨ρ, { h with renderer := (hr.respects ρ h.biUnique).primitive i p _ _ h.renderer }⟩
  values := values_agree like random random'
  paths := paths_agree hr below random random'

end Replays

/-! ### Stores that runs leave behind -/

section Loaded

variable [Scalar α] {d : Draft α} {g : Grammar α} (drafted : d.Drafted) (built : d.build = .ok g)

def Account.below (g : Grammar α) (r : Renderer σ α) (n : Nat) : Account g r fun _ => id where
  kept b := n ≤ b.nextUid ∧
    ∀ place p, b.paths.lookup place = some p → ∃ uid, p.uid = some uid ∧ uid < b.nextUid
  admitted b := n ≤ b.nextUid ∧
    ∀ place p, b.paths.lookup place = some p → ∃ uid, p.uid = some uid ∧ uid < b.nextUid
  allow _ _ _ _ kept _ := kept
  refuse _ _ _ _ _ kept _ _ := kept
  primitive _ _ _ kept := kept
  settled _ := id
  taken _ _ _ _ _ kept := kept
  path _ _ rule _ p _ b b' _ kept fetched _ := by
    cases fetched with
    | kept _ _ => exact kept
    | built _ uid _ =>
      refine ⟨Nat.le_succ_of_le kept.1, fun place q found => ?_⟩
      change (rule.cell.toList.map (·, p) ++ b.paths).lookup place = some q at found
      rw [lookup_celled] at found
      split at found
      · cases found
        exact ⟨_, uid, Nat.lt_succ_self _⟩
      · obtain ⟨v, uid, low⟩ := kept.2 place q found
        exact ⟨v, uid, Nat.lt_succ_of_lt low⟩

include drafted built

theorem Setting.run_below (r : Renderer σ α) (options : Options) (fuel start : Nat)
    {s : Session σ α} (below : s.store.Below) :
    s.store.nextUid ≤ (((standard g r options).run fuel start).run s).state.store.nextUid ∧
      (((standard g r options).run fuel start).run s).state.store.Below := by
  have kept := runNoting_kept drafted built (Account.below g r s.store.nextUid) options fuel start
    ⟨Nat.le_refl _, below⟩
  rw [runNoting_id] at kept
  exact kept

theorem Grammar.Left.identified {store : Store α} (left : g.Left store) : store.Below := by
  induction left with
  | empty => exact nofun
  | session _ ih => exact ih
  | @run σ r options fuel start s t rest _ ends ih =>
    exact ends.state_eq ▸ (Setting.run_below drafted built r options fuel start ih).2

end Loaded

/-! ### Runs in succession -/

/-- Like states of the renderer, after calls that are the same up to the identities of
paths. -/
def SameCalls (like : (Nat → Nat → Prop) → σ → σ → Prop)
    (u u' : Session (σ × Array (Call α)) α) : Prop :=
  ∃ ρ, Relator.BiUnique ρ ∧
    Renderer.Alike (Path.Compiled.Alike ρ) (like ρ) u.renderer u'.renderer

namespace Setting

variable [Scalar α] {d : Draft α} {g : Grammar α}

theorem run_forward (drafted : d.Drafted) (built : d.build = .ok g) (quiet : g.Quiet)
    (r : Renderer σ α) (options : Options) (fuel start : Nat) :
    ((standard g r options).run fuel start).Forward := by
  rcases begins_or_fails g r start with ⟨shape, found, takes⟩ | ⟨-, e, fails⟩
  · have stack := runFrom_stack (t := standard g r options) Session.environmentAt_keeps fuel shape
    intro s
    rw [run_eq found takes]
    exact ((runFrom_foreseen drafted built quiet options (Pairing.same_agrees ⟨0⟩ ⟨0⟩ r) fuel
      shape).inFrame stack stack).forward ((standard g r options).begun shape s)
  · rw [fails]
    exact Action.forward_of_store fun _ => rfl

/-- The next run, with any seed and any variation, ends as the run before it has. -/
theorem run_replayed (drafted : d.Drafted) (built : d.build = .ok g) (quiet : g.Quiet)
    {r : Renderer σ α} {like : (Nat → Nat → Prop) → σ → σ → Prop} (hr : r.Follows like)
    (options options' : Options) (fuel start : Nat) (seed seed' : UInt64) {store : Store α}
    (below : store.Below) {x : σ} (equal : like (Renaming.upTo store.nextUid) x x) :
    let P : Session σ α → Session σ α → Prop := fun u u' =>
      ∃ ρ, Relator.BiUnique ρ ∧ like ρ u.renderer u'.renderer
    let first := ((standard g r options).run fuel start).run (.begin seed store x)
    Meets (Parting.alike P) P Eq first
      (((standard g r options').run fuel start).run (.begin seed' first.state.store x)) := by
  intro P first
  rcases begins_or_fails g r start with ⟨shape, found, takes⟩ | ⟨-, e, fails⟩
  · have forward := run_forward drafted built quiet r options fuel start (.begin seed store x)
    obtain ⟨more, after⟩ := run_below drafted built r options fuel start
      (s := .begin seed store x) below
    let k : Pairing σ α := .replay first.state.store like
      ((standard g r options).startRandom shape.name)
      ((standard g r options').startRandom shape.name)
    have tied := Replays.start forward more below equal store.sessions first.state.store.sessions
    have holds : k.Holds ((standard g r options).begun shape (.begin seed store x))
        ((standard g r options').begun shape (.begin seed' first.state.store x)) :=
      { slots := rfl
        frames := rfl
        view := rfl
        session := nofun
        quiet := nofun
        rest := ⟨rfl, rfl, rfl, rfl, .none, _, tied⟩ }
    have heads : k.Heads first := Pairing.replay_heads first like _ _
    have meets := run_foreseen drafted built quiet (Replays.agrees hr after _ _) options options'
      found takes fuel holds heads
    refine meets.weaken ⟨?_, fun _ => id⟩ ?_ fun _ _ => id
    · rintro e e' u u' ⟨same, ended⟩
      obtain ⟨ρ, h⟩ := ended.rest.tied
      exact ⟨same, ρ, h.biUnique, h.renderer⟩
    · rintro u u' ended
      obtain ⟨ρ, h⟩ := ended.rest.tied
      exact ⟨ρ, h.biUnique, h.renderer⟩
  · simp only [first, fails, run_fail]
    exact .together ⟨rfl, _, Renaming.biUnique_upTo _, equal⟩

/-- A grammar that is quiet is drawn the same with any two seeds and variations. From one
store the runs are equal but for their random states. A run from what the first has left
behind makes the same calls, up to the identities of paths, and ends with the same result.
Every run that begins keeps the random state it began with, whatever comes of it. -/
theorem seeds_make_no_difference (drafted : d.Drafted) (built : d.build = .ok g)
    (quiet : g.Quiet) (r : Renderer σ α) (options options' : Options) (fuel start : Nat)
    {store : Store α} (left : g.Left store) (x : σ) :
    let t := standard g r.traced options
    let t' := standard g r.traced options'
    let first := (t.run fuel start).run (.begin options.seed store (x, #[]))
    let beside := (t'.run fuel start).run (.begin options'.seed store (x, #[]))
    let next := (t'.run fuel start).run (.begin options'.seed first.state.store (x, #[]))
    (∀ random, beside.mapState (Session.reseeded random) =
      first.mapState (Session.reseeded random)) ∧
    (∀ like, r.Follows like → like (Renaming.upTo store.nextUid) x x →
      Meets (Parting.alike (SameCalls like)) (SameCalls like) Eq first next) ∧
    ∀ shape, g.shapes[start]? = some shape → shape.params.length = 0 →
      first.state.random = t.startRandom shape.name ∧
        beside.state.random = t'.startRandom shape.name ∧
        next.state.random = t'.startRandom shape.name := by
  intro t t' first beside next
  have empty : ∀ (seed : UInt64) (store : Store α),
      (Session.begin seed store (x, (#[] : Array (Call α)))).stack.Quiet := fun _ _ => nofun
  obtain ⟨equal, random⟩ := run_reseeded drafted built quiet r.traced options options' fuel start
    (empty options.seed store) ⟨options'.seed⟩
  obtain ⟨-, random'⟩ := run_reseeded drafted built quiet r.traced options' options' fuel start
    (empty options'.seed first.state.store) ⟨0⟩
  refine ⟨equal, fun like follows alike => ?_, fun shape found takes => ?_⟩
  · exact run_replayed drafted built quiet follows.traced options options' fuel start _ _
      (left.identified drafted built) ⟨alike, .nil⟩
  · obtain ⟨own, own'⟩ := random shape found takes
    exact ⟨own, own', (random' shape found takes).1⟩

end Setting

/-! ### A quiet grammar -/

namespace Sample

def pair : Body Rat :=
  .ofStatements [.replace ⟨.shape 0, [], ⟨[⟨.x, [var "side"], .none⟩], false⟩, .none⟩,
    .replace (head (.shape 0))]

def paired : Draft Rat :=
  ((((Draft.empty.declareShape "wedge" true []).1.declareShape "pair" false []).1.addGlobal
    (constant "side" (number 2)) .none).addRule 0 .unstated wedge .none).addRule 1 .unstated
    pair .none

theorem paired_drafted : paired.Drafted := by
  have none : (Draft.empty : Draft Rat).Drafted := .empty
  have declared := (none.declareShape "wedge" true []).declareShape "pair" false []
  have made : ∀ st ∈ pair.statements, st.Made := by
    rintro st (_ | ⟨_, _ | ⟨_, ⟨⟩⟩⟩)
    · exact .replace _
    · exact .replace _
  exact ((declared.addGlobal _ .none).addRule 0 .unstated wedge_made .none).addRule 1 .unstated
    made .none

theorem paired_build : paired.build = .ok paired.resolved := by
  have errors : paired.errors = [] := by decide +kernel
  exact Draft.build_eq_ok.mpr ⟨errors, rfl⟩

theorem paired_quiet : paired.resolved.Quiet := by decide +kernel

def otherOptions : Options := ⟨8, some "b"⟩

end Sample

theorem Setting.seeds_make_no_difference_paired :
    Sample.paired.Drafted ∧ Sample.paired.build = .ok Sample.paired.resolved ∧
      Sample.paired.resolved.Quiet ∧ Sample.paired.resolved.Left .empty ∧
      let t := standard Sample.paired.resolved Sample.renderer Sample.options
      let t' := standard Sample.paired.resolved Sample.renderer Sample.otherOptions
      let first := (t.run 9 1).run (Sample.session .empty)
      let next := (t'.run 9 1).run
        (.begin Sample.otherOptions.seed first.state.store (.empty, #[]))
      first.state.renderer.2.size = 5 ∧
        Meets (Parting.alike (SameCalls fun _ x x' => x.draws.size = x'.draws.size))
          (SameCalls fun _ x x' => x.draws.size = x'.draws.size) Eq first next ∧
        first.state.random = t.startRandom "pair" ∧ next.state.random = t'.startRandom "pair" := by
  have follows : (Recorder.renderer (.standard : Limits Rat)).Follows
      fun _ x x' => x.draws.size = x'.draws.size :=
    ⟨fun _ _ => Recorder.respects .standard _, fun _ _ _ _ _ => id⟩
  have calls : (((standard Sample.paired.resolved Sample.renderer Sample.options).run 9 1).run
      (Sample.session .empty)).state.renderer.2.size = 5 := by decide +kernel
  obtain ⟨-, replayed, random⟩ := seeds_make_no_difference Sample.paired_drafted
    Sample.paired_build Sample.paired_quiet (Recorder.renderer .standard) Sample.options
    Sample.otherOptions 9 1 .empty .empty
  obtain ⟨own, -, own'⟩ := random Sample.paired.resolved.shapes[1] rfl rfl
  exact ⟨Sample.paired_drafted, Sample.paired_build, Sample.paired_quiet, .empty, calls,
    replayed _ follows rfl, own, own'⟩

end ShapeGrammar
