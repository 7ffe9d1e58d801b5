import ShapeGrammar.Proofs.Legacy
import ShapeGrammar.Proofs.Rendering

/-!
# Reuse cannot be seen

An expansion takes constant ranges and arguments from the load, and values and
paths from the store once they are there. An expansion that works everything
out afresh, each time it comes by, draws the same picture, gives the same result
and leaves the random state where the first one leaves it.
-/

set_option autoImplicit false

namespace ShapeGrammar

open Attempt

variable {σ α : Type} [Scalar α]

structure Even (d : Draft α) (g : Grammar α) (enough : Nat) (like : σ → σ → Prop)
    (c c' : Cargo σ α) : Prop where
  random : c.random = c'.random
  renderer : like c.renderer c'.renderer
  sound : c.store.Sound d.values
  sound' : c'.store.Sound d.values
  rebuilds : c.store.Rebuilds d g enough
  rebuilds' : c'.store.Rebuilds d g enough

namespace Even

variable {d : Draft α} {g : Grammar α} {enough : Nat} {like : σ → σ → Prop} {r : Renderer σ α}

theorem ties (hr : r.Respects (Path.Compiled.Alike fun _ _ => True) like) :
    Ties d r r (Even d g enough like) where
  random _ _ h := h.random
  draw _ _ _ h := { h with random := rfl }
  building _ _ _ _ h := { h with }
  sound _ _ h := ⟨h.sound, h.sound'⟩
  keep _ _ _ _ h hv := { h with sound := h.sound.keep hv }
  keep' _ _ _ _ h hv := { h with sound' := h.sound'.keep hv }
  cutoff _ _ i depth h :=
    have answer := hr.cutoff i depth _ _ h.renderer
    ⟨answer.1, { h with renderer := answer.2 }⟩
  primitive _ _ i p h := { h with renderer := hr.primitive i p _ _ h.renderer }

theorem drawable (hr : r.Respects (Path.Compiled.Alike fun _ _ => True) like)
    {p p' : Path.Compiled α} (uid : p.uid.isSome = true) (uid' : p'.uid.isSome = true)
    (alike : p.erased = p'.erased) {c c' : Cargo σ α} (h : Even d g enough like c c') :
    Drawable r r (Even d g enough like) p p' c c' := by
  obtain ⟨uid, hu⟩ := Option.isSome_iff_exists.mp uid
  obtain ⟨uid', hu'⟩ := Option.isSome_iff_exists.mp uid'
  refine ⟨Even d g enough like, uid, uid', hu, hu', ⟨fun _ _ => id, ?_⟩, h⟩
  intro c c' i command h
  exact { h with
    renderer := hr.path i uid uid' p p' command _ _ ⟨trivial, alike⟩ h.renderer }

theorem gain {c c' e : Cargo σ α} {cell : Option Address} {p : Path.Compiled α}
    (h : Even d g enough like c c') (gains : c.Gains d g enough cell p e) :
    Even d g enough like e c' where
  random := gains.random.trans h.random
  renderer := by
    rw [gains.renderer]
    exact h.renderer
  sound := gains.sound
  sound' := h.sound'
  rebuilds := gains.rebuilds
  rebuilds' := h.rebuilds'

theorem gain' {c c' e' : Cargo σ α} {cell : Option Address} {p : Path.Compiled α}
    (h : Even d g enough like c c') (gains : c'.Gains d g enough cell p e') :
    Even d g enough like c e' where
  random := h.random.trans gains.random.symm
  renderer := by
    rw [gains.renderer]
    exact h.renderer
  sound := h.sound
  sound' := gains.sound
  rebuilds := h.rebuilds
  rebuilds' := gains.rebuilds

theorem stocked (hr : r.Respects (Path.Compiled.Alike fun _ _ => True) like) {c c' : Context σ α}
    (renderer : c.renderer = r) (renderer' : c'.renderer = r) :
    Stocked d g enough False (Even d g enough like) c c' where
  rebuilds _ _ h := ⟨h.rebuilds, h.rebuilds'⟩
  built rule a a' e e' p p' h alike _ gains gains' := by
    rw [renderer, renderer']
    exact drawable hr (gains.uid ▸ rfl) (gains'.uid ▸ rfl) alike ((h.gain gains).gain' gains')
  lent rule place a a' e' p p' h alike _ found gains' := by
    rw [renderer, renderer']
    exact drawable hr (h.rebuilds place p found).1 (gains'.uid ▸ rfl) alike (h.gain' gains')
  borrowed rule place a a' e p p' h alike gains _ found' := by
    rw [renderer, renderer']
    exact drawable hr (gains.uid ▸ rfl) (h.rebuilds' place p' found').1 alike (h.gain gains)
  had place a a' p p' h alike found found' := by
    rw [renderer, renderer']
    exact drawable hr (h.rebuilds place p found).1 (h.rebuilds' place p' found').1 alike h

/-- Two settings that may differ in what they reuse. -/
theorem matched (loads : d.Loads g) (hr : r.Respects (Path.Compiled.Alike fun _ _ => True) like)
    {t t' : Setting σ α} (runs : t.Runs g) (runs' : t'.Runs g) (renderer : t.renderer = r)
    (renderer' : t'.renderer = r) {fuel extra : Nat} (low : fuel ≤ enough)
    (high : enough ≤ extra) :
    Setting.Matched d g False (Even d g enough like) t t' fuel extra := by
  refine .of_stocked loads runs runs' ?_ (fun _ _ => stocked hr renderer renderer') low high
  rw [renderer, renderer']
  exact Even.ties hr

end Even

theorem Sample.draft_clear : draft.Clear := by
  change ∀ b ∈ draft.globals :: draft.bodies, ∀ st ∈ b.flatten, st.shadows = false
  decide +kernel

namespace Setting

/-- The setting that evaluates every define, range and argument and builds every
path each time it comes by. -/
def afresh (g : Grammar α) (r : Renderer σ α) (options : Options) : Setting σ α :=
  ⟨g, r, options, ⟨false, true⟩, Session.environmentAt⟩

abbrev EndAlike (P : Session σ α → Session σ α → Prop) :
    Outcome Stop (Session σ α) Unit → Outcome Stop (Session σ α) Unit → Prop :=
  Meets ⟨fun e e' u u' => e = e' ∧ P u u', (· = .outOfFuel)⟩ P Eq

def SameDrawing (same : PathRel α) (like : σ → σ → Prop)
    (u u' : Session (σ × Array (Call α)) α) : Prop :=
  u.random = u'.random ∧ Renderer.Alike same like u.renderer u'.renderer

/-- Two settings that differ in what they reuse end alike, with fuel enough on
the second side to build again what the first side finds in its store. -/
theorem run_even {d : Draft α} {g : Grammar α} (loads : d.Loads g) {r : Renderer σ α}
    {like : σ → σ → Prop} (hr : r.Respects (Path.Compiled.Alike fun _ _ => True) like)
    {t t' : Setting σ α} (runs : t.Runs g) (runs' : t'.Runs g) (renderer : t.renderer = r)
    (renderer' : t'.renderer = r) (options : t.options = t'.options) (start : Nat)
    {s : Session σ α} (rest : s.AtRest) {enough : Nat} (legacy : s.store.Legacy d g enough)
    (refl : like s.renderer s.renderer) {fuel m : Nat} (hm : max enough fuel + fuel ≤ m) :
    EndAlike (fun u u' => u.random = u'.random ∧ like u.renderer u'.renderer)
      ((t.run fuel start).run s) ((t'.run m start).run s) := by
  obtain ⟨extra, rfl⟩ := Nat.exists_eq_add_of_le' (Nat.le_trans (Nat.le_add_left _ _) hm)
  have high : max enough fuel ≤ extra := Nat.le_of_add_le_add_right hm
  have rebuilds := legacy.rebuilds.mono (Nat.le_max_left enough fuel)
  have matched := Even.matched loads hr runs runs' renderer renderer'
    (Nat.le_max_right enough fuel) high
  have meets := matched.run options start rest rest False.elim
    ⟨rfl, refl, legacy.sound, legacy.sound, rebuilds, rebuilds⟩
  refine meets.weaken ⟨fun e e' u u' parted => ?_, fun _ => id⟩ (fun u u' outside => ?_)
    fun _ _ => id
  · exact ⟨parted.1, parted.2.tied.random, parted.2.tied.renderer⟩
  · exact ⟨outside.tied.random, outside.tied.renderer⟩

/-- Whatever earlier runs have left in the store, a run that reuses it and a run
that works everything out afresh end alike, each with fuel enough for the other:
with the same result, the same random state and the same calls of a renderer
whose answers do not depend on the identities of paths. -/
theorem reuse_transparent {d : Draft α} {g : Grammar α} (drafted : d.Drafted)
    (built : d.build = .ok g) (clear : d.Clear) {r : Renderer σ α} {like : σ → σ → Prop}
    (respects : r.Respects (Path.Compiled.Alike fun _ _ => True) like) (options : Options)
    (start : Nat) {s : Session (σ × Array (Call α)) α} (rest : s.AtRest)
    (left : g.Left s.store) (refl : like s.renderer.1 s.renderer.1) (fuel : Nat) :
    ∃ enough, ∀ m, enough ≤ m →
      EndAlike (SameDrawing (Path.Compiled.Alike fun _ _ => True) like)
        (((standard g r.traced options).run fuel start).run s)
        (((afresh g r.traced options).run m start).run s) ∧
      EndAlike (SameDrawing (Path.Compiled.Alike fun _ _ => True) like)
        (((afresh g r.traced options).run fuel start).run s)
        (((standard g r.traced options).run m start).run s) := by
  have loads : d.Loads g := ⟨drafted, built, clear⟩
  obtain ⟨enough, legacy⟩ := left.legacy loads
  have calls : Renderer.Alike (Path.Compiled.Alike fun _ _ => True) like s.renderer s.renderer :=
    ⟨refl, List.forall₂_same.mpr fun call _ => .refl (fun _ _ => ⟨trivial, rfl⟩) call⟩
  have runs := standard_runs g r.traced options
  have runs' : (afresh g r.traced options).Runs g := ⟨rfl, rfl, rfl⟩
  refine ⟨max enough fuel + fuel, fun m hm => ⟨?_, ?_⟩⟩
  · exact run_even loads respects.traced runs runs' rfl rfl rfl start rest legacy calls hm
  · exact run_even loads respects.traced runs' runs rfl rfl rfl start rest legacy calls hm

theorem reuse_transparent_sample :
    Sample.draft.Drafted ∧ Sample.draft.build = .ok Sample.grammar ∧ Sample.draft.Clear ∧
      Sample.grammar.Left (Sample.session Sample.first.state.store).store ∧
      ∃ enough, ∀ m, enough ≤ m →
        EndAlike (SameDrawing (Path.Compiled.Alike fun _ _ => True)
            fun x x' => x.draws.size = x'.draws.size)
          (((standard Sample.grammar Sample.renderer Sample.options).run 9 1).run
            (Sample.session Sample.first.state.store))
          (((afresh Sample.grammar Sample.renderer Sample.options).run m 1).run
            (Sample.session Sample.first.state.store)) := by
  have left : Sample.grammar.Left (Sample.session Sample.first.state.store).store :=
    .session Sample.first_left
  obtain ⟨enough, alike⟩ := reuse_transparent Sample.draft_drafted Sample.draft_build
    Sample.draft_clear (Recorder.respects .standard _) Sample.options 1
    (Session.begin_atRest _ _ _) left rfl 9
  exact ⟨Sample.draft_drafted, Sample.draft_build, Sample.draft_clear, left, enough,
    fun m hm => (alike m hm).1⟩

end Setting

end ShapeGrammar
