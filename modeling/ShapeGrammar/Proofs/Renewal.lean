import ShapeGrammar.Proofs.Drafting
import ShapeGrammar.Proofs.SameStack.Expansion
import ShapeGrammar.Proofs.Sample

/-!
# Using a session again

A run depends on its session only through what a new session starts with as
well. The number of the session shows up in the handles of paths and nowhere
else, and where the globals of an earlier run ended is overwritten before it is
read.
-/

set_option autoImplicit false

namespace ShapeGrammar

open Attempt

variable {σ α : Type}

/-- What a run leaves to the outside and to later runs, up to the handles of
paths. -/
structure SameLegacy (like : σ → σ → Prop) (s s' : Session σ α) : Prop where
  values : s.store.values = s'.store.values
  paths : List.Forall₂ (fun e e' => e.1 = e'.1 ∧ e.2.Same e'.2) s.store.paths s'.store.paths
  nextUid : s.store.nextUid = s'.store.nextUid
  renderer : like s.renderer s'.renderer

theorem Aligned.legacy {numbered late : Prop} {B : Path.Compiled α → Path.Compiled α → Prop}
    {like : σ → σ → Prop} {s s' : Session σ α} (h : Aligned numbered B like late s s') :
    SameLegacy like s s' where
  values := h.values
  paths := h.paths.imp fun _ _ kept => ⟨kept.1, kept.2.drawn, kept.2.uid⟩
  nextUid := h.nextUid
  renderer := h.renderer

theorem SameLegacy.aligned {like : σ → σ → Prop} {s s' : Session σ α} (h : SameLegacy like s s')
    (rest : s.AtRest) (rest' : s'.AtRest) :
    Aligned False (Path.Compiled.Kin False) like False s s' where
  values := h.values
  paths := h.paths.imp fun _ _ kept => ⟨kept.1, kept.2.1, kept.2.2, False.elim⟩
  nextUid := h.nextUid
  sessions := False.elim
  renderer := h.renderer
  globalsEnd := False.elim
  depth := rest.depth.trans rest'.depth.symm
  building := by
    rw [rest.building, rest'.building]
    exact .none

theorem Renderer.Respects.concurs {r : Renderer σ α} {like : σ → σ → Prop}
    (h : r.Respects (Path.Compiled.Alike Eq) like) : r.Concurs r False Eq like where
  cutoff i _ depth s s' same states := same ▸ h.cutoff i depth s s' states
  primitive i _ p s s' same states := same ▸ h.primitive i p s s' states
  path i _ uid p p' command s s' same kin states :=
    same ▸ h.path i uid uid p p' command s s' ⟨rfl, kin.drawn⟩ states

/-- The shape is there and takes no arguments. -/
def Grammar.Starts (g : Grammar α) (start : Nat) : Prop :=
  ∃ shape, g.shapes[start]? = some shape ∧ shape.params.length = 0

variable [Scalar α]

/-! ### Runs -/

namespace Setting

variable {like : σ → σ → Prop} {g : Grammar α} {r : Renderer σ α}

/-- Two runs that part have left the same behind, and once they had `begun` they part in
one random state. -/
def sameRun (begun : Prop) (like : σ → σ → Prop) :
    Parting Stop Stop (Session σ α) (Session σ α) where
  together e e' s s' := e = e' ∧ (begun → s.random = s'.random) ∧ SameLegacy like s s'
  alone _ := False

/-- A run from rest goes as a run from any other session at rest that inherits
the same. -/
theorem run_renewed (options : Options) (hr : r.Respects (Path.Compiled.Alike Eq) like)
    (hg : ∀ st ∈ g.globals.statements, ∃ h d, st = .define h d) (fuel start : Nat)
    {s s' : Session σ α} (hs : s.AtRest) (hs' : s'.AtRest) (same : SameLegacy like s s') :
    Meets (sameRun (g.Starts start) like) (fun t t' => t.random = t'.random ∧ SameLegacy like t t')
      Eq (((standard g r options).run fuel start).run s)
      (((standard g r options).run fuel start).run s') := by
  unfold Setting.run
  rw [standard_grammar]
  -- A run that fails on its start shape has not begun, and leaves both sessions as they were.
  split
  case h_1 missing =>
    refine .together ⟨rfl, ?_, same⟩
    rintro ⟨shape, found, -⟩
    cases missing.symm.trans found
  case h_2 shape found =>
    split
    case isTrue takes =>
      refine .together ⟨rfl, ?_, same⟩
      rintro ⟨_, found', none⟩
      cases found.symm.trans found'
      exact absurd none takes
    case isFalse =>
      have moves : Aligned.Moves False (Path.Compiled.Kin False) like False
          (Action.inFrame ((standard g r options).runFrom fuel shape))
          (Action.inFrame ((standard g r options).runFrom fuel shape)) := by
        rw [← runFromNoting_id]
        exact inFrame_runFromNoting_parallel options hr.concurs (fun _ _ _ => id) hg fuel shape
      refine (moves _ _ ?_).weaken ⟨fun _ _ _ _ parted => ⟨parted.1, fun _ => parted.2.random,
        parted.2.rest.legacy⟩, fun _ => id⟩ (fun _ _ ht => ⟨ht.random, ht.rest.legacy⟩)
        fun _ _ => id
      exact {
        slots := hs.slots.trans hs'.slots.symm
        frames := hs.frames.trans hs'.frames.symm
        view := rfl
        random := rfl
        session := False.elim
        rest := Aligned.steady (same.aligned hs hs') s.stack s'.stack .full .full _ _ }

/-- Every way out of a body, an expansion, a call, a lookup and a build finds the
stack, the view, the depth and the open path as they were on the way in, and so
does every statement but for the slot of a define that succeeded. No frame is
ever found below its mark, a run ends at rest, and it goes as in a new session: with
the same result and the same calls, the same left behind, and the random state the same
as well once it has begun. -/
theorem restores_session {d : Draft α} (hd : d.Drafted) (hg : d.build = .ok g)
    (r : Renderer σ α) (options : Options) (fuel : Nat) :
    let t := standard g r.traced options
    let c := t.contextAt fuel (t.expand fuel)
    (∀ b parent follows seed, Action.Keeps (c.enterBody b parent follows seed)) ∧
    (∀ i, Action.Keeps (t.expand fuel i)) ∧
    (∀ name args span, Action.Keeps (c.env.call name args span)) ∧
    (∀ name span, Action.Keeps (c.env.lookup name span)) ∧
    (∀ rule params, Action.Keeps (Context.buildPath rule (c.enterBody rule.body) params)) ∧
    (∀ st parent follows, Action.Adds st.bound (c.run st parent follows)) ∧
    ∀ start s, s.AtRest →
      ((t.run fuel start).run s).Ends Session.AtRest (fun e u => e.Contained ∧ u.AtRest) ∧
      ∀ seed like, r.Respects (Path.Compiled.Alike Eq) like → like s.renderer.1 s.renderer.1 →
        Meets (sameRun (g.Starts start) (Renderer.Alike (Path.Compiled.Alike Eq) like))
          (fun u u' => u.random = u'.random ∧
            SameLegacy (Renderer.Alike (Path.Compiled.Alike Eq) like) u u') Eq
          ((t.run fuel start).run s)
          ((t.run fuel start).run (Session.begin seed s.store s.renderer)) := by
  intro t c
  have env := standard_keeps g r.traced options
  have keeps : c.Keeps := ⟨env fuel, expand_keeps env fuel⟩
  refine ⟨keeps.enterBody, keeps.expand, keeps.env.call, keeps.env.lookup, ?_, keeps.run, ?_⟩
  · exact fun rule params => Context.keeps_buildPath rule (keeps.enterBody rule.body) params
  intro start s hs
  refine ⟨run_atRest env fuel start hs, fun seed like hr refl => ?_⟩
  refine run_renewed options hr.traced (hd.globals hg) fuel start hs (Session.begin_atRest _ _ _) ?_
  exact {
    values := rfl
    paths := List.forall₂_same.mpr fun _ _ => ⟨rfl, rfl, rfl⟩
    nextUid := rfl
    renderer := ⟨refl, List.forall₂_same.mpr fun call _ => .refl (fun _ _ => ⟨rfl, rfl⟩) call⟩ }

theorem restores_session_sample :
    Sample.draft.Drafted ∧ Sample.draft.build = .ok Sample.grammar ∧ Sample.first.state.AtRest ∧
      Sample.grammar.Starts 1 ∧
      Meets (sameRun (Sample.grammar.Starts 1)
          (Renderer.Alike (Path.Compiled.Alike Eq) fun x x' => x.draws.size = x'.draws.size))
        (fun u u' => u.random = u'.random ∧ SameLegacy
          (Renderer.Alike (Path.Compiled.Alike Eq) fun x x' => x.draws.size = x'.draws.size) u u')
        Eq (((standard Sample.grammar Sample.renderer Sample.options).run 9 1).run Sample.first.state)
        (((standard Sample.grammar Sample.renderer Sample.options).run 9 1).run
          (Session.begin 3 Sample.first.state.store Sample.first.state.renderer)) := by
  have restores := restores_session Sample.draft_drafted Sample.draft_build
    (Recorder.renderer .standard) Sample.options 9
  obtain ⟨-, -, -, -, -, -, runs⟩ := restores
  have first : Sample.first.Ends Session.AtRest fun e u => e.Contained ∧ u.AtRest :=
    (runs 1 (Sample.session .empty) (Session.begin_atRest _ _ _)).1
  have rest : Sample.first.state.AtRest := by
    obtain ⟨t, ended⟩ := Sample.first_ok
    rw [ended] at first ⊢
    exact first
  exact ⟨Sample.draft_drafted, Sample.draft_build, rest, ⟨_, rfl, rfl⟩,
    (runs 1 Sample.first.state rest).2 3 _ (Recorder.respects _ _) rfl⟩

end Setting

end ShapeGrammar
