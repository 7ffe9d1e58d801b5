import ShapeGrammar.Proofs.SameSight.Runs
import ShapeGrammar.Proofs.Sample

/-!
# Callers do not matter

An instance is expanded in sight of the globals alone. Whatever its callers have
bound, however high they have left the stack and whatever they had in view, the
expansion comes to the same end. Only the height at which a path was begun shows
in the handle of that path.
-/

set_option autoImplicit false

namespace ShapeGrammar

open Attempt

variable {σ α : Type}

/-! ### Sessions above the same globals -/

/-- Two points of a session at which the same instance may be expanded: they
share the globals and all that is no binding, and no path is open. The slots
above the globals, the frames and the views are left free. -/
structure Session.ShareGlobals (s s' : Session σ α) : Prop where
  globalsEnd : s.globalsEnd = s'.globalsEnd
  complete : s.globalsEnd ≤ s.stack.height
  complete' : s'.globalsEnd ≤ s'.stack.height
  globals : ∀ i < s.globalsEnd, s.stack.slots[i]? = s'.stack.slots[i]?
  session : s.stack.session = s'.stack.session
  depth : s.depth = s'.depth
  closed : s.building = none
  closed' : s'.building = none
  random : s.random = s'.random
  store : s.store = s'.store
  renderer : s.renderer = s'.renderer

/-- What two expansions leave behind is the same, but for the heights in the
handles of paths that are not `old`. -/
structure Session.LeftAlike (old : Nat → Prop) (like : σ → σ → Prop)
    (u u' : Session (σ × Array (Call α)) α) : Prop where
  random : u.random = u'.random
  values : u.store.values = u'.store.values
  paths : List.Forall₂ (fun kept kept' => kept.1 = kept'.1 ∧ kept.2.Twin old kept'.2)
    u.store.paths u'.store.paths
  nextUid : u.store.nextUid = u'.store.nextUid
  sessions : u.store.sessions = u'.store.sessions
  renderer : like u.renderer.1 u'.renderer.1
  calls : List.Forall₂ (Call.Matches (Path.Compiled.Twins old)) u.renderer.2.toList
    u'.renderer.2.toList

theorem Stack.below_congr {slots slots' : Array (Slot α)} {top : Nat}
    (h : ∀ i < top, slots[i]? = slots'[i]?) (first : Nat) :
    below slots first top = below slots' first top := by
  induction top with
  | zero => rfl
  | succ i ih =>
    rw [below, below, h i (Nat.lt_succ_self i), ih fun j hj => h j (Nat.lt_succ_of_lt hj)]

namespace Pact

/-- Two sessions on stacks of their own, where only paths of these identities
were begun on both. -/
def apart (old : Nat → Prop) (like : σ → σ → Prop) : Pact (σ × Array (Call α)) where
  level := False
  old := old
  like := Renderer.Alike (Path.Compiled.Twins old) like
  admits _ := True
  usual _ _ := trivial

variable {old : Nat → Prop} {like : σ → σ → Prop}

theorem Holds.leftAlike {u u' : Session (σ × Array (Call α)) α} (h : (apart old like).Holds u u') :
    u.LeftAlike old like u' where
  random := h.cargo.random
  values := h.cargo.values
  paths := h.cargo.paths
  nextUid := h.cargo.nextUid
  sessions := h.cargo.sessions
  renderer := h.cargo.renderer.1
  calls := h.cargo.renderer.2

end Pact

theorem Looks.environmentAt [Scalar α] {m : Pact σ} (free : ∀ e, m.admits e) (n : Nat)
    (V : List (Slot α)) (asked : Expr.Use → Prop) :
    Env.Answers m.parting (Looks m V) asked (Session.environmentAt n)
      (Session.environmentAt n) := by
  induction n generalizing V asked with
  | zero =>
    have out : ∀ W : List (Slot α), InStep m.parting (Looks m W) Eq
        (Attempt.fail .outOfFuel : Action σ α (Value α)) (Attempt.fail .outOfFuel) := fun W =>
      Pact.fail_leads (free _) fun _ _ h => h.toHolds
    exact environment (fun _ _ => Action.keeps_fail nofun) (fun _ _ => Action.keeps_fail nofun)
      (fun _ _ _ _ => free _) (fun _ _ _ rest _ _ _ _ => out rest) fun _ _ _ _ _ _ _ _ _ _ => out _
  | succ n ih =>
    have body : ∀ W (d : Define α) span, InStep m.parting (Looks m W) Eq
        ((Session.environmentAt n).evalDefine d span)
        ((Session.environmentAt n).evalDefine d span) := fun W d span =>
      (ih W fun _ => True).evalDefine d span fun _ _ => trivial
    exact environment (Session.environmentAt_keeps n).evalDefine
      (Session.environmentAt_keeps n).evalDefine (fun _ _ _ _ => free _)
      (fun _ span _ rest d _ _ _ => body rest d span) fun _ span _ _ _ d _ _ _ _ => body _ d span

/-- Points that share the globals are on common ground. -/
theorem Session.ShareGlobals.afoot {s s' : Session (σ × Array (Call α)) α} (h : s.ShareGlobals s')
    {like : σ → σ → Prop} (refl : like s.renderer.1 s.renderer.1) :
    Afoot (Pact.apart (· < s.store.nextUid) like) (Stack.below s.stack.slots 0 s.globalsEnd)
      s.depth s s' := by
  have calls : Renderer.Alike (Path.Compiled.Twins (· < s.store.nextUid)) like s.renderer
      s.renderer := ⟨refl, List.forall₂_same.mpr fun call _ =>
        .refl (fun _ _ => ⟨rfl, .refl _ _⟩) call⟩
  have alike : s.cargo.Alike (Pact.apart (· < s.store.nextUid) like) s'.cargo := by
    have cargo : s'.cargo = s.cargo := by
      simp only [Session.cargo, h.closed, h.closed', h.random, h.store, h.renderer]
    rw [cargo]
    exact .refl calls fun uid later old => absurd old (Nat.not_lt.mpr later)
  exact {
    level := False.elim
    cargo := alike
    ground := {
      below := h.complete
      below' := h.complete'
      globals := rfl
      globals' := by
        rw [Session.control, ← h.globalsEnd]
        exact (Stack.below_congr h.globals 0).symm
      depth := rfl
      depth' := h.depth.symm
      session := h.session } }

namespace Setting

variable [Scalar α] {old : Nat → Prop} {like : σ → σ → Prop}

theorem expand_apart (g : Grammar α) {r : Renderer σ α}
    (respects : r.Respects (Path.Compiled.Twins old) like) (options : Options)
    (G : List (Slot α)) (fuel δ : Nat) (i : Instance α) :
    InStep (Pact.apart old like).parting (Afoot (Pact.apart old like) G δ) Eq
      ((standard g r.traced options).expand fuel i)
      ((standard g r.traced options).expand fuel i) := by
  let env (n : Nat) (_ : Scope) : Env Stop (Session (σ × Array (Call α)) α) α :=
    Session.environmentAt n
  -- nothing is asked of the scope: what is in sight is the same on both sides
  have score : Score (Pact.apart old like) (standard g r.traced options) (fun _ _ => True)
      (fun _ _ => True) [] env env := {
    keeps := fun n _ => Session.environmentAt_keeps n
    keeps' := fun n _ => Session.environmentAt_keeps n
    param := fun _ _ _ _ _ _ => trivial
    define := fun _ _ _ _ _ _ _ _ => trivial
    respects := respects.traced
    fits := fun _ _ _ _ _ _ => trivial }
  have agree : ∀ n, score.Agree n n := fun n _ V _ _ _ =>
    Looks.environmentAt (fun _ => trivial) n V _
  rw [← guidedExpand_const (standard g r.traced options) []]
  exact score.expand agree trivial trivial fuel δ i

/-- An instance is expanded alike above whatever bindings, frames and views its
callers have left: with the same result, the same calls of the renderer, the same
random state and the same store, apart from the heights in the handles of the
paths that are built on the way. -/
theorem expand_ignores_callers (g : Grammar α) {r : Renderer σ α}
    {s s' : Session (σ × Array (Call α)) α} (shared : s.ShareGlobals s')
    (respects : r.Respects (Path.Compiled.Twins (· < s.store.nextUid)) like)
    (refl : like s.renderer.1 s.renderer.1) (options : Options) (fuel : Nat) (i : Instance α) :
    Meets ⟨fun e e' u u' => e = e' ∧ u.LeftAlike (· < s.store.nextUid) like u', fun _ => False⟩
      (Session.LeftAlike (· < s.store.nextUid) like) Eq
      (((standard g r.traced options).expand fuel i).run s)
      (((standard g r.traced options).expand fuel i).run s') :=
  (expand_apart g respects options _ fuel s.depth i s s' (shared.afoot refl)).weaken
    ⟨fun _ _ _ _ parted => ⟨parted.1, parted.2.2.leftAlike⟩, fun _ => id⟩
    (fun _ _ later => later.leftAlike) fun _ _ => id

end Setting

/-- The recorder looks at no handle. -/
theorem Recorder.respects_twins [Scalar α] (limits : Limits α) (old : Nat → Prop) :
    (Recorder.renderer limits).Respects (Path.Compiled.Twins old) Eq where
  cutoff i depth s s' same := by
    subst same
    exact ⟨rfl, rfl⟩
  primitive i p s s' same := congrArg _ same
  path i uid uid' p p' command s s' drawn same := by
    obtain ⟨rfl, twin⟩ := drawn
    have storage : p.storage = p'.storage :=
      show p.erased.storage = p'.erased.storage from congrArg Path.Compiled.storage twin.same.1
    simp only [renderer, storage, same]

def Sample.above (callers : Array (Slot Rat)) (view : View) :
    Session (Recorder Rat × Array (Call Rat)) Rat :=
  { session .empty with
    stack := ⟨#[⟨"side", .value (.number 2)⟩] ++ callers, #[0, 1], 1⟩
    view := view
    globalsEnd := 1 }

def Sample.shadowing : Array (Slot Rat) :=
  #[⟨"side", .value (.number 5)⟩, ⟨"tip", .deferred (constant "tip" (var "side"))⟩]

theorem Setting.expand_ignores_callers_sample :
    (Sample.above #[] .full).ShareGlobals (Sample.above Sample.shadowing (.rule 2 (some 1))) ∧
      Meets ⟨fun e e' u u' => e = e' ∧ u.LeftAlike (· < 1) Eq u', fun _ => False⟩
        (Session.LeftAlike (· < 1) Eq) Eq
        (((standard Sample.grammar Sample.renderer Sample.options).expand 9 (.root 1)).run
          (Sample.above #[] .full))
        (((standard Sample.grammar Sample.renderer Sample.options).expand 9 (.root 1)).run
          (Sample.above Sample.shadowing (.rule 2 (some 1)))) := by
  have shared : (Sample.above #[] .full).ShareGlobals
      (Sample.above Sample.shadowing (.rule 2 (some 1))) := {
    globalsEnd := rfl
    complete := by decide
    complete' := by decide
    globals := by
      rintro i hi
      obtain rfl : i = 0 := Nat.lt_one_iff.mp hi
      rfl
    session := rfl
    depth := rfl
    closed := rfl
    closed' := rfl
    random := rfl
    store := rfl
    renderer := rfl }
  exact ⟨shared, expand_ignores_callers Sample.grammar shared (Recorder.respects_twins .standard _)
    rfl Sample.options 9 (.root 1)⟩

end ShapeGrammar
