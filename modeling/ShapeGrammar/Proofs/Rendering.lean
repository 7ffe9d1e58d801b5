import Mathlib.Data.List.Forall2
import Mathlib.Logic.Relator
import ShapeGrammar.Recorder
import ShapeGrammar.Proofs.Statements

/-!
# What a renderer can tell

Two expansions that draw the same picture may still give its paths different
identities and handles. A renderer whose answers do not depend on these takes
both expansions through states that it cannot tell apart.
-/

set_option autoImplicit false

namespace ShapeGrammar

variable {σ α : Type}

/-- When a path drawn by its identity on one side counts as that on the other. -/
abbrev PathRel (α : Type) := Nat → Path.Compiled α → Nat → Path.Compiled α → Prop

/-- Paths that share their geometry and commands, with identities related by
`uids`. Their handles do not matter. -/
def Path.Compiled.Alike (uids : Nat → Nat → Prop) : PathRel α := fun uid p uid' p' =>
  uids uid uid' ∧ p.erased = p'.erased

/-- Paths with the same identity that differ in their handles. -/
def Path.Compiled.Same (p p' : Path.Compiled α) : Prop := p.erased = p'.erased ∧ p.uid = p'.uid

theorem lookup_rel {β : Type} {same : β → β → Prop} {kept kept' : List (Address × β)}
    (h : List.Forall₂ (fun e e' => e.1 = e'.1 ∧ same e.2 e'.2) kept kept') (place : Address) :
    Option.Rel same (kept.lookup place) (kept'.lookup place) := by
  induction h with
  | nil => exact .none
  | @cons e e' rest rest' head _ ih =>
    obtain ⟨key, p⟩ := e
    obtain ⟨key', p'⟩ := e'
    obtain ⟨rfl, same⟩ := head
    simp only [List.lookup_cons]
    cases place == key with
    | true => exact .some same
    | false => exact ih

inductive Call.Matches (same : PathRel α) : Call α → Call α → Prop
  | cutoff (i : Instance α) (depth : Nat) (verdict : Verdict) :
      Matches same (.cutoff i depth verdict) (.cutoff i depth verdict)
  | primitive (i : Instance α) (p : Primitive) : Matches same (.primitive i p) (.primitive i p)
  | path (i : Instance α) {uid uid' : Nat} {path path' : Path.Compiled α}
      (command : Path.Command α) (drawn : same uid path uid' path') :
      Matches same (.path i uid path command) (.path i uid' path' command)

theorem Call.Matches.refl {same : PathRel α} (h : ∀ uid p, same uid p uid p) (c : Call α) :
    Matches same c c := by
  cases c with
  | cutoff i depth verdict => exact .cutoff i depth verdict
  | primitive i p => exact .primitive i p
  | path i uid path command => exact .path i command (h uid path)

theorem Call.Matches.mono {same same' : PathRel α} (h : ∀ uid p uid' p', same uid p uid' p' →
    same' uid p uid' p') {c c' : Call α} (matched : Matches same c c') : Matches same' c c' := by
  cases matched with
  | cutoff i depth verdict => exact .cutoff i depth verdict
  | primitive i p => exact .primitive i p
  | path i command drawn => exact .path i command (h _ _ _ _ drawn)

def Call.subject : Call α → Instance α
  | .cutoff i _ _ => i
  | .primitive i _ => i
  | .path i _ _ _ => i

theorem Call.Matches.subject {same : PathRel α} {c c' : Call α} (h : Matches same c c') :
    c.subject = c'.subject := by
  cases h <;> rfl

theorem Call.Matches.subjects {same : PathRel α} {calls calls' : List (Call α)}
    (h : List.Forall₂ (Matches same) calls calls') :
    calls.map Call.subject = calls'.map Call.subject := by
  induction h with
  | nil => rfl
  | cons matched _ ih => rw [List.map_cons, List.map_cons, matched.subject, ih]

namespace Renderer

/-- From like states the renderer gives one answer and goes to like states, for
paths that count as the same. -/
structure Respects (r : Renderer σ α) (same : PathRel α) (like : σ → σ → Prop) : Prop where
  cutoff : ∀ i depth s s', like s s' →
    (r.cutoff i depth s).1 = (r.cutoff i depth s').1 ∧
      like (r.cutoff i depth s).2 (r.cutoff i depth s').2
  primitive : ∀ i p s s', like s s' → like (r.drawPrimitive i p s) (r.drawPrimitive i p s')
  path : ∀ i uid uid' p p' command s s', same uid p uid' p' → like s s' →
    like (r.drawPath i uid p command s) (r.drawPath i uid' p' command s')

def Alike (same : PathRel α) (like : σ → σ → Prop) (s s' : σ × Array (Call α)) : Prop :=
  like s.1 s'.1 ∧ List.Forall₂ (Call.Matches same) s.2.toList s'.2.toList

theorem Respects.traced {r : Renderer σ α} {same : PathRel α} {like : σ → σ → Prop}
    (h : r.Respects same like) : r.traced.Respects same (Alike same like) where
  cutoff i depth s s' := by
    rintro ⟨states, calls⟩
    obtain ⟨verdict, next⟩ := h.cutoff i depth s.1 s'.1 states
    refine ⟨verdict, next, ?_⟩
    simp only [Renderer.traced, Array.toList_push, verdict]
    exact List.rel_append calls (.cons (.cutoff i depth _) .nil)
  primitive i p s s' := by
    rintro ⟨states, calls⟩
    refine ⟨h.primitive i p s.1 s'.1 states, ?_⟩
    simp only [Renderer.traced, Array.toList_push]
    exact List.rel_append calls (.cons (.primitive i p) .nil)
  path i uid uid' p p' command s s' drawn := by
    rintro ⟨states, calls⟩
    refine ⟨h.path i uid uid' p p' command s.1 s'.1 drawn states, ?_⟩
    simp only [Renderer.traced, Array.toList_push]
    exact List.rel_append calls (.cons (.path i command drawn) .nil)

/-- The renderer goes along with every one-to-one renaming of identities, and
stays with it as more of them are renamed. -/
structure Follows (r : Renderer σ α) (like : (Nat → Nat → Prop) → σ → σ → Prop) : Prop where
  respects : ∀ ρ, Relator.BiUnique ρ → r.Respects (Path.Compiled.Alike ρ) (like ρ)
  mono : ∀ ρ ρ' s s', (∀ u u', ρ u u' → ρ' u u') → like ρ s s' → like ρ' s s'

theorem Follows.traced {r : Renderer σ α} {like : (Nat → Nat → Prop) → σ → σ → Prop}
    (h : r.Follows like) : r.traced.Follows fun ρ => Alike (Path.Compiled.Alike ρ) (like ρ) where
  respects ρ hρ := (h.respects ρ hρ).traced
  mono ρ ρ' s s' more := by
    rintro ⟨states, calls⟩
    refine ⟨h.mono ρ ρ' _ _ more states, calls.imp fun _ _ matched => ?_⟩
    exact matched.mono fun _ _ _ _ drawn => ⟨more _ _ drawn.1, drawn.2⟩

end Renderer

/-- Whether the recorder goes on depends on the number of its draws, and on
nothing else that was drawn. -/
theorem Recorder.respects [Scalar α] (limits : Limits α) (same : PathRel α) :
    (Recorder.renderer limits).Respects same fun r r' => r.draws.size = r'.draws.size where
  cutoff i depth s s' size := by
    simp only [renderer, cutoff, size]
    split
    · exact ⟨rfl, size⟩
    · split
      · exact ⟨rfl, size⟩
      · exact ⟨rfl, size⟩
  primitive i p s s' size := by simp [renderer, record, size]
  path i uid uid' p p' command s s' _ size := by simp [renderer, record, size]

end ShapeGrammar
