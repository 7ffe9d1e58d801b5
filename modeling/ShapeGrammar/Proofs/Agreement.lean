import ShapeGrammar.Scope
import ShapeGrammar.Proofs.Known

/-!
# Agreement on fixed names

A name that the static scope holds for fixed has the same binding on every
expansion of its path rule. Two sessions that agree on such names, and on no
others, evaluate an expression over these names to the same value. Neither
session changes on the way, so nothing that differs between them can come in.
-/

set_option autoImplicit false

namespace ShapeGrammar

open Attempt

variable {σ σ' α : Type}

def Binding.FixedIn (scope : Scope) : Binding α → Prop
  | .value _ => True
  | .deferred d => d.isConstantIn scope.isFixed = true
  | .function _ => False

inductive Scope.Agree : Scope → List (Slot α) → List (Slot α) → Prop
  | nil : Agree [] [] []
  | cons {e : Entry} {scope : Scope} {x x' : Slot α} {xs xs' : List (Slot α)}
      (name : x.name = e.name) (name' : x'.name = e.name)
      (fixed : e.fixed = true → x.binding = x'.binding ∧ x.binding.FixedIn scope)
      (rest : Agree scope xs xs') : Agree (e :: scope) (x :: xs) (x' :: xs')

/-- A fixed name is found at the same depth, with agreement on all that lies
behind it. -/
theorem Scope.Agree.search {scope : Scope} {xs xs' : List (Slot α)} (h : scope.Agree xs xs')
    {name : String} (hn : scope.isFixed name = true) :
    ∃ (outer : Scope) (x x' : Slot α) (rest rest' : List (Slot α)),
      Slot.search name xs = some (x, rest) ∧ Slot.search name xs' = some (x', rest') ∧
      x.binding = x'.binding ∧ x.binding.FixedIn outer ∧ outer.Agree rest rest' := by
  induction h with
  | nil => cases hn
  | @cons e scope x x' xs xs' same same' fixed rest ih =>
    simp only [Slot.search, same, same']
    simp only [Scope.isFixed, Scope.holds, List.find?_cons] at hn
    split
    case isTrue hname =>
      simp only [hname, beq_self_eq_true, Option.any_some] at hn
      obtain ⟨binding, fixedIn⟩ := fixed hn
      exact ⟨scope, x, x', xs, xs', rfl, rfl, binding, fixedIn, rest⟩
    case isFalse hname =>
      simp only [beq_eq_false_iff_ne.mpr hname] at hn
      exact ih hn

/-- Two sessions that stay as they are, until the first runs out of fuel. -/
def Session.unmoved (s : Session σ α) (s' : Session σ' α) :
    Parting Stop Stop (Session σ α) (Session σ' α) where
  together e e' t t' := e = e' ∧ t = s ∧ t' = s'
  alone e := e = .outOfFuel

structure Scope.AgreeAt (scope : Scope) (s : Session σ α) (s' : Session σ' α) : Prop where
  agree : scope.Agree (s.stack.visible s.view) (s'.stack.visible s'.view)
  plain : ∀ x ∈ s.stack.visible s.view, x.Plain
  plain' : ∀ x ∈ s'.stack.visible s'.view, x.Plain

variable [Scalar α]

theorem Scope.AgreeAt.environment {scope : Scope} {s : Session σ α} {s' : Session σ' α}
    (h : scope.AgreeAt s s') {body : Define α → Span → Action σ α (Value α)}
    {body' : Define α → Span → Action σ' α (Value α)}
    (deferred : ∀ (outer : Scope) (v v' : View) (d : Define α) (span : Span),
      outer.AgreeAt { s with view := v } { s' with view := v' } →
      d.isConstantIn outer.isFixed = true →
      Meets (Session.unmoved { s with view := v } { s' with view := v' })
        (fun t t' => t = { s with view := v } ∧ t' = { s' with view := v' }) Eq
        ((body d span).run { s with view := v }) ((body' d span).run { s' with view := v' })) :
    Env.InStep (s.unmoved s') (fun t t' => t = s ∧ t' = s') False scope.isFixed
      (Session.environment body) (Session.environment body') where
  lookup name span := by
    rintro (impossible | fixed) t t' ⟨rfl, rfl⟩
    · exact impossible.elim
    obtain ⟨outer, x, x', rest, rest', found, found', binding, fixedIn, agree⟩ :=
      h.agree.search fixed
    obtain ⟨i, lookup, behind⟩ := Stack.lookup_of_search found
    obtain ⟨i', lookup', behind'⟩ := Stack.lookup_of_search found'
    simp only [Session.environment, run_bind, run_state, lookup, lookup', ← binding]
    cases hb : x.binding with
    | value v => exact .ok rfl ⟨rfl, rfl⟩
    | deferred d =>
      rw [hb] at fixedIn
      -- What the define can see is what lies behind it, where there is agreement as well.
      have behindAgree : outer.AgreeAt { t with view := t.view.before (some i) }
          { t' with view := t'.view.before (some i') } := by
        refine ⟨by simpa only [behind, behind'] using agree, ?_, ?_⟩
        · intro y hy
          rw [behind] at hy
          exact h.plain y ((Slot.search_mem found).2.2 hy)
        · intro y hy
          rw [behind'] at hy
          exact h.plain' y ((Slot.search_mem found').2.2 hy)
      have inner := deferred outer _ _ d span behindAgree fixedIn
      simp only [Action.wraps_underView _ _ _]
      generalize (body d span).run _ = o at inner ⊢
      generalize (body' d span).run _ = o' at inner ⊢
      cases inner with
      | ok value state =>
        obtain ⟨rfl, rfl⟩ := state
        exact .ok value ⟨rfl, rfl⟩
      | together parted =>
        obtain ⟨rfl, rfl, rfl⟩ := parted
        exact .together ⟨rfl, rfl, rfl⟩
      | alone quits => exact .alone quits
    | function d =>
      rw [hb] at fixedIn
      exact fixedIn.elim
  call name args span := by
    rintro (impossible | pure) _ _ ⟨rfl, rfl⟩
    · exact impossible.elim
    rw [Session.call_unspoilt (Session.unspoilt_of_plain h.plain) body pure,
      Session.call_unspoilt (Session.unspoilt_of_plain h.plain') body' pure]
    exact .ok rfl ⟨rfl, rfl⟩
  draw impossible := impossible.elim
  raise _ _ _ same := ⟨rfl, same⟩

/-- Evaluation over fixed names is in step and leaves both sessions as they are. -/
theorem Scope.AgreeAt.environmentAt {n m : Nat} (hle : n ≤ m) {scope : Scope} {s : Session σ α}
    {s' : Session σ' α} (h : scope.AgreeAt s s') :
    Env.InStep (s.unmoved s') (fun t t' => t = s ∧ t' = s') False scope.isFixed
      (Session.environmentAt n) (Session.environmentAt m) := by
  induction n generalizing m scope s s' with
  | zero =>
    obtain ⟨body', same⟩ := Session.environmentAt_eq (σ := σ') (α := α) m
    rw [same]
    exact h.environment fun _ _ _ _ _ _ _ => .alone rfl
  | succ n ih =>
    cases m with
    | zero => omega
    | succ m =>
      exact h.environment fun outer v v' d span inner fixed =>
        (ih (Nat.le_of_succ_le_succ hle) inner).evalDefine d span (.inr fixed) _ _ ⟨rfl, rfl⟩

end ShapeGrammar
