import ShapeGrammar.Proofs.Uses

/-!
# Evaluation side by side

Evaluation reaches its environment through three doors: names, calls and
draws. Where two environments are in step at these doors, so are the two
evaluations of any expression. If the doors are in step only for some names
and never for draws, the same still holds of the expressions that are constant
in these names.
-/

set_option autoImplicit false

namespace ShapeGrammar

open Attempt

section Doors

variable {ε ε' ω ω' α : Type}

/-- Two environments in step: at every door when `free`, else for the `known`
names and for the calls that only a builtin can answer. -/
structure Env.InStep (d : Parting ε ε' ω ω') (P : ω → ω' → Prop) (free : Prop)
    (known : String → Bool) (env : Env ε ω α) (env' : Env ε' ω' α) : Prop where
  lookup : ∀ name span, free ∨ known name = true →
    Attempt.InStep d P Eq (env.lookup name span) (env'.lookup name span)
  call : ∀ name args span, free ∨ Builtin.namesPure name = true →
    Attempt.InStep d P Eq (env.call name args span) (env'.call name args span)
  draw : free → ∀ s s', P s s' →
    Option.Rel (fun a b => a.1 = b.1 ∧ P a.2 b.2) (env.draw s) (env'.draw s')
  raise : ∀ fault s s', P s s' → d.together (env.raise fault) (env'.raise fault) s s'

def Expr.Use.isConstantIn (known : String → Bool) : Expr.Use → Bool
  | .read name _ => known name
  | .call name _ => Builtin.namesPure name

theorem Env.InStep.answers {d : Parting ε ε' ω ω'} {P : ω → ω' → Prop} {free : Prop}
    {known : String → Bool} {env : Env ε ω α} {env' : Env ε' ω' α}
    (h : Env.InStep d P free known env env') :
    Env.Answers d P (fun u => free ∨ u.isConstantIn known = true) env env' where
  lookup := h.lookup
  call := h.call
  draw name span hu random := by
    refine h.draw (hu.resolve_right fun pure => ?_)
    cases found : Builtin.ofName? name with
    | none => simp [Builtin.namesRandom, found] at random
    | some f => simp_all [Expr.Use.isConstantIn, Builtin.namesPure, Builtin.namesRandom]
  raise span cause _ s s' := h.raise ⟨span, cause⟩ s s'

theorem Env.InStep.free {d : Parting ε ε' ω ω'} {P : ω → ω' → Prop} {known : String → Bool}
    {env : Env ε ω α} {env' : Env ε' ω' α} (h : Env.InStep d P True known env env') :
    Env.Answers d P (fun _ => True) env env' :=
  h.answers.mono fun _ => .inl

/-! ### Constants -/

mutual

theorem Expr.uses_isConstantIn {known : String → Bool} :
    ∀ {e : Expr α}, e.isConstantIn known = true → ∀ u ∈ e.uses, u.isConstantIn known = true
  | .number _ _, _ => nofun
  | .flag _ _, _ => nofun
  | .var _ _, h => by simpa [uses, Use.isConstantIn, isConstantIn] using h
  | .tuple _ _, h => allUses_isConstantIn h
  | .unary _ operand _, h => operand.uses_isConstantIn h
  | .binary left _ right _, h => by
    obtain ⟨hl, hr⟩ := Bool.and_eq_true_iff.mp h
    intro u hu
    rcases List.mem_append.mp hu with hu | hu
    · exact left.uses_isConstantIn hl u hu
    · exact right.uses_isConstantIn hr u hu
  | .call _ _ _, h => by
    obtain ⟨pure, ha⟩ := Bool.and_eq_true_iff.mp h
    intro u hu
    rcases List.mem_cons.mp hu with rfl | hu
    · exact pure
    · exact allUses_isConstantIn ha u hu

theorem Expr.allUses_isConstantIn {known : String → Bool} :
    ∀ {items : List (Expr α)}, allConstantIn known items = true →
      ∀ u ∈ allUses items, u.isConstantIn known = true
  | [], _ => nofun
  | e :: _, h => by
    obtain ⟨he, hr⟩ := Bool.and_eq_true_iff.mp h
    intro u hu
    rcases List.mem_append.mp hu with hu | hu
    · exact e.uses_isConstantIn he u hu
    · exact allUses_isConstantIn hr u hu

end

variable {free : Prop} {known : String → Bool}

theorem Expr.constant_uses {e : Expr α} (h : free ∨ e.isConstantIn known = true) :
    ∀ u ∈ e.uses, free ∨ u.isConstantIn known = true :=
  fun u hu => h.imp_right fun constant => e.uses_isConstantIn constant u hu

theorem Bundle.constant_uses {b : Bundle α} (h : free ∨ b.isConstantIn known = true) :
    ∀ u ∈ b.uses, free ∨ u.isConstantIn known = true := by
  intro u hu
  refine h.imp_right fun constant => ?_
  obtain ⟨t, ht, hu⟩ := List.mem_flatMap.mp hu
  obtain ⟨e, he, hu⟩ := List.mem_flatMap.mp hu
  have all := List.all_eq_true.mp constant t ht
  exact e.uses_isConstantIn (List.all_eq_true.mp all e he) u hu

theorem Symmetry.constant_uses {g : Symmetry α} (h : free ∨ g.isConstantIn known = true) :
    ∀ u ∈ g.uses, free ∨ u.isConstantIn known = true := by
  cases g with
  | mods b => exact Bundle.constant_uses h
  | cyclic n => exact nofun
  | dihedral n => exact nofun

theorem Path.Op.constant_uses {o : Path.Op α} (h : free ∨ o.isConstantIn known = true) :
    ∀ u ∈ o.uses, free ∨ u.isConstantIn known = true := by
  intro u hu
  refine h.imp_right fun constant => ?_
  obtain ⟨arg, harg, hu⟩ := List.mem_flatMap.mp hu
  exact arg.2.uses_isConstantIn (List.all_eq_true.mp constant arg harg) u hu

theorem Path.CommandSpec.constant_uses {c : Path.CommandSpec α}
    (h : free ∨ c.isConstantIn known = true) :
    ∀ u ∈ c.uses, free ∨ u.isConstantIn known = true := by
  intro u hu
  refine h.imp_right fun constant => ?_
  obtain ⟨e, he, hu⟩ := List.mem_flatMap.mp hu
  exact e.uses_isConstantIn (List.all_eq_true.mp constant e he) u hu

theorem Define.constant_uses {f : Define α} (h : free ∨ f.isConstantIn known = true) :
    ∀ u ∈ f.body.uses, free ∨ u.isConstantIn known = true := by
  obtain ⟨name, body, kind, width, params, isFunction, cell⟩ := f
  cases body with
  | expr e => exact Expr.constant_uses h
  | mods b => exact Bundle.constant_uses h

end Doors

namespace Env.InStep

variable {ε ε' ω ω' α : Type} [Scalar α] {free : Prop} {known : String → Bool}

/-- Evaluation follows its environment. -/
theorem eval {d : Parting ε ε' ω ω'} {P : ω → ω' → Prop} {env : Env ε ω α} {env' : Env ε' ω' α}
    (h : Env.InStep d P free known env env') (e : Expr α)
    (he : free ∨ e.isConstantIn known = true) :
    Attempt.InStep d P Eq (env.eval e) (env'.eval e) :=
  h.answers.eval e (Expr.constant_uses he)

theorem evalDefine {d : Parting Stop Stop ω ω'} {P : ω → ω' → Prop} {env : Env Stop ω α}
    {env' : Env Stop ω' α} (h : Env.InStep d P free known env env') (f : Define α) (span : Span)
    (hf : free ∨ f.isConstantIn known = true) :
    Attempt.InStep d P Eq (env.evalDefine f span) (env'.evalDefine f span) :=
  h.answers.evalDefine f span (Define.constant_uses hf)

end Env.InStep

end ShapeGrammar
